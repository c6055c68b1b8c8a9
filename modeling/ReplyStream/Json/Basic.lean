/-
JSON values. Integers between `-2 ^ 63` and `2 ^ 64 - 1` are kept apart from
all other numbers, which are doubles. An object is a list of fields in the
order of their keys (code points, which is also the order of their UTF-8),
no key twice: `insert` keeps it so, a later value taking the place of an
earlier one, and `IsCanonical` says it of a whole value.
-/
import ReplyStream.Json.Double

namespace ReplyStream

inductive Json where
  | null
  | bool (b : Bool)
  | int (n : Int)
  | double (d : Json.Double)
  | str (s : String)
  | arr (items : List Json)
  | obj (fields : List (String × Json))
deriving Repr, Inhabited

namespace Json

/-- The fields of an object. -/
abbrev Fields := List (String × Json)

/-! ## Fields -/

namespace Fields

/-- The value at `key`. -/
def get? (fields : Fields) (key : String) : Option Json :=
  (fields.find? (·.1 == key)).map (·.2)

/-- Sets `key` to `value`, in key order. -/
def insert : Fields → String → Json → Fields
  | [], key, value => [(key, value)]
  | (k, v) :: rest, key, value =>
    if key < k then (key, value) :: (k, v) :: rest
    else if key = k then (key, value) :: rest
    else (k, v) :: insert rest key value

/-- The fields of a list of pairs; of equal keys the last counts. -/
def ofList (pairs : List (String × Json)) : Fields :=
  pairs.foldl (fun fields (key, value) => fields.insert key value) []

/-- The fields whose key satisfies `p`. -/
def filterKeys (p : String → Bool) (fields : Fields) : Fields := fields.filter fun (key, _) => p key

/-- Keys ascending, none twice. -/
def Ascending (fields : Fields) : Prop := fields.Pairwise fun a b => a.1 < b.1

end Fields

/-- An object of the given pairs; of equal keys the last counts. -/
def ofPairs (pairs : List (String × Json)) : Json := .obj (Fields.ofList pairs)

mutual

/-- How many values lie inside one another, the value itself included. -/
def depth : Json → Nat
  | .null | .bool _ | .int _ | .double _ | .str _ => 1
  | .arr items => depthItems items + 1
  | .obj fields => depthFields fields + 1

def depthItems : List Json → Nat
  | [] => 0
  | v :: rest => max (depth v) (depthItems rest)

def depthFields : List (String × Json) → Nat
  | [] => 0
  | (_, v) :: rest => max (depth v) (depthFields rest)

end

/-- The least integer that stays an integer. -/
def minInt : Int := -Int.pow 2 63

/-- The largest integer that stays an integer. -/
def maxInt : Int := Int.pow 2 64 - 1

mutual

/-- Every object has its keys ascending and every integer is in range. -/
def IsCanonical : Json → Prop
  | .null | .bool _ | .double _ | .str _ => True
  | .int n => minInt ≤ n ∧ n ≤ maxInt
  | .arr items => AllCanonical items
  | .obj fields => Fields.Ascending fields ∧ AllCanonicalFields fields

def AllCanonical : List Json → Prop
  | [] => True
  | v :: rest => IsCanonical v ∧ AllCanonical rest

def AllCanonicalFields : List (String × Json) → Prop
  | [] => True
  | (_, v) :: rest => IsCanonical v ∧ AllCanonicalFields rest

end

end Json

end ReplyStream
