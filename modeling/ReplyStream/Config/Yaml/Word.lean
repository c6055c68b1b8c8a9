/-
What a plain scalar of YAML stands for: nothing, a truth value, a number, or
the text itself. Integers are those of 64 bits with a sign; a larger one, like
anything with a fraction or an exponent, is a float, and a float that is whole
counts as an integer all the same.
-/
import ReplyStream.Config.Decimal

namespace ReplyStream.Config.Yaml

def nullWords : List String := ["", "~", "null", "Null", "NULL"]

def truthWords : List String := ["true", "True", "TRUE", "false", "False", "FALSE"]

/-- Words for what is no number, which have no sign. -/
def nanWords : List String := [".nan", ".NaN", ".NAN"]

/-- Words for infinity, with or without a sign. -/
def infinityWords : List String := [".inf", ".Inf", ".INF"]

/-- Further names of such floats, in lower case; they count in any, with or
without a sign. -/
def floatNames : List String := ["inf", "infinity", "nan"]

/-- Whether a word names a float that no digits stand for. -/
def isFloatWord (cs : List Char) : Bool :=
  let unsigned := (Decimal.signed cs).2
  nanWords.contains (String.ofList cs) || infinityWords.contains (String.ofList unsigned) ||
    floatNames.contains (String.ofList (unsigned.map Char.toLower))

/-- An integer of 64 bits. A sign may stand in front of the digits. -/
def integer? (base : Nat) (cs : List Char) : Option Int :=
  let (negative, ds) := Decimal.signed cs
  (Setting.digits? base ds).bind fun n =>
    let i : Int := if negative then -n else n
    if -Int.pow 2 63 ≤ i ∧ i < Int.pow 2 63 then some i else none

/-- An integer in decimal digits, or in hexadecimal or octal ones behind
their marks. -/
def wordInteger? (cs : List Char) : Option Int :=
  match cs with
  | '0' :: 'x' :: ds | '0' :: 'X' :: ds => integer? 16 ds
  | '0' :: 'o' :: ds | '0' :: 'O' :: ds => integer? 8 ds
  | ds => integer? 10 ds

/-- The setting a plain scalar stands for. -/
def ofWord (cs : List Char) : Setting :=
  let s := String.ofList cs
  if nullWords.contains s then .null
  else if truthWords.contains s then .other
  else
    match wordInteger? cs with
    | some n => .number n
    | none =>
      match Decimal.ofChars? cs with
      | some d => (d.natural?.map fun n => Setting.number n).getD .other
      | none => if isFloatWord cs then .other else .text s

end ReplyStream.Config.Yaml
