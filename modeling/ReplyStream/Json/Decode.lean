/-
Reading values of other types out of JSON. A reader answers nothing when
the value has another shape; types never convert, and a number counts as
whole only when it is an integer of the type's range.

A record is written as an object or as the array of its fields in order
(`record`). In an object unknown keys are skipped; in an array the last
fields may be left off when they have a default, and nothing may follow
them. `field` must be there, `fieldD` may be missing, and `option` may be
missing or null.
-/
import ReplyStream.Json.Basic

namespace ReplyStream.Json

def string? : Json → Option String
  | .str s => some s
  | _ => none

def bool? : Json → Option Bool
  | .bool b => some b
  | _ => none

/-- A natural below `bound`. -/
def natBelow? (bound : Nat) : Json → Option Nat
  | .int n => if 0 ≤ n ∧ n < bound then some n.toNat else none
  | _ => none

def nat64? : Json → Option Nat := natBelow? (Nat.pow 2 64)
def nat32? : Json → Option Nat := natBelow? (Nat.pow 2 32)
def nat16? : Json → Option Nat := natBelow? (Nat.pow 2 16)

/-- An array all of whose items read. -/
def list? {α : Type} (item : Json → Option α) : Json → Option (List α)
  | .arr items => items.mapM item
  | _ => none

/-- Null reads as absent. -/
def nullable? {α : Type} (read : Json → Option α) : Json → Option (Option α)
  | .null => some none
  | v => (read v).map some

/-! ## Records -/

/-- Where the next fields of a record are found: by key, or in order. -/
inductive Source where
  | keyed (fields : Fields)
  | ordered (rest : List Json)

/-- Reads fields one after the other. -/
abbrev RecordReader := StateT Source Option

/-- The value of the next field, if it is there. -/
def nextField (key : String) : RecordReader (Option Json)
  | .keyed fields => some (fields.get? key, .keyed fields)
  | .ordered [] => some (none, .ordered [])
  | .ordered (v :: rest) => some (some v, .ordered rest)

/-- A field that must be there. -/
def field {α : Type} (key : String) (read : Json → Option α) : RecordReader α := do
  match ← nextField key with
  | some v => (read v : Option α)
  | none => failure

/-- A field with a default. -/
def fieldD {α : Type} (key : String) (read : Json → Option α) (default : α) : RecordReader α := do
  match ← nextField key with
  | some v => (read v : Option α)
  | none => pure default

/-- A field that may be missing or null. -/
def option {α : Type} (key : String) (read : Json → Option α) : RecordReader (Option α) :=
  fieldD key (nullable? read) none

/-- Reads a record out of an object or an array. -/
def record {α : Type} (fields : RecordReader α) : Json → Option α
  | .obj fs => (fields (.keyed fs)).map (·.1)
  | .arr items =>
    match fields (.ordered items) with
    | some (a, .ordered []) => some a
    | _ => none
  | _ => none

/-- Reads a record out of an object only. -/
def keyedRecord {α : Type} (fields : Fields → RecordReader α) : Json → Option α
  | .obj fs => (fields fs (.keyed fs)).map (·.1)
  | _ => none

/-! ## Writing records -/

/-- A field that is left out when it is absent. -/
def optionField {α : Type} (key : String) (write : α → Json) : Option α → List (String × Json)
  | some a => [(key, write a)]
  | none => []

def ofNat (n : Nat) : Json := .int n

end ReplyStream.Json
