/-
The fields of objects, looked up. What an object of a list of pairs holds at
a key is the last value the list has for it (`Fields.get?_ofList`), and a
record reads each of its fields by that.
-/
import ReplyStream.Json.Decode

namespace ReplyStream.Json

namespace Fields

theorem get?_cons (k : String) (v : Json) (fields : Fields) (key : String) :
    get? ((k, v) :: fields) key = if k = key then some v else get? fields key := by
  by_cases h : k = key <;> simp [get?, h]

theorem get?_insert (fields : Fields) (k : String) (v : Json) (key : String) :
    (fields.insert k v).get? key = if k = key then some v else fields.get? key := by
  induction fields with
  | nil => rw [insert, get?_cons]
  | cons f fields ih =>
    obtain ⟨k', v'⟩ := f
    unfold insert
    split
    · rw [get?_cons]
    split
    next heq =>
      subst heq
      rw [get?_cons, get?_cons]
      split <;> rfl
    next hne =>
      rw [get?_cons, get?_cons, ih]
      by_cases h : k = key
      · rw [if_pos h, if_pos h, if_neg (fun h' => hne (h.trans h'.symm))]
      · rw [if_neg h, if_neg h]

/-- The last value a list of pairs has for a key. -/
def lastOf : List (String × Json) → String → Option Json
  | [], _ => none
  | (k, v) :: rest, key => (lastOf rest key).or (if k = key then some v else none)

theorem get?_foldl_insert (pairs : List (String × Json)) (fields : Fields) (key : String) :
    (pairs.foldl (fun fields (k, v) => fields.insert k v) fields).get? key =
      (lastOf pairs key).or (fields.get? key) := by
  induction pairs generalizing fields with
  | nil => rfl
  | cons f pairs ih =>
    obtain ⟨k, v⟩ := f
    rw [List.foldl_cons, ih, get?_insert, lastOf, Option.or_assoc]
    split <;> rfl

theorem get?_ofList (pairs : List (String × Json)) (key : String) : (ofList pairs).get? key = lastOf pairs key := by
  rw [ofList, get?_foldl_insert, get?, List.find?_nil, Option.map_none, Option.or_none]

@[simp] theorem lastOf_nil (key : String) : lastOf [] key = none := rfl

@[simp] theorem lastOf_append (l m : List (String × Json)) (key : String) :
    lastOf (l ++ m) key = (lastOf m key).or (lastOf l key) := by
  induction l with
  | nil => rw [List.nil_append, lastOf, Option.or_none]
  | cons f l ih => rw [List.cons_append, lastOf, lastOf, ih, Option.or_assoc]

@[simp] theorem lastOf_cons_self (key : String) (v : Json) (rest : List (String × Json)) :
    lastOf ((key, v) :: rest) key = (lastOf rest key).or (some v) := by
  rw [lastOf, if_pos rfl]

theorem lastOf_cons_other {k key : String} (h : k ≠ key) (v : Json) (rest : List (String × Json)) :
    lastOf ((k, v) :: rest) key = lastOf rest key := by
  rw [lastOf, if_neg h, Option.or_none]

@[simp] theorem lastOf_optionField_self {α : Type} (key : String) (write : α → Json) (o : Option α) :
    lastOf (optionField key write o) key = o.map write := by
  cases o with
  | none => rfl
  | some a => rw [optionField, lastOf_cons_self, lastOf_nil, Option.none_or]; rfl

theorem lastOf_optionField_other {α : Type} {k key : String} (h : k ≠ key) (write : α → Json) (o : Option α) :
    lastOf (optionField k write o) key = none := by
  cases o with
  | none => rfl
  | some a => rw [optionField, lastOf_cons_other h, lastOf_nil]

end Fields

/-! ## Fields of a record -/

section Record

variable {α : Type} {key : String} {read : Json → Option α} {fields : Fields}

theorem field_keyed {v : Json} {a : α} (hv : fields.get? key = some v) (ha : read v = some a) :
    field key read (.keyed fields) = some (a, .keyed fields) := by
  simp only [field, nextField, bind, StateT.bind, hv, Option.bind_some, ha]
  rfl

/-- A field of an object that was made of pairs. -/
theorem field_ofList {pairs : List (String × Json)} {v : Json} {a : α} (hv : Fields.lastOf pairs key = some v)
    (ha : read v = some a) : field key read (.keyed (.ofList pairs)) = some (a, .keyed (.ofList pairs)) :=
  field_keyed ((Fields.get?_ofList pairs key).trans hv) ha

theorem fieldD_keyed {v : Json} {a default : α} (hv : fields.get? key = some v) (ha : read v = some a) :
    fieldD key read default (.keyed fields) = some (a, .keyed fields) := by
  simp only [fieldD, nextField, bind, StateT.bind, hv, Option.bind_some, ha]
  rfl

/-- An optional field that is written when it is there is read back, if its
value is read back and is not written as null. -/
theorem option_keyed {w : α → Json} {o : Option α} (hv : fields.get? key = o.map w)
    (hread : ∀ a ∈ o, read (w a) = some a) (hnull : ∀ a ∈ o, w a ≠ .null) :
    option key read (.keyed fields) = some (o, .keyed fields) := by
  cases o with
  | none =>
    simp only [option, fieldD, nextField, bind, StateT.bind, hv, Option.bind_some, Option.map_none]
    rfl
  | some a =>
    refine fieldD_keyed hv ?_
    unfold nullable?
    split
    next h => exact absurd h (hnull a rfl)
    next => rw [hread a rfl]; rfl

theorem list?_map {write : α → Json} {items : List α} (h : ∀ a ∈ items, read (write a) = some a) :
    list? read (.arr (items.map write)) = some items := by
  simp only [list?]
  induction items with
  | nil => rfl
  | cons a items ih =>
    rw [List.map_cons, List.mapM_cons, h a List.mem_cons_self, ih fun b hb => h b (List.mem_cons_of_mem a hb)]
    rfl

theorem list?_some (items : List Json) : list? some (.arr items) = some items := by
  have hmap : list? some (.arr (items.map id)) = some items := list?_map fun _ _ => rfl
  rwa [List.map_id] at hmap

end Record

end ReplyStream.Json
