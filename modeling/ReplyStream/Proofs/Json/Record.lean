/-
The fields of a record, wherever they are. A record is read out of an object by
key, or out of an array in order; either way each of its fields reads a member
of the value (`Json.member`), and it reads if they do (`Json.record_iff`).

A member is less deep than the value it belongs to (`Json.member_depth`), and in
order if that is (`Json.member_canonical`).
-/
import ReplyStream.Proofs.Json.Fields

namespace ReplyStream.Json

/-- The member of a record: by key, or by its place. -/
def member (key : String) (place : Nat) : Json → Option Json
  | .obj fields => Fields.get? fields key
  | .arr items => items[place]?
  | .null | .bool _ | .int _ | .double _ | .str _ => none

/-- Whether a value may be read as a record of `n` fields. -/
def IsRecord (n : Nat) : Json → Prop
  | .obj _ => True
  | .arr items => items.length ≤ n
  | .null | .bool _ | .int _ | .double _ | .str _ => False

/-- Where the fields behind the first few of a record are found. -/
def source (place : Nat) : Json → Source
  | .obj fields => .keyed fields
  | .arr items => .ordered (items.drop place)
  | .null | .bool _ | .int _ | .double _ | .str _ => .ordered []

/-- Reads a member that must be there. -/
def required {α : Type} (read : Json → Option α) (v : Option Json) : Option α := v.bind read

/-- Reads a member that may be missing or null. -/
def optional {α : Type} (read : Json → Option α) (v : Option Json) : Option (Option α) :=
  v.elim (some none) (nullable? read)

variable {α β : Type} {v : Json} {place : Nat}

/-! ## Fields -/

theorem nextField_source (key : String) (v : Json) (place : Nat) :
    nextField key (v.source place) = some (v.member key place, v.source (place + 1)) := by
  cases v with
  | arr items =>
    simp only [source, member]
    cases hrest : items.drop place with
    | nil =>
      have hlength := List.drop_eq_nil_iff.1 hrest
      rw [List.getElem?_eq_none hlength, List.drop_eq_nil_of_le (Nat.le_succ_of_le hlength)]
      rfl
    | cons item rest =>
      have hitem := congrArg List.head? hrest
      have htail := congrArg List.tail hrest
      rw [List.head?_drop] at hitem
      rw [List.tail_drop] at htail
      rw [hitem, htail]
      rfl
  | obj | null | bool | int | double | str => rfl

theorem field_source (key : String) (read : Json → Option α) (f : α → RecordReader β) :
    (field key read >>= f) (v.source place) =
      (required read (v.member key place)).bind fun a => f a (v.source (place + 1)) := by
  simp only [field, bind, StateT.bind, nextField_source, Option.bind_some, required]
  cases v.member key place with
  | none => rfl
  | some w => cases hread : read w <;> simp [hread, liftM, monadLift, MonadLift.monadLift, StateT.lift]

theorem fieldD_source (key : String) (read : Json → Option α) (default : α) (f : α → RecordReader β) :
    (fieldD key read default >>= f) (v.source place) =
      ((v.member key place).elim (some default) read).bind fun a => f a (v.source (place + 1)) := by
  simp only [fieldD, bind, StateT.bind, nextField_source, Option.bind_some]
  cases v.member key place with
  | none => rfl
  | some w => cases hread : read w <;> simp [hread, liftM, monadLift, MonadLift.monadLift, StateT.lift]

theorem option_source (key : String) (read : Json → Option α) (f : Option α → RecordReader β) :
    (option key read >>= f) (v.source place) =
      (optional read (v.member key place)).bind fun o => f o (v.source (place + 1)) :=
  fieldD_source key (nullable? read) none f

theorem pure_source (a : α) (s : Source) : (pure a : RecordReader α) s = some (a, s) := rfl

/-- A record reads when its fields do and nothing is behind them. -/
theorem record_iff {fields : RecordReader α} {n : Nat} {a : α}
    (hends : ∀ b s, fields (v.source 0) = some (b, s) → s = v.source n) :
    record fields v = some a ↔ v.IsRecord n ∧ fields (v.source 0) = some (a, v.source n) := by
  cases hread : fields (v.source 0) with
  | none =>
    cases v with
    | obj | arr => simp only [source, List.drop_zero] at hread; simp [record, hread]
    | null | bool | int | double | str => simp [record]
  | some read =>
    obtain ⟨b, s⟩ := read
    obtain rfl := hends b s hread
    cases v with
    | obj => simp only [source] at hread; simp [record, hread, IsRecord]
    | arr items =>
      simp only [source, List.drop_zero] at hread
      simp only [record, hread, IsRecord, source, Option.some.injEq, Prod.mk.injEq, and_true]
      rw [← List.drop_eq_nil_iff]
      cases items.drop n <;> simp
    | null | bool | int | double | str => simp [record, IsRecord]

/-- A record of one field, which may be missing. -/
theorem record_option_iff {key : String} {read : Json → Option α} {make : Option α → β} {b : β} :
    record (option key read >>= fun o => pure (make o)) v = some b ↔
      v.IsRecord 1 ∧ ∃ o, optional read (v.member key 0) = some o ∧ make o = b := by
  rw [record_iff (n := 1)]
  · simp only [option_source, pure_source, Option.bind_eq_some_iff, Option.some.injEq, Prod.mk.injEq, and_true]
  · simp only [option_source, pure_source, Option.bind_eq_some_iff]
    rintro b s ⟨o, -, heq⟩
    cases heq
    rfl

/-! ## Optional members -/

theorem optional_map {read : Json → Option α} {w : α → Json} {o : Option α} (hread : ∀ a ∈ o, read (w a) = some a)
    (hnull : ∀ a ∈ o, w a ≠ .null) : optional read (o.map w) = some o := by
  cases o with
  | none => rfl
  | some a =>
    simp only [optional, Option.map_some, Option.elim_some, nullable?]
    split
    next h => exact absurd h (hnull a rfl)
    next => rw [hread a rfl]; rfl

theorem optional_eq_some {read : Json → Option α} {o : Option Json} {a : α} (h : optional read o = some (some a)) :
    ∃ w, o = some w ∧ w ≠ .null ∧ read w = some a := by
  cases o with
  | none => cases h
  | some w =>
    simp only [optional, Option.elim_some, nullable?] at h
    split at h
    · cases h
    next hnull =>
      obtain ⟨b, hb, heq⟩ := Option.map_eq_some_iff.1 h
      cases heq
      exact ⟨w, rfl, hnull, hb⟩

/-- What is read stays the same with another reader that reads the same there. -/
theorem optional_congr {read read' : Json → Option α} {o : Option Json} {r : Option α} (h : optional read o = some r)
    (hsame : ∀ w a, o = some w → read w = some a → read' w = some a) : optional read' o = some r := by
  cases r with
  | none =>
    cases o with
    | none => rfl
    | some w =>
      simp only [optional, Option.elim_some, nullable?] at h ⊢
      split at h
      · rfl
      · obtain ⟨b, -, heq⟩ := Option.map_eq_some_iff.1 h
        cases heq
  | some a =>
    obtain ⟨w, rfl, hnull, hread⟩ := optional_eq_some h
    simp only [optional, Option.elim_some, nullable?]
    rw [hsame w a rfl hread]
    rfl

/-! ## Written members -/

theorem keys_optionField (key : String) (write : α → Json) (o : Option α) :
    ((optionField key write o).map (·.1)).Sublist [key] := by
  cases o with
  | none => exact List.nil_sublist _
  | some a => exact List.Sublist.refl _

theorem member_optionField (key : String) (place : Nat) (write : α → Json) (o : Option α) :
    (ofPairs (optionField key write o)).member key place = o.map write :=
  (Fields.get?_ofList _ _).trans (Fields.lastOf_optionField_self _ _ _)

theorem nat64?_lt {v : Json} {n : Nat} (h : nat64? v = some n) : n < Nat.pow 2 64 := by
  cases v with
  | int i =>
    simp only [nat64?, natBelow?] at h
    split at h
    next hbound =>
      cases h
      omega
    next => cases h
  | null | bool | double | str | arr | obj => cases h

theorem nat64?_ofNat {n : Nat} (h : n < Nat.pow 2 64) : nat64? (.ofNat n) = some n := by
  simp only [nat64?, natBelow?, ofNat]
  rw [if_pos ⟨Int.natCast_nonneg n, Int.ofNat_lt.2 h⟩]
  rfl

/-! ## Members -/

theorem depth_pos (v : Json) : 0 < v.depth := by
  cases v <;> simp [depth]

theorem depth_le_depthFields {fields : Fields} {key : String} {w : Json} (h : fields.get? key = some w) :
    w.depth ≤ depthFields fields := by
  induction fields with
  | nil => cases h
  | cons f fields ih =>
    obtain ⟨k, v⟩ := f
    rw [Fields.get?_cons] at h
    rw [depthFields]
    split at h
    · cases h
      exact Nat.le_max_left _ _
    · exact Nat.le_trans (ih h) (Nat.le_max_right _ _)

theorem depth_le_depthItems {items : List Json} {w : Json} (h : w ∈ items) : w.depth ≤ depthItems items := by
  induction items with
  | nil => cases h
  | cons v items ih =>
    rw [depthItems]
    rcases List.mem_cons.1 h with rfl | h
    · exact Nat.le_max_left _ _
    · exact Nat.le_trans (ih h) (Nat.le_max_right _ _)

theorem member_depth {key : String} {w : Json} (h : v.member key place = some w) : w.depth < v.depth := by
  cases v with
  | obj fields =>
    rw [depth]
    exact Nat.lt_succ_of_le (depth_le_depthFields h)
  | arr items =>
    rw [depth]
    exact Nat.lt_succ_of_le (depth_le_depthItems (List.mem_of_getElem? h))
  | null | bool | int | double | str => cases h

theorem allCanonicalFields_get? {fields : Fields} (hfields : AllCanonicalFields fields) {key : String} {w : Json}
    (h : fields.get? key = some w) : w.IsCanonical := by
  induction fields with
  | nil => cases h
  | cons f fields ih =>
    obtain ⟨k, v⟩ := f
    obtain ⟨hv, hrest⟩ := hfields
    rw [Fields.get?_cons] at h
    split at h
    · cases h
      exact hv
    · exact ih hrest h

theorem allCanonical_mem {items : List Json} (hitems : AllCanonical items) {w : Json} (h : w ∈ items) :
    w.IsCanonical := by
  induction items with
  | nil => cases h
  | cons v items ih =>
    obtain ⟨hv, hrest⟩ := hitems
    rcases List.mem_cons.1 h with rfl | h
    · exact hv
    · exact ih hrest h

theorem member_canonical (hv : v.IsCanonical) {key : String} {w : Json} (h : v.member key place = some w) :
    w.IsCanonical := by
  cases v with
  | obj fields => exact allCanonicalFields_get? hv.2 h
  | arr items => exact allCanonical_mem hv (List.mem_of_getElem? h)
  | null | bool | int | double | str => cases h

end ReplyStream.Json
