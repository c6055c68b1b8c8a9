/-
Objects with their keys in order. The fields that `Fields.ofList` makes are
ascending, and ascending fields are told by what they hold at each key
(`Fields.Ascending.ext`): an object that is written and read again is the same
if it holds the same.
-/
import Mathlib.Data.String.Basic
import ReplyStream.Proofs.Json.Fields

namespace ReplyStream.Json.Fields

variable {fields : Fields} {key : String}

/-! ## Order -/

theorem Ascending.cons_iff {k : String} {v : Json} {rest : Fields} :
    Ascending ((k, v) :: rest) ↔ (∀ f ∈ rest, k < f.1) ∧ Ascending rest := List.pairwise_cons

theorem mem_insert {k : String} {v : Json} {f : String × Json} (h : f ∈ fields.insert k v) :
    f = (k, v) ∨ f ∈ fields := by
  induction fields with
  | nil => exact .inl (List.mem_singleton.1 h)
  | cons g fields ih =>
    obtain ⟨k', v'⟩ := g
    unfold insert at h
    split at h
    · exact List.mem_cons.1 h
    split at h
    · exact (List.mem_cons.1 h).imp_right (List.mem_cons_of_mem _)
    · rcases List.mem_cons.1 h with rfl | h
      · exact .inr List.mem_cons_self
      · exact (ih h).imp_right (List.mem_cons_of_mem _)

theorem Ascending.insert (h : Ascending fields) (k : String) (v : Json) : Ascending (fields.insert k v) := by
  induction fields with
  | nil => exact List.pairwise_singleton _ _
  | cons f fields ih =>
    obtain ⟨k', v'⟩ := f
    obtain ⟨hfirst, hrest⟩ := Ascending.cons_iff.1 h
    unfold Fields.insert
    split
    next hlt =>
      refine Ascending.cons_iff.2 ⟨?_, h⟩
      intro f hf
      rcases List.mem_cons.1 hf with rfl | hf
      · exact hlt
      · exact hlt.trans (hfirst f hf)
    split
    next heq =>
      subst heq
      exact Ascending.cons_iff.2 ⟨hfirst, hrest⟩
    next hlt hne =>
      refine Ascending.cons_iff.2 ⟨?_, ih hrest⟩
      intro f hf
      rcases mem_insert hf with rfl | hf
      · exact lt_of_le_of_ne (not_lt.1 hlt) fun heq => hne heq.symm
      · exact hfirst f hf

theorem ascending_ofList (pairs : List (String × Json)) : Ascending (ofList pairs) := by
  have hfold : ∀ fields : Fields, Ascending fields →
      Ascending (pairs.foldl (fun fields f => fields.insert f.1 f.2) fields) := by
    induction pairs with
    | nil => exact fun fields h => h
    | cons f pairs ih => exact fun fields h => ih _ (h.insert f.1 f.2)
  exact hfold [] List.Pairwise.nil

theorem Ascending.filterKeys (h : Ascending fields) (p : String → Bool) : Ascending (fields.filterKeys p) :=
  List.Pairwise.filter _ h

theorem Ascending.nodup (h : Ascending fields) : (fields.map (·.1)).Nodup := by
  rw [List.nodup_iff_pairwise_ne, List.pairwise_map]
  exact h.imp fun hlt => ne_of_lt hlt

/-! ## What is held -/

theorem get?_eq_none (h : ∀ f ∈ fields, f.1 ≠ key) : fields.get? key = none := by
  simp only [get?, Option.map_eq_none_iff, List.find?_eq_none]
  exact fun f hf => by simpa using h f hf

theorem mem_of_get? {v : Json} (h : fields.get? key = some v) : (key, v) ∈ fields := by
  obtain ⟨f, hf, rfl⟩ := Option.map_eq_some_iff.1 h
  obtain rfl : f.1 = key := by simpa using List.find?_some hf
  exact List.mem_of_find?_eq_some hf

theorem lastOf_eq_none {pairs : List (String × Json)} (h : ∀ f ∈ pairs, f.1 ≠ key) : lastOf pairs key = none := by
  induction pairs with
  | nil => rfl
  | cons f pairs ih =>
    rw [lastOf_cons_other (h f List.mem_cons_self)]
    exact ih fun g hg => h g (List.mem_cons_of_mem _ hg)

theorem Ascending.lastOf_eq (h : Ascending fields) (key : String) : lastOf fields key = fields.get? key := by
  induction fields with
  | nil => rfl
  | cons f fields ih =>
    obtain ⟨k, v⟩ := f
    obtain ⟨hfirst, hrest⟩ := Ascending.cons_iff.1 h
    rw [lastOf, get?_cons, ih hrest]
    split
    next heq =>
      subst heq
      rw [get?_eq_none fun f hf => (ne_of_lt (hfirst f hf)).symm]
      rfl
    next => rw [Option.or_none]

theorem filterKeys_cons (p : String → Bool) (k : String) (v : Json) (fields : Fields) :
    filterKeys p ((k, v) :: fields) = if p k then (k, v) :: filterKeys p fields else filterKeys p fields :=
  List.filter_cons

theorem get?_filterKeys (p : String → Bool) (fields : Fields) (key : String) :
    (fields.filterKeys p).get? key = if p key then fields.get? key else none := by
  induction fields with
  | nil => exact (ite_self none).symm
  | cons f fields ih =>
    obtain ⟨k, v⟩ := f
    rw [filterKeys_cons, get?_cons]
    by_cases hkey : k = key
    · subst hkey
      rw [if_pos rfl]
      split
      next => rw [get?_cons, if_pos rfl]
      next hk => rw [ih, if_neg hk]
    · rw [if_neg hkey]
      split
      next => rw [get?_cons, if_neg hkey, ih]
      next => exact ih

theorem Ascending.ext {fields' : Fields} (h : Ascending fields) (h' : Ascending fields')
    (hget : ∀ key, fields.get? key = fields'.get? key) : fields = fields' := by
  induction fields generalizing fields' with
  | nil =>
    cases fields' with
    | nil => rfl
    | cons f fields' =>
      have hfalse := hget f.1
      rw [get?_cons, if_pos rfl] at hfalse
      cases hfalse
  | cons f fields ih =>
    cases fields' with
    | nil =>
      have hfalse := hget f.1
      rw [get?_cons, if_pos rfl] at hfalse
      cases hfalse
    | cons f' fields' =>
      obtain ⟨k, v⟩ := f
      obtain ⟨k', v'⟩ := f'
      obtain ⟨hfirst, hrest⟩ := Ascending.cons_iff.1 h
      obtain ⟨hfirst', hrest'⟩ := Ascending.cons_iff.1 h'
      -- The least key of each is held by the other, so it is no less.
      have hle : ∀ {k k' : String} {v v' : Json} {rest rest' : Fields}, (∀ f ∈ rest', k' < f.1) →
          (∀ key, get? ((k, v) :: rest) key = get? ((k', v') :: rest') key) → k' ≤ k := by
        intro k k' v v' rest rest' hfirst' hget
        have hk := hget k
        rw [get?_cons, if_pos rfl] at hk
        rcases List.mem_cons.1 (mem_of_get? hk.symm) with heq | hmem
        · exact le_of_eq (congrArg Prod.fst heq).symm
        · exact le_of_lt (hfirst' _ hmem)
      obtain rfl : k = k' := le_antisymm (hle hfirst fun key => (hget key).symm) (hle hfirst' hget)
      have hv := hget k
      rw [get?_cons, get?_cons, if_pos rfl, if_pos rfl] at hv
      obtain rfl := Option.some.inj hv
      refine congrArg _ (ih hrest hrest' fun key => ?_)
      by_cases hkey : k = key
      · subst hkey
        rw [get?_eq_none fun f hf => (ne_of_lt (hfirst f hf)).symm,
          get?_eq_none fun f hf => (ne_of_lt (hfirst' f hf)).symm]
      · have hother := hget key
        rwa [get?_cons, get?_cons, if_neg hkey, if_neg hkey] at hother

end ReplyStream.Json.Fields
