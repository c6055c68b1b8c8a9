/-
What tables hold. A table has each key once, however often it was set
(`nodup_keys_put`); a part of it can be looked at alone (`restrict_put`), and
its values are those of its keys, in any order of the keys (`values_perm`).
-/
import Mathlib.Data.List.Perm.Basic
import ReplyStream.Table

namespace ReplyStream

namespace Table

variable {α : Type}

/-- The part of a table whose keys satisfy `q`. -/
def restrict (q : String → Bool) (t : Table α) : Table α := t.filter (q ·.1)

theorem get?_restrict {q : String → Bool} {key : String} (h : q key = true) (t : Table α) :
    (t.restrict q).get? key = t.get? key := by
  induction t with
  | nil => rfl
  | cons e t ih =>
    obtain ⟨k, a⟩ := e
    by_cases hk : q k = true
    · have hcons : restrict q ((k, a) :: t) = (k, a) :: restrict q t := List.filter_cons_of_pos hk
      rw [hcons, get?_cons, get?_cons, ih]
    · have hcons : restrict q ((k, a) :: t) = restrict q t := List.filter_cons_of_neg hk
      have hne : k ≠ key := fun heq => hk (heq ▸ h)
      rw [hcons, get?_cons, ih, if_neg hne]

theorem restrict_put (q : String → Bool) (t : Table α) (key : String) (a : α) :
    (t.put key a).restrict q = if q key = true then (t.restrict q).put key a else t.restrict q := by
  induction t with
  | nil => by_cases h : q key <;> simp [put, restrict, h]
  | cons e t ih =>
    obtain ⟨k, b⟩ := e
    by_cases hkey : k = key
    · subst hkey
      by_cases h : q k <;> simp [put, restrict, h]
    · have hcons : ∀ t, restrict q ((k, b) :: t) = if q k = true then (k, b) :: restrict q t else restrict q t :=
        fun t => List.filter_cons
      simp only [put, hkey, if_false, hcons, ih]
      by_cases h : q key <;> by_cases h' : q k <;> simp [h, h', put, hkey]

/-- The keys of a table. -/
def keys (t : Table α) : List String := t.map (·.1)

theorem mem_keys_put {t : Table α} {key other : String} {a : α} :
    other ∈ (t.put key a).keys ↔ other = key ∨ other ∈ t.keys := by
  induction t with
  | nil => simp [put, keys]
  | cons e t ih =>
    obtain ⟨k, b⟩ := e
    unfold put
    split
    next h => subst h; simp [keys]
    next h =>
      simp only [keys, List.map_cons, List.mem_cons] at ih ⊢
      rw [ih]
      constructor
      · rintro (rfl | rfl | h) <;> simp_all
      · rintro (rfl | rfl | h) <;> simp_all

theorem mem_put {t : Table α} {key : String} {a : α} {entry : String × α} (h : entry ∈ t.put key a) :
    entry = (key, a) ∨ entry ∈ t := by
  induction t with
  | nil => exact .inl (List.mem_singleton.1 h)
  | cons e t ih =>
    unfold put at h
    split at h
    · rcases List.mem_cons.1 h with rfl | h
      · exact .inl rfl
      · exact .inr (List.mem_cons_of_mem e h)
    · rcases List.mem_cons.1 h with rfl | h
      · exact .inr List.mem_cons_self
      · exact (ih h).imp_right (List.mem_cons_of_mem e)

/-- A new key comes last. -/
theorem keys_put (t : Table α) (key : String) (a : α) :
    (t.put key a).keys = if key ∈ t.keys then t.keys else t.keys ++ [key] := by
  induction t with
  | nil => rfl
  | cons e t ih =>
    obtain ⟨k, b⟩ := e
    by_cases hkey : k = key
    · subst hkey
      rw [put, if_pos rfl, if_pos (show k ∈ keys ((k, b) :: t) from List.mem_cons_self)]
      rfl
    · have hcons : keys ((k, b) :: t) = k :: keys t := rfl
      have hmem : key ∈ k :: keys t ↔ key ∈ keys t := by simp [Ne.symm hkey]
      rw [put, if_neg hkey, hcons, if_congr hmem rfl rfl]
      show k :: keys (put t key a) = _
      rw [ih]
      split <;> rfl

theorem nodup_keys_put {t : Table α} (h : t.keys.Nodup) (key : String) (a : α) : (t.put key a).keys.Nodup := by
  induction t with
  | nil => simp [put, keys]
  | cons e t ih =>
    obtain ⟨k, b⟩ := e
    obtain ⟨hk, ht⟩ := List.nodup_cons.1 h
    unfold put
    split
    next heq => subst heq; exact h
    next hne =>
      refine List.nodup_cons.2 ⟨fun hmem => ?_, ih ht⟩
      rcases mem_keys_put.1 hmem with rfl | hmem
      · exact hne rfl
      · exact hk hmem

theorem get?_isSome {t : Table α} {key : String} : (t.get? key).isSome ↔ key ∈ t.keys := by
  induction t with
  | nil => simp [keys]
  | cons e t ih =>
    obtain ⟨k, a⟩ := e
    rw [get?_cons]
    by_cases h : k = key
    · simp [keys, h]
    · rw [if_neg h, ih]
      simp [keys, Ne.symm h]

/-- The values of a table, in the order of its keys. -/
theorem values_eq {t : Table α} (h : t.keys.Nodup) : t.map (·.2) = t.keys.filterMap t.get? := by
  induction t with
  | nil => rfl
  | cons e t ih =>
    obtain ⟨k, a⟩ := e
    obtain ⟨hk, ht⟩ := List.nodup_cons.1 h
    have hrest : (keys t).filterMap (get? ((k, a) :: t)) = (keys t).filterMap (get? t) := by
      apply List.filterMap_congr
      intro key hkey
      have hne : k ≠ key := fun heq => hk (heq ▸ hkey)
      rw [get?_cons, if_neg hne]
    have hself : get? ((k, a) :: t) k = some a := by rw [get?_cons, if_pos rfl]
    show a :: t.map (·.2) = (k :: keys t).filterMap _
    rw [List.filterMap_cons_some hself, hrest, ih ht]

/-- The values of a table, in any order of its keys. -/
theorem values_perm {t : Table α} {ids : List String} (ht : t.keys.Nodup) (hids : ids.Nodup)
    (h : ∀ id, id ∈ t.keys ↔ id ∈ ids) : (t.map (·.2)).Perm (ids.filterMap t.get?) := by
  rw [values_eq ht]
  exact ((List.perm_ext_iff_of_nodup ht hids).2 h).filterMap _

/-- Tables that give the same at every key have the same values. -/
theorem values_perm_of_get? {t u : Table α} (ht : t.keys.Nodup) (hu : u.keys.Nodup)
    (h : ∀ key, t.get? key = u.get? key) : (t.map (·.2)).Perm (u.map (·.2)) := by
  have hkeys : ∀ key, key ∈ t.keys ↔ key ∈ u.keys := fun key => by rw [← get?_isSome, ← get?_isSome, h]
  have hget : t.get? = u.get? := funext h
  rw [values_eq hu, ← hget]
  exact values_perm ht hu hkeys

theorem mem_of_get? {t : Table α} {key : String} {a : α} (h : t.get? key = some a) : (key, a) ∈ t := by
  obtain ⟨entry, hentry, rfl⟩ := Option.map_eq_some_iff.1 h
  have hkey : entry.1 = key := by simpa using List.find?_some hentry
  rw [← hkey]
  exact List.mem_of_find?_eq_some hentry

theorem get?_of_mem {t : Table α} (h : t.keys.Nodup) {entry : String × α} (hentry : entry ∈ t) :
    t.get? entry.1 = some entry.2 := by
  induction t with
  | nil => cases hentry
  | cons e t ih =>
    obtain ⟨k, a⟩ := e
    obtain ⟨hk, ht⟩ := List.nodup_cons.1 h
    rw [get?_cons]
    rcases List.mem_cons.1 hentry with rfl | hentry
    · rw [if_pos rfl]
    · have hne : k ≠ entry.1 := fun heq => hk (heq ▸ List.mem_map_of_mem (f := (·.1)) hentry)
      rw [if_neg hne]
      exact ih ht hentry

theorem length_erase_lt {t : Table α} {key : String} {a : α} (h : t.get? key = some a) :
    (t.erase key).length < t.length :=
  List.length_filter_lt_length_iff_exists.2 ⟨(key, a), mem_of_get? h, by simp⟩

theorem get?_eq_none {t : Table α} {key : String} : t.get? key = none ↔ key ∉ t.keys := by
  rw [← get?_isSome, Option.not_isSome_iff_eq_none]

theorem get?_erase_self (t : Table α) (key : String) : (t.erase key).get? key = none := by
  refine get?_eq_none.2 fun hkey => ?_
  obtain ⟨entry, hentry, hid⟩ := List.mem_map.1 hkey
  have hne : entry.1 ≠ key := by simpa using (List.mem_filter.1 hentry).2
  exact hne hid

theorem get?_eq_none_of_sublist {t t' : Table α} (h : t'.Sublist t) {key : String} (hnone : t.get? key = none) :
    t'.get? key = none := by
  have hkeys : t'.keys.Sublist t.keys := h.map _
  exact get?_eq_none.2 fun hkey => get?_eq_none.1 hnone (hkeys.mem hkey)

theorem erase_eq_self {t : Table α} {key : String} (h : key ∉ t.keys) : t.erase key = t := by
  refine List.filter_eq_self.2 fun entry hentry => ?_
  have hne : entry.1 ≠ key := fun heq => h (heq ▸ List.mem_map_of_mem hentry)
  simpa using hne

/-- A table with a key set is what it is without the key, and the new entry. -/
theorem put_perm {t : Table α} (h : t.keys.Nodup) (key : String) (a : α) :
    (t.put key a).Perm ((key, a) :: t.erase key) := by
  induction t with
  | nil => exact .refl _
  | cons e t ih =>
    obtain ⟨k, b⟩ := e
    obtain ⟨hk, ht⟩ := List.nodup_cons.1 h
    by_cases hkey : k = key
    · subst hkey
      have herase : erase ((k, b) :: t) k = erase t k := List.filter_cons_of_neg (by simp)
      rw [put, if_pos rfl, herase, erase_eq_self hk]
    · have herase : erase ((k, b) :: t) key = (k, b) :: erase t key := List.filter_cons_of_pos (by simp [hkey])
      rw [put, if_neg hkey, herase]
      exact ((ih ht).cons _).trans (.swap _ _ _)

/-- A table is what it is without a key, and the entry at the key. -/
theorem perm_of_get? {t : Table α} (h : t.keys.Nodup) {key : String} {a : α} (ha : t.get? key = some a) :
    t.Perm ((key, a) :: t.erase key) := by
  induction t with
  | nil => cases ha
  | cons e t ih =>
    obtain ⟨k, b⟩ := e
    obtain ⟨hk, ht⟩ := List.nodup_cons.1 h
    rw [get?_cons] at ha
    by_cases hkey : k = key
    · subst hkey
      rw [if_pos rfl] at ha
      cases ha
      have herase : erase ((k, a) :: t) k = erase t k := List.filter_cons_of_neg (by simp)
      rw [herase, erase_eq_self hk]
    · rw [if_neg hkey] at ha
      have herase : erase ((k, b) :: t) key = (k, b) :: erase t key := List.filter_cons_of_pos (by simp [hkey])
      rw [herase]
      exact ((ih ht ha).cons _).trans (.swap _ _ _)

/-! ### Entries by their keys -/

variable {t : Table α} {entry other : String × α} {key : String}

theorem nodup_keys_filter (h : t.keys.Nodup) (q : String × α → Bool) : (keys (t.filter q)).Nodup :=
  (List.filter_sublist.map _).nodup h

/-- With distinct keys, an entry is told by its key. -/
theorem eq_of_mem_of_key (h : t.keys.Nodup) (hentry : entry ∈ t) (hother : other ∈ t) (hkey : entry.1 = other.1) :
    entry = other := by
  have hget := get?_of_mem h hentry
  rw [hkey, get?_of_mem h hother] at hget
  exact Prod.ext hkey (Option.some.inj hget).symm

theorem length_erase (h : t.keys.Nodup) (hentry : entry ∈ t) : (t.erase entry.1).length + 1 = t.length :=
  (perm_of_get? h (get?_of_mem h hentry)).length_eq.symm

theorem mem_put_of_ne {a : α} (h : entry ∈ t) (hne : entry.1 ≠ key) : entry ∈ t.put key a := by
  induction t with
  | nil => cases h
  | cons e t ih =>
    obtain ⟨k, b⟩ := e
    unfold put
    split
    next heq =>
      rcases List.mem_cons.1 h with rfl | h
      · exact absurd heq hne
      · exact List.mem_cons_of_mem _ h
    next =>
      rcases List.mem_cons.1 h with rfl | h
      · exact List.mem_cons_self
      · exact List.mem_cons_of_mem _ (ih h)

/-- What is in a table when a key was set: the new entry, or one of another key. -/
theorem mem_put_cases {a : α} (h : t.keys.Nodup) (hentry : entry ∈ t.put key a) :
    entry = (key, a) ∨ entry.1 ≠ key ∧ entry ∈ t := by
  by_cases hkey : entry.1 = key
  · have hget := get?_of_mem (nodup_keys_put h key a) hentry
    rw [hkey, get?_put_self] at hget
    exact .inl (Prod.ext hkey (Option.some.inj hget).symm)
  · rcases mem_put hentry with rfl | hmem
    · exact absurd rfl hkey
    · exact .inr ⟨hkey, hmem⟩

theorem length_put (h : key ∈ t.keys) (a : α) : (t.put key a).length = t.length := by
  have hkeys := congrArg List.length (keys_put t key a)
  rwa [if_pos h, keys, keys, List.length_map, List.length_map] at hkeys

end Table

end ReplyStream
