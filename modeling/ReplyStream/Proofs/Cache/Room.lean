/-
Making room in a cache. When there are too many entries the stale ones are
dropped, and then one after the other that has gone unused for longest. Of
entries that have gone unused for equally long any may be the one
(`Cache.MakesRoom`); a cache that takes the first makes room so
(`Cache.insert_makesRoom`).

Whichever they are, none that is dropped has been used later than one that is
kept (`Cache.Trims.used_le`), and as many are kept as there is room for
(`Cache.Trims.length_eq`).
-/
import ReplyStream.Proofs.Cache.Entries

namespace ReplyStream.Cache

variable {limit now : Nat} {t t' : Table Entry} {entry other : String × Entry}

/-- Entries are dropped until no more than `limit` are left, always one that
no other has gone unused for longer than. -/
inductive Trims (limit : Nat) : Table Entry → Table Entry → Prop where
  | done {t : Table Entry} (h : t.length ≤ limit) : Trims limit t t
  | drop {t t' : Table Entry} {entry : String × Entry} (h : limit < t.length) (hmem : entry ∈ t)
      (hleast : ∀ other ∈ t, entry.2.usedAt ≤ other.2.usedAt) (rest : Trims limit (t.erase entry.1) t') :
      Trims limit t t'

/-- Room is made for the entries `t`, if they are too many, which leaves `t'`. -/
inductive MakesRoom (c : Cache) (now : Nat) (t : Table Entry) : Table Entry → Prop where
  | enough (h : t.length ≤ c.maxEntries) : MakesRoom c now t t
  | trimmed {t' : Table Entry} (h : c.maxEntries < t.length)
      (htrims : Trims c.maxEntries (t.filter fun entry => c.isFresh now entry.2) t') : MakesRoom c now t t'

/-! ## Dropping those that have gone unused for longest -/

theorem Trims.subset (h : Trims limit t t') : t' ⊆ t := by
  induction h with
  | done => exact List.Subset.refl _
  | drop _ _ _ _ ih => exact List.Subset.trans ih (List.filter_subset_self _)

theorem Trims.nodup (h : Trims limit t t') (hkeys : t.keys.Nodup) : t'.keys.Nodup := by
  induction h with
  | done => exact hkeys
  | drop _ _ _ _ ih => exact ih (Table.nodup_keys_filter hkeys _)

theorem Trims.length_eq (h : Trims limit t t') (hkeys : t.keys.Nodup) : t'.length = min limit t.length := by
  induction h with
  | done h => exact (Nat.min_eq_right h).symm
  | drop h hmem _ _ ih =>
    have hlen := Table.length_erase hkeys hmem
    rw [ih (Table.nodup_keys_filter hkeys _)]
    omega

theorem Trims.used_le (h : Trims limit t t') (hkeys : t.keys.Nodup) (hentry : entry ∈ t)
    (hgone : entry.1 ∉ t'.keys) : ∀ other ∈ t', entry.2.usedAt ≤ other.2.usedAt := by
  induction h with
  | done => exact absurd (List.mem_map_of_mem hentry) hgone
  | @drop t t' least _ hmem hleast rest ih =>
    by_cases hkey : entry.1 = least.1
    · obtain rfl := Table.eq_of_mem_of_key hkeys hentry hmem hkey
      exact fun other hother => hleast other (List.filter_subset_self _ (rest.subset hother))
    · exact ih (Table.nodup_keys_filter hkeys _) (List.mem_filter.2 ⟨hentry, by simpa using hkey⟩) hgone

/-- The first of those that have gone unused for longest is one of them. -/
theorem leastUsed_spec (t : Table Entry) :
    t = [] ∧ leastUsed t = none ∨
      ∃ entry ∈ t, leastUsed t = some entry ∧ ∀ other ∈ t, entry.2.usedAt ≤ other.2.usedAt := by
  induction t with
  | nil => exact .inl ⟨rfl, rfl⟩
  | cons e t ih =>
    right
    rw [leastUsed]
    rcases ih with ⟨rfl, hnone⟩ | ⟨least, hmem, hsome, hleast⟩
    · rw [hnone]
      exact ⟨e, List.mem_cons_self, rfl, by simp⟩
    · rw [hsome]
      by_cases hless : least.2.usedAt < e.2.usedAt
      · refine ⟨least, List.mem_cons_of_mem e hmem, if_pos hless, fun other hother => ?_⟩
        rcases List.mem_cons.1 hother with rfl | hother
        · exact Nat.le_of_lt hless
        · exact hleast other hother
      · refine ⟨e, List.mem_cons_self, if_neg hless, fun other hother => ?_⟩
        rcases List.mem_cons.1 hother with rfl | hother
        · exact Nat.le_refl _
        · exact Nat.le_trans (Nat.le_of_not_lt hless) (hleast other hother)

theorem evict_trims (hkeys : t.keys.Nodup) (limit : Nat) : Trims limit t (evict (t.length - limit) t) := by
  generalize hcount : t.length - limit = count
  induction count generalizing t with
  | zero => exact .done (by omega)
  | succ count ih =>
    rcases leastUsed_spec t with ⟨rfl, -⟩ | ⟨least, hmem, hsome, hleast⟩
    · rw [List.length_nil] at hcount
      omega
    · have hlen := Table.length_erase hkeys hmem
      rw [evict, hsome]
      exact .drop (by omega) hmem hleast (ih (Table.nodup_keys_filter hkeys _) (by omega))

/-! ## Making room -/

variable {c : Cache}

theorem MakesRoom.subset (h : c.MakesRoom now t t') : t' ⊆ t := by
  cases h with
  | enough => exact List.Subset.refl _
  | trimmed _ htrims => exact List.Subset.trans htrims.subset (List.filter_subset_self _)

theorem MakesRoom.eq_of_length_le (h : c.MakesRoom now t t') (hfew : t.length ≤ c.maxEntries) : t' = t := by
  cases h with
  | enough => rfl
  | trimmed hmany => omega

theorem MakesRoom.nodup (h : c.MakesRoom now t t') (hkeys : t.keys.Nodup) : t'.keys.Nodup := by
  cases h with
  | enough => exact hkeys
  | trimmed _ htrims => exact htrims.nodup (Table.nodup_keys_filter hkeys _)

theorem MakesRoom.length_le (h : c.MakesRoom now t t') (hkeys : t.keys.Nodup) : t'.length ≤ c.maxEntries := by
  cases h with
  | enough h => exact h
  | trimmed _ htrims =>
    rw [htrims.length_eq (Table.nodup_keys_filter hkeys _)]
    exact Nat.min_le_left _ _

/-- A fresh entry is dropped only where there are too many. No stale one is
kept then, as many are kept as there is room for, and none of them was used
earlier than the one that is dropped. -/
theorem MakesRoom.dropped (h : c.MakesRoom now t t') (hkeys : t.keys.Nodup) (hentry : entry ∈ t)
    (hfresh : c.isFresh now entry.2 = true) (hgone : entry.1 ∉ t'.keys) :
    c.maxEntries < t.length ∧ (∀ other ∈ t', c.isFresh now other.2 = true) ∧ t'.length = c.maxEntries ∧
      ∀ other ∈ t', entry.2.usedAt ≤ other.2.usedAt := by
  cases h with
  | enough => exact absurd (List.mem_map_of_mem hentry) hgone
  | trimmed hmany htrims =>
    have hkeys' := Table.nodup_keys_filter hkeys fun entry => c.isFresh now entry.2
    have hentry' : entry ∈ t.filter fun entry => c.isFresh now entry.2 := List.mem_filter.2 ⟨hentry, hfresh⟩
    have hlen := htrims.length_eq hkeys'
    have hmore : c.maxEntries < (t.filter fun entry => c.isFresh now entry.2).length := by
      by_contra hfew
      have hnone : t' = t.filter fun entry => c.isFresh now entry.2 := by
        cases htrims with
        | done => rfl
        | drop hlt => omega
      rw [hnone] at hgone
      exact hgone (List.mem_map_of_mem hentry')
    refine ⟨hmany, fun other hother => ?_, by omega, htrims.used_le hkeys' hentry' hgone⟩
    exact (List.mem_filter.1 (htrims.subset hother)).2

theorem insert_makesRoom (hkeys : c.entries.keys.Nodup) (now : Nat) (url text : String) :
    c.MakesRoom now (c.entries.put url ⟨text, now, now⟩) (c.insert now url text).entries := by
  unfold insert
  dsimp only
  split
  next h => exact .enough h
  next h =>
    have hkeys' := Table.nodup_keys_filter (Table.nodup_keys_put hkeys url ⟨text, now, now⟩)
      fun entry => c.isFresh now entry.2
    exact .trimmed (by omega) (evict_trims hkeys' _)

end ReplyStream.Cache
