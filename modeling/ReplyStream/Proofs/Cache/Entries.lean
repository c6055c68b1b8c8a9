/-
What a call does to the entries of a cache. A look-up that finds nothing may
drop a stale entry of the URL asked for and nothing else (`Cache.Spares`);
a store leaves nothing that was not there or has just been stored
(`Cache.insert_subset`).
-/
import ReplyStream.Cache
import ReplyStream.Proofs.Table

namespace ReplyStream.Cache

/-- The entries are those of the cache, or those without a stale one at
`url`. -/
def Spares (c : Cache) (now : Nat) (url : String) (entries : Table Entry) : Prop :=
  entries = c.entries ∨
    ∃ e, c.entries.get? url = some e ∧ c.isFresh now e = false ∧ entries = c.entries.erase url

variable {c : Cache} {now : Nat} {url : String}

theorem Spares.sublist {entries : Table Entry} (h : c.Spares now url entries) : entries.Sublist c.entries := by
  rcases h with rfl | ⟨_, _, _, rfl⟩
  · exact List.Sublist.refl _
  · exact List.filter_sublist

theorem Spares.subset {entries : Table Entry} (h : c.Spares now url entries) : entries ⊆ c.entries := h.sublist.subset

/-- What asking for a file comes to: it is refused, served, or to be
downloaded. -/
theorem ask_cases (c : Cache) (now : Nat) (file : AttachedFile) :
    (file.isText = false ∧
      c.ask now file = (c, .settled (.error (.unsupportedAttachment file.url file.contentType)))) ∨
    (file.isText = true ∧ ∃ e, c.entries.get? file.url = some e ∧ c.isFresh now e = true ∧
      c.ask now file =
        ({ c with entries := c.entries.put file.url { e with usedAt := now }, tally.hits := c.tally.hits + 1 },
          .settled (.ok e.text))) ∨
    (file.isText = true ∧ ∃ entries, c.Spares now file.url entries ∧
      c.ask now file = ({ c with entries, tally.misses := c.tally.misses + 1 }, .download)) := by
  unfold ask lookup
  cases htext : file.isText with
  | false => exact .inl ⟨rfl, rfl⟩
  | true =>
    right
    cases hget : c.entries.get? file.url with
    | none => exact .inr ⟨rfl, c.entries, .inl rfl, rfl⟩
    | some e =>
      cases hfresh : c.isFresh now e with
      | true => exact .inl ⟨rfl, e, rfl, hfresh, by simp [hfresh]⟩
      | false => exact .inr ⟨rfl, c.entries.erase file.url, .inr ⟨e, hget, hfresh, rfl⟩, by simp [hfresh]⟩

theorem evict_subset (count : Nat) (entries : Table Entry) : evict count entries ⊆ entries := by
  induction count generalizing entries with
  | zero => exact List.Subset.refl _
  | succ count ih =>
    unfold evict
    split
    · exact List.Subset.refl _
    · exact List.Subset.trans (ih _) (List.filter_subset_self _)

theorem insert_subset (c : Cache) (now : Nat) (url text : String) :
    (c.insert now url text).entries ⊆ c.entries.put url ⟨text, now, now⟩ := by
  unfold insert
  dsimp only
  split
  · exact List.Subset.refl _
  · exact List.Subset.trans (evict_subset _ _) (List.filter_subset_self _)

theorem insert_eq (c : Cache) (now : Nat) (url text : String) :
    c.insert now url text = { c with entries := (c.insert now url text).entries } := by
  unfold insert
  dsimp only
  split <;> rfl

end ReplyStream.Cache
