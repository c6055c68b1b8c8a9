/-
Orphans: continuations that were folded into no chain. They stand behind the
chains, and which of them comes first is left open (`Stitches`). In order of time
that matters only to orphans of one time (`reordered_of_stitches`): where no two of
them are tied there is but one timeline (`Untied.eq_of_reordered`).
-/
import Mathlib.Data.List.Sort
import ReplyStream.Proofs.Timeline.Parallel
import ReplyStream.Proofs.Timeline.Stitch

namespace ReplyStream

/-- Orphans of one time. -/
def Event.Tied (e f : Event) : Prop :=
  e.timestamp = f.timestamp ∧ e.content.continuationOf.isSome ∧ f.content.continuationOf.isSome

namespace Timeline

/-- The events that continue nothing, each with what it absorbs, and the
continuations that are left. -/
def completed (events : List Event) : List Event × Table Event :=
  complete (continuations events) (events.filter fun e => e.content.continuationOf.isNone)

/-- What stitching may make of events. -/
inductive Stitches (events : List Event) : List Event → Prop where
  | anyOrder {orphans : List Event} (h : orphans.Perm ((completed events).2.map (·.2))) :
      Stitches events ((completed events).1 ++ orphans)

/-- The same entries at the same places, but for tied orphans, which may have changed theirs. -/
structure Reordered (timeline timeline' : List Event) : Prop where
  perm : timeline.Perm timeline'
  inPlace : List.Forall₂ (fun e f => e = f ∨ e.Tied f) timeline timeline'

/-- No two orphans have the same time. -/
def Untied (timeline : List Event) : Prop :=
  ((timeline.filter (·.content.continuationOf.isSome)).map (·.timestamp)).Nodup

variable {events events' stitched stitched' timeline timeline' : List Event} {R : Event → Event → Prop}

theorem stitches_stitch (events : List Event) : Stitches events (stitch events) := .anyOrder (.refl _)

theorem isSome_of_mem_completed {e : Event} (h : e ∈ (completed events).2.map (·.2)) :
    e.content.continuationOf.isSome := by
  obtain ⟨entry, hentry, rfl⟩ := List.mem_map.1 h
  rw [(mem_continuations ((complete_sublist _ _).mem hentry)).2]
  rfl

theorem forall₂_completed (hR : Carried R) (h : List.Forall₂ R events events') :
    List.Forall₂ R (completed events).1 (completed events').1 ∧
      Table.Alike R (completed events).2 (completed events').2 := by
  refine alike_complete hR (alike_continuations hR h) (List.rel_filter (fun e e' he => ?_) h)
  obtain ⟨data, hsame⟩ := hR.filled he
  rw [hsame]

/-- Related events may be stitched to related entries, in whatever order the orphans of either come. -/
theorem Stitches.exists_right (hR : Carried R) (hevents : List.Forall₂ R events events')
    (h : Stitches events stitched) : ∃ stitched', Stitches events' stitched' ∧ List.Forall₂ R stitched stitched' := by
  cases h with
  | @anyOrder orphans h =>
    obtain ⟨hentries, hleft⟩ := forall₂_completed hR hevents
    obtain ⟨orphans', horphans, hperm⟩ := List.perm_comp_forall₂ h hleft.values
    exact ⟨_, .anyOrder hperm, List.rel_append hentries horphans⟩

theorem Stitches.exists_left (hR : Carried R) (hevents : List.Forall₂ R events events')
    (h : Stitches events' stitched') : ∃ stitched, Stitches events stitched ∧ List.Forall₂ R stitched stitched' := by
  cases h with
  | @anyOrder orphans' h =>
    obtain ⟨hentries, hleft⟩ := forall₂_completed hR hevents
    obtain ⟨orphans, horphans, hperm⟩ := List.perm_comp_forall₂ h hleft.values.flip
    exact ⟨_, .anyOrder hperm, List.rel_append hentries horphans.flip⟩

/-! ## Order of time -/

theorem orderedInsert_between {e : Event} {before behind : List Event}
    (hbefore : ∀ f ∈ before, ¬ e.timestamp ≤ f.timestamp) (hbehind : ∀ f ∈ behind, e.timestamp ≤ f.timestamp) :
    (before ++ behind).orderedInsert (fun a b => a.timestamp ≤ b.timestamp) e = before ++ e :: behind := by
  induction before with
  | nil =>
    cases behind with
    | nil => rfl
    | cons f behind => exact if_pos (hbehind f List.mem_cons_self)
  | cons f before ih =>
    rw [List.cons_append, List.orderedInsert_cons, if_neg (hbefore f List.mem_cons_self),
      ih fun g hg => hbefore g (List.mem_cons_of_mem f hg)]
    rfl

/-- In order of time an event comes before those of its time that came behind it. -/
theorem byTime_cons (e : Event) (events : List Event) :
    byTime (e :: events) = (byTime events).orderedInsert (fun a b => a.timestamp ≤ b.timestamp) e := by
  obtain ⟨before, behind, hcons, hevents, hbefore⟩ := List.mergeSort_cons earlier_trans earlier_total e events
  have hsorted := pairwise_byTime (e :: events)
  rw [show byTime (e :: events) = before ++ e :: behind from hcons] at hsorted ⊢
  rw [show byTime events = before ++ behind from hevents]
  refine (orderedInsert_between (fun f hf => ?_) fun f hf => ?_).symm
  · simpa using hbefore f hf
  · exact (List.pairwise_cons.1 (List.pairwise_append.1 hsorted).2.1).1 f hf

theorem forall₂_orderedInsert (htime : ∀ {e f : Event}, R e f → e.timestamp = f.timestamp) {e : Event} (he : R e e)
    (h : List.Forall₂ R timeline timeline') :
    List.Forall₂ R (timeline.orderedInsert (fun a b => a.timestamp ≤ b.timestamp) e)
      (timeline'.orderedInsert (fun a b => a.timestamp ≤ b.timestamp) e) := by
  induction h with
  | nil => exact .cons he .nil
  | @cons f g timeline timeline' hfg hrest ih =>
    rw [List.orderedInsert_cons, List.orderedInsert_cons, htime hfg]
    split
    · exact .cons he (.cons hfg hrest)
    · exact .cons hfg ih

/-- What comes in two orders has, once sorted, the same times at the same places. -/
theorem map_timestamp_byTime (h : events.Perm events') :
    (byTime events).map (·.timestamp) = (byTime events').map (·.timestamp) := by
  have hperm : (byTime events).Perm (byTime events') :=
    (List.mergeSort_perm _ _).trans (h.trans (List.mergeSort_perm _ _).symm)
  refine (hperm.map _).eq_of_pairwise (fun _ _ _ _ => Nat.le_antisymm) ?_ ?_
  · exact List.pairwise_map.2 (pairwise_byTime events)
  · exact List.pairwise_map.2 (pairwise_byTime events')

theorem forall₂_tied {orphans orphans' : List Event} (horphans : ∀ e ∈ orphans, e.content.continuationOf.isSome)
    (h : orphans.Perm orphans') : List.Forall₂ Event.Tied (byTime orphans) (byTime orphans') := by
  have htimes := map_timestamp_byTime h
  have hsome : ∀ e ∈ byTime orphans, e.content.continuationOf.isSome := fun e he => horphans e (mem_byTime.1 he)
  have hsome' : ∀ e ∈ byTime orphans', e.content.continuationOf.isSome := fun e he =>
    horphans e (h.mem_iff.2 (mem_byTime.1 he))
  generalize byTime orphans = l, byTime orphans' = l' at htimes hsome hsome'
  induction l generalizing l' with
  | nil =>
    obtain rfl := List.map_eq_nil_iff.1 htimes.symm
    exact .nil
  | cons e l ih =>
    cases l' with
    | nil => cases htimes
    | cons f l' =>
      obtain ⟨htime, hrest⟩ := List.cons.inj htimes
      rw [List.forall_mem_cons] at hsome hsome'
      exact .cons ⟨htime, hsome.1, hsome'.1⟩ (ih l' hrest hsome.2 hsome'.2)

/-- **Only tied orphans change places** between one order of the orphans and another. -/
theorem reordered_of_stitches (h : Stitches events stitched) (h' : Stitches events stitched') :
    Reordered (byTime stitched) (byTime stitched') := by
  cases h with
  | @anyOrder orphans h =>
  cases h' with
  | @anyOrder orphans' h' =>
    have hperm : orphans.Perm orphans' := h.trans h'.symm
    refine ⟨(List.mergeSort_perm _ _).trans ((hperm.append_left _).trans (List.mergeSort_perm _ _).symm), ?_⟩
    -- each chain is put in front of the same orphans, at the same place whatever their order
    generalize (completed events).1 = entries
    induction entries with
    | nil =>
      have htied := forall₂_tied (fun e he => isSome_of_mem_completed (h.mem_iff.1 he)) hperm
      exact htied.imp fun _ _ => .inr
    | cons e entries ih =>
      rw [List.cons_append, List.cons_append, byTime_cons, byTime_cons]
      refine forall₂_orderedInsert (fun hef => ?_) (.inl rfl) ih
      rcases hef with rfl | ⟨htime, -⟩
      · rfl
      · exact htime

theorem Untied.eq_of_reordered (huntied : Untied timeline) (h : Reordered timeline timeline') : timeline = timeline' := by
  obtain ⟨hperm, hplaces⟩ := h
  obtain ⟨pairs, rfl, rfl, hpairs⟩ := exists_pairs hplaces
  refine List.map_congr_left fun p hp => ?_
  rcases hpairs p hp with heq | ⟨htime, hsome, hsome'⟩
  · exact heq
  · have hfirst : p.1 ∈ pairs.map (·.1) := List.mem_map_of_mem hp
    have hsecond : p.2 ∈ pairs.map (·.1) := hperm.mem_iff.2 (List.mem_map_of_mem hp)
    exact List.inj_on_of_nodup_map huntied (List.mem_filter.2 ⟨hfirst, hsome⟩) (List.mem_filter.2 ⟨hsecond, hsome'⟩) htime

theorem Untied.of_forall₂ (h : Untied timeline) (hrel : List.Forall₂ R timeline timeline')
    (hsame : ∀ {e f : Event}, R e f → f.timestamp = e.timestamp ∧ f.content.continuationOf = e.content.continuationOf) :
    Untied timeline' := by
  have horphans : List.Forall₂ R (timeline.filter (·.content.continuationOf.isSome))
      (timeline'.filter (·.content.continuationOf.isSome)) := by
    refine List.rel_filter (fun e f hef => ?_) hrel
    show e.content.continuationOf.isSome = true ↔ f.content.continuationOf.isSome = true
    rw [(hsame hef).2]
  have htimes : List.Forall₂ Eq ((timeline.filter (·.content.continuationOf.isSome)).map (·.timestamp))
      ((timeline'.filter (·.content.continuationOf.isSome)).map (·.timestamp)) := by
    rw [List.forall₂_map_left_iff, List.forall₂_map_right_iff]
    exact horphans.imp fun _ _ hef => (hsame hef).1.symm
  rw [List.forall₂_eq_eq_eq] at htimes
  rw [Untied, ← htimes]
  exact h

end Timeline

end ReplyStream
