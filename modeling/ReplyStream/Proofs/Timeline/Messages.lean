/-
The messages of a room: for each event that is no card fragment the newest
version of it, with all it refers to in its place, in order of time
(`messages_of_mapM`).
-/
import ReplyStream.Proofs.Timeline.Embed
import ReplyStream.Proofs.Timeline.Versions

namespace ReplyStream

/-- An event whose references were put in their places. -/
def Event.Filled (e filled : Event) : Prop := ∃ data, filled = { e with content.data := data }

namespace Timeline

/-- The messages of a room: one for each event that is no card fragment, the
newest version of it, with what it refers to in its place; in order of time. -/
structure Messages (versions messages : List Event) : Prop where
  newest : ∃ newest, newest.Perm (survivors versions) ∧ List.Forall₂ Event.Filled newest messages
  inOrder : messages.Pairwise (·.timestamp ≤ ·.timestamp)
  distinct : (messages.map (·.id)).Nodup
  ids : ∀ id, id ∈ messages.map (·.id) ↔ ∃ v ∈ versions, v.isFragment = false ∧ v.effectiveId = id

theorem map_id_survivors (versions : List Event) :
    (survivors versions).map (·.id) = Table.keys ((inPlaces versions).foldl keepNewest []) := by
  show (((inPlaces versions).foldl keepNewest []).map (·.2)).map (·.id) = _
  rw [List.map_map]
  exact List.map_congr_left fun entry hentry => ((newest_inPlaces versions).holds entry hentry).1.symm

theorem ids_survivors (versions : List Event) :
    ((survivors versions).map (·.id)).Nodup ∧ ∀ id,
      id ∈ (survivors versions).map (·.id) ↔ ∃ v ∈ versions, v.isFragment = false ∧ v.effectiveId = id := by
  rw [map_id_survivors]
  refine ⟨(newest_inPlaces versions).nodup, fun id => ?_⟩
  rw [mem_keys_foldl_keepNewest]
  simp [Table.keys, inPlaces, Event.inPlace, and_assoc]

/-- Putting references in place changes neither the messages nor their order. -/
theorem map_eq_of_filled {β : Type} {f : Event → β} (hf : ∀ {e filled : Event}, e.Filled filled → f filled = f e)
    {events filled : List Event} (h : List.Forall₂ Event.Filled events filled) : filled.map f = events.map f := by
  induction h with
  | nil => rfl
  | cons he _ ih => rw [List.map_cons, List.map_cons, hf he, ih]

theorem mem_byTime {events : List Event} {e : Event} : e ∈ byTime events ↔ e ∈ events :=
  (List.mergeSort_perm events _).mem_iff

theorem earlier_trans (a b c : Event) (hab : decide (a.timestamp ≤ b.timestamp) = true)
    (hbc : decide (b.timestamp ≤ c.timestamp) = true) : decide (a.timestamp ≤ c.timestamp) = true := by
  simp only [decide_eq_true_eq] at *
  omega

theorem earlier_total (a b : Event) :
    (decide (a.timestamp ≤ b.timestamp) || decide (b.timestamp ≤ a.timestamp)) = true := by
  simp only [Bool.or_eq_true, decide_eq_true_eq]
  omega

theorem pairwise_byTime (events : List Event) : (byTime events).Pairwise (·.timestamp ≤ ·.timestamp) := by
  have hsorted : (byTime events).Pairwise fun a b => decide (a.timestamp ≤ b.timestamp) = true :=
    List.pairwise_mergeSort earlier_trans earlier_total events
  exact hsorted.imp fun h => of_decide_eq_true h

theorem byTime_of_pairwise {events : List Event} (h : events.Pairwise (·.timestamp ≤ ·.timestamp)) :
    byTime events = events :=
  List.mergeSort_of_pairwise (h.imp fun hle => decide_eq_true hle)

theorem byTime_singleton (e : Event) : byTime [e] = [e] := byTime_of_pairwise (List.pairwise_singleton _ e)

theorem messages_of_mapM {σ : Type} {load : Loader σ} {fragments : Fragments} {s s' : σ}
    {versions messages : List Event}
    (h : ((byTime (survivors versions)).mapM (embed load fragments)).Gives s messages s') :
    Messages versions messages := by
  have hfilled : List.Forall₂ Event.Filled (byTime (survivors versions)) messages :=
    (Loading.forall₂_of_mapM h).imp fun _ _ ⟨_, _, he⟩ => same_of_embed he
  have hsorted : (byTime (survivors versions)).Perm (survivors versions) := List.mergeSort_perm _ _
  have hids : messages.map (·.id) = (byTime (survivors versions)).map (·.id) :=
    map_eq_of_filled (fun ⟨_, h⟩ => by rw [h]) hfilled
  have htimes : messages.map (·.timestamp) = (byTime (survivors versions)).map (·.timestamp) :=
    map_eq_of_filled (fun ⟨_, h⟩ => by rw [h]) hfilled
  obtain ⟨hnodup, hmem⟩ := ids_survivors versions
  refine ⟨⟨_, hsorted, hfilled⟩, ?_, ?_, fun id => ?_⟩
  · rw [← List.pairwise_map (f := fun e : Event => e.timestamp), htimes, List.pairwise_map]
    exact pairwise_byTime _
  · rw [hids]
    exact (hsorted.map _).nodup_iff.2 hnodup
  · rw [hids, (hsorted.map _).mem_iff]
    exact hmem id

theorem Messages.exists_version {versions messages : List Event} (h : Messages versions messages) {m : Event}
    (hm : m ∈ messages) : ∃ v ∈ versions, v.isFragment = false ∧ v.inPlace.Filled m := by
  obtain ⟨newest, hperm, hfilled⟩ := h.newest
  obtain ⟨e, he, hefilled⟩ := exists_left_of_forall₂ hfilled hm
  obtain ⟨v, hv, rfl⟩ := List.mem_map.1 (mem_inPlaces_of_mem_survivors (hperm.mem_iff.1 he))
  obtain ⟨hmem, hwhole⟩ := List.mem_filter.1 hv
  exact ⟨v, hmem, by simpa using hwhole, hefilled⟩

end Timeline

end ReplyStream
