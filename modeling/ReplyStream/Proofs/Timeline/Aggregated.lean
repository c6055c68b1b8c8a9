/-
What becomes of a replacement the server adds to an event. It is one more
version and nothing besides: it takes the place of its event only if it names
the event itself and is newer, and of one time the event is shown as it was. One
that does not name the event is an entry of its own (`aggregated_competes`).
-/
import ReplyStream.Proofs.Timeline.Corrupt
import ReplyStream.Proofs.Timeline.Newest

namespace ReplyStream

/-- The entry shows this version: decoded, under the id of its event, with what
it refers to in place. -/
def Event.ShownAs (v entry : Event) : Prop := ∃ w, v.alone.decode = .ok w ∧ w.inPlace.Resolves entry

namespace Timeline

variable {σ : Type} {load : Loader σ}

/-- The event between the others comes with the newest replacement the server
knows of. Both take part in the conversation and are neither card fragments nor
parts of a chain, and nothing else in the log is a version of the event. -/
structure Aggregates (before : List Event) (e r : Event) (after : List Event) : Prop where
  comes : e.replacement = some r
  takesPart : ∀ v ∈ [e, r], v.isCandidate = true
  whole : ∀ v ∈ [e, r], v.isFragment = false
  unchained : ∀ v ∈ [e, r], v.content.continuationOf = none ∧ v.content.hasContinuation ≠ some true
  only : ∀ v ∈ (before ++ after).flatMap Event.versions, v.effectiveId ≠ e.effectiveId

/-- A message of the room that is no part of a chain is an entry of its own. -/
theorem exists_entry {versions entries : List Event} {fragments : Fragments} {s s' : σ}
    (h : ((byTime (survivors versions)).mapM (embed load fragments)).Gives s entries s') {m : Event}
    (hm : m ∈ survivors versions) (hbegins : m.content.continuationOf = none)
    (hends : m.content.hasContinuation ≠ some true) :
    ∃ entry, (byTime (stitch entries)).filter (·.id == m.id) = [entry] ∧ m.Resolves entry := by
  obtain ⟨entry, hentry, t, t', hembed⟩ := exists_right_of_forall₂ (Loading.forall₂_of_mapM h) (mem_byTime.2 hm)
  have hresolves := resolves_of_embed hembed
  obtain ⟨data, hsame⟩ := hresolves.filled
  have hdistinct := (messages_of_mapM h).distinct
  have hchain : Chain entries entry [] := {
    mem := by simpa using hentry
    begins := by rw [hsame]; exact hbegins
    linked := .singleton _
    ends := .inl (by rw [hsame]; exact hends) }
  obtain ⟨groups, hgroups⟩ := stitch_groups entries
  have hid : entry.id = m.id := by rw [hsame]
  have hone := hgroups.filter_stitch hdistinct (q := (· == m.id)) (hgroups.mem_groups hdistinct hchain)
    (beq_iff_eq.2 hid) fun x hx hxid => List.mem_singleton.2
      (List.inj_on_of_nodup_map hdistinct hx hentry ((beq_iff_eq.1 hxid).trans hid.symm))
  refine ⟨entry, ?_, hresolves⟩
  rw [← List.perm_singleton]
  exact ((List.mergeSort_perm _ _).filter _).trans (.of_eq hone)

/-- An event none of whose versions is part of a chain is shown in one entry,
in the first of its newest versions. -/
theorem exists_shown_alone {log timeline : List Event} {s s' : σ} (h : (reconstruct load log).Gives s timeline s')
    {id : String} {raw : List Event}
    (hraw : (messageVersions (log.flatMap Event.versions)).filter (·.effectiveId == id) = raw) (hsome : raw ≠ [])
    (halone : ∀ v ∈ raw, v.content.continuationOf = none ∧ v.content.hasContinuation ≠ some true) :
    ∃ decoded w entry, List.Forall₂ (fun v w => v.decode = .ok w) raw decoded ∧ FirstNewest decoded w ∧
      timeline.filter (·.id == id) = [entry] ∧ w.inPlace.Resolves entry := by
  obtain ⟨versions, fragments, entries, hversions, -, hentries, rfl⟩ := gives_of_reconstruct.1 h
  have hdecoded : List.Forall₂ (fun v w => v.decode = .ok w) raw
      ((messageVersions versions).filter (·.effectiveId == id)) := by
    rw [← hraw]
    refine List.rel_filter (fun v w hvw => ?_) (List.rel_filter (fun v w hvw => ?_) (forall₂_of_mapM_ok hversions))
    · obtain ⟨data, rfl⟩ := same_of_decode hvw
      exact Iff.rfl
    · obtain ⟨data, rfl⟩ := same_of_decode hvw
      exact Iff.rfl
  obtain ⟨v, hv⟩ := List.exists_mem_of_ne_nil raw hsome
  obtain ⟨u, hu, -⟩ := exists_right_of_forall₂ hdecoded hv
  obtain ⟨hwhole, hid⟩ := List.mem_filter.1 hu
  obtain ⟨hmem, hfragment⟩ := List.mem_filter.1 hwhole
  obtain ⟨m, hm, rfl⟩ := List.mem_map.1 (((ids_survivors versions).2 id).2
    ⟨u, hmem, by simpa using hfragment, beq_iff_eq.1 hid⟩)
  obtain ⟨w, hfirst, rfl⟩ := exists_firstNewest hm
  obtain ⟨v', hv', hdecode⟩ := exists_left_of_forall₂ hdecoded hfirst.mem
  obtain ⟨data, rfl⟩ := same_of_decode hdecode
  obtain ⟨hbegins, hends⟩ := halone v' hv'
  obtain ⟨entry, hentry, hresolves⟩ := exists_entry hentries hm hbegins hends
  exact ⟨_, _, entry, hdecoded, hfirst, hentry, hresolves⟩

theorem firstNewest_pair {a b v : Event} (h : FirstNewest [a, b] v) :
    v = if a.timestamp < b.timestamp then b else a := by
  obtain ⟨before, after, hsplit, hbefore, hafter⟩ := h
  rcases before with _ | ⟨c, _ | ⟨d, before⟩⟩
  · obtain ⟨rfl, rfl⟩ := List.cons.inj hsplit
    have hle := hafter b List.mem_cons_self
    rw [if_neg (by omega)]
  · obtain ⟨rfl, hrest⟩ := List.cons.inj hsplit
    obtain ⟨rfl, rfl⟩ := List.cons.inj hrest
    rw [if_pos (hbefore a List.mem_cons_self)]
  · simp at hsplit

theorem exists_shown_only {log timeline : List Event} {s s' : σ} (h : (reconstruct load log).Gives s timeline s')
    {id : String} {v : Event}
    (hraw : (messageVersions (log.flatMap Event.versions)).filter (·.effectiveId == id) = [v.alone])
    (halone : v.content.continuationOf = none ∧ v.content.hasContinuation ≠ some true) :
    ∃ entry, timeline.filter (·.id == id) = [entry] ∧ v.ShownAs entry := by
  obtain ⟨decoded, w, entry, hdecoded, hfirst, hentry, hresolves⟩ :=
    exists_shown_alone h hraw (List.cons_ne_nil _ _) fun u hu => by rw [List.mem_singleton.1 hu]; exact halone
  obtain ⟨u, hu, hdecode⟩ := exists_left_of_forall₂ hdecoded hfirst.mem
  rw [List.mem_singleton.1 hu] at hdecode
  exact ⟨entry, hentry, w, hdecode, hresolves⟩

/-- Of the only two versions of an event the second is shown if it is newer. -/
theorem exists_shown_pair {log timeline : List Event} {s s' : σ} (h : (reconstruct load log).Gives s timeline s')
    {id : String} {v w : Event}
    (hraw : (messageVersions (log.flatMap Event.versions)).filter (·.effectiveId == id) = [v.alone, w.alone])
    (halone : ∀ u ∈ [v, w], u.content.continuationOf = none ∧ u.content.hasContinuation ≠ some true) :
    ∃ entry, timeline.filter (·.id == id) = [entry] ∧
      (if v.timestamp < w.timestamp then w else v).ShownAs entry := by
  obtain ⟨decoded, shown, entry, hdecoded, hfirst, hentry, hresolves⟩ :=
    exists_shown_alone h hraw (List.cons_ne_nil _ _) fun u hu => by
      obtain ⟨u', hu', rfl⟩ := List.mem_map.1 (show u ∈ [v, w].map Event.alone from hu)
      exact halone u' hu'
  obtain ⟨v', _, hv, hrest, rfl⟩ := List.forall₂_cons_left_iff.1 hdecoded
  obtain ⟨w', _, hw, hnil, rfl⟩ := List.forall₂_cons_left_iff.1 hrest
  cases hnil
  have htime : v'.timestamp = v.timestamp := by
    obtain ⟨data, rfl⟩ := same_of_decode hv
    rfl
  have htime' : w'.timestamp = w.timestamp := by
    obtain ⟨data, rfl⟩ := same_of_decode hw
    rfl
  rw [firstNewest_pair hfirst, htime, htime'] at hresolves
  refine ⟨entry, hentry, ?_⟩
  split at hresolves
  next hlt =>
    rw [if_pos hlt]
    exact ⟨w', hw, hresolves⟩
  next hle =>
    rw [if_neg hle]
    exact ⟨v', hv, hresolves⟩

/-! ## Replacements the server adds -/

section Aggregates

variable {before after : List Event} {e r : Event} (hlog : Aggregates before e r after)
include hlog

theorem Aggregates.versions_eq : e.versions = [e.alone, r.alone] := by
  have hall : [e, r].filter (·.isCandidate) = [e, r] := List.filter_eq_self.2 hlog.takesPart
  rw [Event.versions, hlog.comes, Option.toList_some, hall]
  rfl

/-- Of an event none of the others is a version of, there are at most these two. -/
theorem Aggregates.filter_versions {id : String}
    (hothers : ∀ v ∈ (before ++ after).flatMap Event.versions, v.effectiveId ≠ id) :
    (messageVersions ((before ++ e :: after).flatMap Event.versions)).filter (·.effectiveId == id) =
      [e.alone, r.alone].filter (·.effectiveId == id) := by
  have hnone : ∀ events : List Event, (∀ v ∈ events.flatMap Event.versions, v.effectiveId ≠ id) →
      (messageVersions (events.flatMap Event.versions)).filter (·.effectiveId == id) = [] := by
    intro events hevents
    rw [List.filter_eq_nil_iff]
    intro v hv hid
    exact hevents v (List.mem_filter.1 hv).1 (beq_iff_eq.1 hid)
  have hwhole : messageVersions [e.alone, r.alone] = [e.alone, r.alone] := by
    refine List.filter_eq_self.2 fun v hv => ?_
    obtain ⟨u, hu, rfl⟩ := List.mem_map.1 (show v ∈ [e, r].map Event.alone from hv)
    rw [show u.alone.isFragment = u.isFragment from rfl, hlog.whole u hu]
    rfl
  rw [List.flatMap_append] at hothers
  have hbefore := hnone before fun v hv => hothers v (List.mem_append_left _ hv)
  have hafter := hnone after fun v hv => hothers v (List.mem_append_right _ hv)
  unfold messageVersions at hbefore hafter hwhole ⊢
  rw [List.flatMap_append, List.flatMap_cons, hlog.versions_eq, List.filter_append, List.filter_append, List.filter_append,
    List.filter_append, hbefore, hafter, hwhole, List.nil_append, List.append_nil]

end Aggregates

/-- **A replacement the server adds competes with its event.** There is one
entry for the event; it shows the replacement if that names the event and is
newer, and the event as it was if not. A replacement that does not name the
event is shown in an entry of its own, if nothing else is a version of what it
does name. -/
theorem aggregated_competes {before after timeline : List Event} {e r : Event} {s s' : σ}
    (hlog : Aggregates before e r after) (h : (reconstruct load (before ++ e :: after)).Gives s timeline s') :
    (∃ entry, timeline.filter (·.id == e.effectiveId) = [entry] ∧
        (if r.effectiveId = e.effectiveId ∧ e.timestamp < r.timestamp then r else e).ShownAs entry) ∧
      (r.effectiveId ≠ e.effectiveId →
        (∀ v ∈ (before ++ after).flatMap Event.versions, v.effectiveId ≠ r.effectiveId) →
          ∃ entry, timeline.filter (·.id == r.effectiveId) = [entry] ∧ r.ShownAs entry) := by
  have he : e.alone.effectiveId = e.effectiveId := rfl
  have hr : r.alone.effectiveId = r.effectiveId := rfl
  obtain ⟨haloneE, haloneR⟩ : (e.content.continuationOf = none ∧ e.content.hasContinuation ≠ some true) ∧
      r.content.continuationOf = none ∧ r.content.hasContinuation ≠ some true := by simpa using hlog.unchained
  constructor
  · have hraw := hlog.filter_versions hlog.only
    by_cases hsame : r.effectiveId = e.effectiveId
    · have hboth : [e.alone, r.alone].filter (·.effectiveId == e.effectiveId) = [e.alone, r.alone] := by
        simp [he, hr, hsame]
      simp only [hsame, true_and]
      exact exists_shown_pair h (hraw.trans hboth) hlog.unchained
    · have hfirst : [e.alone, r.alone].filter (·.effectiveId == e.effectiveId) = [e.alone] := by
        simp [he, hr, hsame]
      rw [if_neg fun hnewer => hsame hnewer.1]
      exact exists_shown_only h (hraw.trans hfirst) haloneE
  · intro hother honly
    have hsecond : [e.alone, r.alone].filter (·.effectiveId == r.effectiveId) = [r.alone] := by
      simp [he, hr, Ne.symm hother]
    exact exists_shown_only h ((hlog.filter_versions honly).trans hsecond) haloneR

/-! A room in which the server added a replacement to each message: one of the
same time, one that does not name the message, and a newer one that does. -/

/-- An event with the replacement the server adds. -/
def replacedBy (r e : Event) : Event := { e with unsigned := some ⟨some ⟨some r⟩⟩ }

def tiedEdit : Event := revision "$7" 10 "final" "$1"
def nameless : Event := piece "$8" 20 "final" none none
def newerEdit : Event := revision "$9" 90 "final" "$3"

def tied : Event := replacedBy tiedEdit (piece "$1" 10 "draft" none none)
def unnamed : Event := replacedBy nameless (piece "$2" 20 "draft" none none)
def outdated : Event := replacedBy newerEdit (piece "$3" 30 "draft" none none)

/-- The entries of the room. -/
def raced : List Event :=
  [piece "$1" 10 "draft" none none, piece "$2" 20 "draft" none none, nameless, piece "$3" 90 "final" none none]

theorem raced_gives :
    (reconstruct (Depot.load 0) [tied, unnamed, outdated]).Gives emptyDepot raced emptyDepot := by
  have hsorted : byTime raced = raced := byTime_of_pairwise (by decide)
  refine gives_of_reconstruct.2 ⟨_, [], raced, rfl, rfl, ?_, ?_⟩
  · rw [show survivors _ = raced from rfl, hsorted]
    rfl
  · rw [stitch_of_alone (by simp [raced, piece, nameless]), hsorted]

theorem aggregated_competes_newer :
    Aggregates [tied, unnamed] outdated newerEdit [] ∧
      (reconstruct (Depot.load 0) ([tied, unnamed] ++ outdated :: [])).Gives emptyDepot raced emptyDepot ∧
        ∃ entry, raced.filter (·.id == "$3") = [entry] ∧ newerEdit.ShownAs entry := by
  have hlog : Aggregates [tied, unnamed] outdated newerEdit [] := ⟨rfl, by decide, by decide, by decide, by decide⟩
  obtain ⟨entry, hentry, hshown⟩ := (aggregated_competes hlog raced_gives).1
  rw [if_pos (by decide)] at hshown
  exact ⟨hlog, raced_gives, entry, hentry, hshown⟩

/-- **A replacement the server adds is not applied first.** An edit as old as
its message is not shown at all, and one that does not name its message is an
entry besides it. -/
theorem raced_keeps_drafts :
    (reconstruct (Depot.load 0) [tied, unnamed, outdated]).Gives emptyDepot raced emptyDepot ∧
      (Aggregates [] tied tiedEdit [unnamed, outdated] ∧
        ∀ entry ∈ raced, entry.id = tied.id → entry.content.body ≠ tiedEdit.content.body) ∧
      Aggregates [tied] unnamed nameless [outdated] ∧
        ∃ a b, raced.filter (fun entry => entry.id == unnamed.id || entry.id == nameless.id) = [a, b] ∧
          a.content.body ≠ nameless.content.body := by
  refine ⟨raced_gives, ⟨⟨rfl, by decide, by decide, by decide, by decide⟩, by decide⟩,
    ⟨rfl, by decide, by decide, by decide, by decide⟩, _, _, rfl, by decide⟩

end Timeline

end ReplyStream
