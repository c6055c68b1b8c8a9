/-
The timeline of a log to which a chain of events was written among the events
of others. None of those is, replaces or continues an event of the chain
(`Event.Foreign`), and by themselves they have a timeline. Then the log has
one too, and in it the chain is a single entry: the newest versions of its
events, folded into the first (`reconstruct_chain`).
-/
import ReplyStream.Proofs.Message
import ReplyStream.Proofs.Timeline.Chains
import ReplyStream.Proofs.Timeline.Messages
import ReplyStream.Timeline.Basic

namespace ReplyStream

namespace Event

/-- An event, and the newest replacement that comes with it, neither is nor
replaces nor continues one of the given events. -/
def Foreign (ids : List String) (e : Event) : Prop :=
  ∀ v ∈ e :: e.replacement.toList,
    v.id ∉ ids ∧ (∀ id ∈ v.replaces, id ∉ ids) ∧ ∀ id ∈ v.content.continuationOf, id ∉ ids

/-- An event as it is written when a message is sent. -/
structure Carrying (agent : String) (e : Event) : Prop where
  kind : e.kind = .message
  unsigned : e.unsigned = none
  msgtype : e.content.msgtype = some chatType
  data : e.content.data = some (.str (Message.agentData agent).compact)

/-- The newest version of an event, as it is left in the timeline. -/
def asVersion (agent : String) (e : Event) : Event :=
  { e with content.data := some (Message.agentData agent) }.inPlace

end Event

namespace Timeline

variable {agent : String} {ids : List String}

theorem versions_of_message {e : Event} (hkind : e.kind = .message) (hunsigned : e.unsigned = none) :
    e.versions = [e] := by
  have hreplacement : e.replacement = none := by rw [Event.replacement, hunsigned]; rfl
  have hcandidate : e.isCandidate = true := by rw [Event.isCandidate, hkind]
  rw [Event.versions, hreplacement, Option.toList_none, List.filter_cons_of_pos hcandidate, List.filter_nil,
    List.map_cons, List.map_nil, ← hunsigned]
  cases e
  rfl

theorem decode_of_carrying {e : Event} (h : e.Carrying agent) :
    e.decode = .ok { e with content.data := some (Message.agentData agent) } := by
  simp only [Event.decode, Content.decodeData?, h.data, Message.parse?_agentData, Option.map_some]

/-- The candidates among events that carry messages. -/
theorem candidates_of_carrying {events : List Event} (h : ∀ e ∈ events, e.Carrying agent) :
    candidates events =
      .ok (events.map fun e => { e with content.data := some (Message.agentData agent) }) := by
  rw [candidates]
  induction events with
  | nil => rfl
  | cons e events ih =>
    have he := h e List.mem_cons_self
    rw [List.flatMap_cons, versions_of_message he.kind he.unsigned, List.singleton_append, List.map_cons]
    exact Shuffle.mapM_cons_ok.2
      ⟨_, _, decode_of_carrying he, ih fun f hf => h f (List.mem_cons_of_mem e hf), rfl⟩

theorem same_of_decode {e e' : Event} (h : e.decode = .ok e') : ∃ data, e' = { e with content.data := data } := by
  unfold Event.decode at h
  split at h
  next content hcontent =>
    cases h
    unfold Content.decodeData? at hcontent
    split at hcontent
    · obtain ⟨v, -, rfl⟩ := Option.map_eq_some_iff.1 hcontent
      exact ⟨some v, rfl⟩
    · cases hcontent
      exact ⟨e.content.data, rfl⟩
  · cases h

/-- Decoded versions take part in the conversation, come without what the
server added and continue what they continued. -/
theorem exists_raw_of_candidates {log versions : List Event} (h : candidates log = .ok versions) {v : Event}
    (hv : v ∈ versions) : ∃ raw ∈ log.flatMap Event.versions, v.unsigned = none ∧ v.isCandidate = true ∧
      v.content.continuationOf = raw.content.continuationOf := by
  obtain ⟨raw, hraw, hdecode⟩ := Shuffle.mem_of_mapM_ok h hv
  obtain ⟨data, rfl⟩ := same_of_decode hdecode
  obtain ⟨e, -, hversion⟩ := List.mem_flatMap.1 hraw
  obtain ⟨w, hw, rfl⟩ := List.mem_map.1 hversion
  exact ⟨_, hraw, rfl, (List.mem_filter.1 hw).2, rfl⟩

theorem foreign_of_candidates {others versions : List Event} (hforeign : ∀ e ∈ others, e.Foreign ids)
    (h : candidates others = .ok versions) :
    ∀ v ∈ versions, v.effectiveId ∉ ids ∧ ∀ id ∈ v.content.continuationOf, id ∉ ids := by
  intro v hv
  obtain ⟨u, hu, hdecode⟩ := Shuffle.mem_of_mapM_ok h hv
  obtain ⟨e, he, hversion⟩ := List.mem_flatMap.1 hu
  obtain ⟨w, hw, rfl⟩ := List.mem_map.1 hversion
  obtain ⟨hid, hreplaces, hcontinuation⟩ := hforeign e he w (List.mem_filter.1 hw).1
  obtain ⟨data, rfl⟩ := same_of_decode hdecode
  refine ⟨?_, hcontinuation⟩
  show w.replaces.getD w.id ∉ ids
  cases hreplaced : w.replaces with
  | none => exact hid
  | some id => exact hreplaces id hreplaced

theorem inPlaces_of_carrying {events : List Event} (h : ∀ e ∈ events, e.Carrying agent) :
    inPlaces (events.map fun e => { e with content.data := some (Message.agentData agent) }) =
      events.map (·.asVersion agent) := by
  have hfragment : ∀ e ∈ events.map fun e => { e with content.data := some (Message.agentData agent) },
      (!e.isFragment) = true := by
    intro f hf
    obtain ⟨e, he, rfl⟩ := List.mem_map.1 hf
    simp only [Event.isFragment, Event.msgtype, (h e he).msgtype]
    rw [show (some Event.chatType == some Event.fragmentType) = false by decide, Bool.and_false]
    rfl
  rw [inPlaces, List.filter_eq_self.2 hfragment, List.map_map]
  rfl

theorem fragments_of_carrying {events : List Event} (h : ∀ e ∈ events, e.Carrying agent) :
    (events.map fun e => { e with content.data := some (Message.agentData agent) }).filter (·.isFragment) = [] := by
  rw [List.filter_eq_nil_iff]
  intro f hf
  obtain ⟨e, he, rfl⟩ := List.mem_map.1 hf
  simp only [Event.isFragment, Event.msgtype, (h e he).msgtype]
  rw [show (some Event.chatType == some Event.fragmentType) = false by decide, Bool.and_false]
  exact Bool.false_ne_true

section Reconstruct

variable {σ : Type} {load : Loader σ} {ours others log : List Event}

/-- What a log needs to have a timeline, and what that is made of. -/
theorem gives_of_reconstruct {s s' : σ} {timeline : List Event} :
    (reconstruct load log).Gives s timeline s' ↔ ∃ versions fragments entries, candidates log = .ok versions ∧
      Fragments.ofEvents versions = .ok fragments ∧
      ((byTime (survivors versions)).mapM (embed load fragments)).Gives s entries s' ∧
      timeline = byTime (stitch entries) := by
  unfold reconstruct
  constructor
  · intro h
    obtain ⟨versions, s₁, hversions, h₁⟩ := Loading.gives_bind.1 h
    obtain ⟨fragments, s₂, hfragments, h₂⟩ := Loading.gives_bind.1 h₁
    obtain ⟨entries, s₃, hentries, h₃⟩ := Loading.gives_bind.1 h₂
    obtain ⟨hcandidates, rfl⟩ := Loading.gives_ofExcept.1 hversions
    obtain ⟨hpieces, rfl⟩ := Loading.gives_ofExcept.1 hfragments
    obtain ⟨htimeline, rfl⟩ := Loading.gives_pure.1 h₃
    exact ⟨versions, fragments, entries, hcandidates, hpieces, hentries, htimeline⟩
  · rintro ⟨versions, fragments, entries, hversions, hfragments, hentries, rfl⟩
    exact Loading.gives_bind.2 ⟨versions, s, Loading.gives_ofExcept.2 ⟨hversions, rfl⟩,
      Loading.gives_bind.2 ⟨fragments, s, Loading.gives_ofExcept.2 ⟨hfragments, rfl⟩,
        Loading.gives_bind.2 ⟨entries, s', hentries, Loading.gives_pure.2 ⟨rfl, rfl⟩⟩⟩⟩

/-- The newest versions of a log of two kinds: those of the others are what
they are without the chain, those of the chain are the last of each event. -/
theorem survivors_of_shuffle {versions all : List Event}
    (hours : ∀ e ∈ ours, e.Carrying agent) (hmine : ∀ e ∈ ours, e.effectiveId ∈ ids)
    (htimes : ours.Pairwise (·.timestamp < ·.timestamp)) (hids : ids.Nodup)
    (hlast : ∀ id ∈ ids, ∃ e ∈ ours, e.effectiveId = id)
    (hforeign : ∀ v ∈ versions, v.effectiveId ∉ ids)
    (hall : Shuffle (ours.map fun e => { e with content.data := some (Message.agentData agent) }) versions all) :
    ((survivors all).filter (ids.contains ·.id)).Perm
        (ids.filterMap fun id => (ours.reverse.find? (·.effectiveId == id)).map (·.asVersion agent)) ∧
      ∀ e ∈ survivors all, ids.contains e.id = false → e ∈ survivors versions := by
  have hplaces : Shuffle (ours.map (·.asVersion agent)) (inPlaces versions) (inPlaces all) := by
    have := (hall.filter (!·.isFragment)).map Event.inPlace
    rw [← inPlaces_of_carrying hours]
    exact this
  have hfirst : ∀ e ∈ ours.map (·.asVersion agent), ids.contains e.id = true := by
    intro f hf
    obtain ⟨e, he, rfl⟩ := List.mem_map.1 hf
    exact List.contains_iff_mem.2 (hmine e he)
  have hsecond : ∀ e ∈ inPlaces versions, ids.contains e.id = false := by
    intro f hf
    obtain ⟨v, hv, rfl⟩ := List.mem_map.1 hf
    show ids.contains v.effectiveId = false
    simpa using hforeign v (List.mem_filter.1 hv).1
  have hnewer : (ours.map (·.asVersion agent)).Pairwise (·.timestamp < ·.timestamp) := htimes.map _ fun _ _ h => h
  have hmem : ∀ id, id ∈ ids ↔ ∃ e ∈ ours.map (·.asVersion agent), e.id = id := by
    intro id
    constructor
    · intro hid
      obtain ⟨e, he, rfl⟩ := hlast id hid
      exact ⟨_, List.mem_map_of_mem he, rfl⟩
    · rintro ⟨f, hf, rfl⟩
      exact List.contains_iff_mem.1 (hfirst f hf)
  constructor
  · have hperm := survivors_perm (hplaces.filter_eq_first hfirst hsecond) hnewer hids hmem
    have hfind : ∀ id, (ours.map (·.asVersion agent)).reverse.find? (·.id == id) =
        (ours.reverse.find? (·.effectiveId == id)).map (·.asVersion agent) := by
      intro id
      rw [← List.map_reverse, List.find?_map]
      rfl
    simp only [hfind] at hperm
    exact hperm
  · intro e he hid
    have he' : e ∈ (survivors all).filter (!ids.contains ·.id) := List.mem_filter.2 ⟨he, by rw [hid]; rfl⟩
    have hsecond' : ∀ e ∈ inPlaces versions, (!ids.contains e.id) = true := fun e he => by rw [hsecond e he]; rfl
    have hfirst' : ∀ e ∈ ours.map (·.asVersion agent), (!ids.contains e.id) = false :=
      fun e he => by rw [hfirst e he]; rfl
    have hsplit := survivors_filter (fun id => !ids.contains id) all
    rw [hplaces.filter_eq_second hfirst' hsecond'] at hsplit
    rw [hsplit] at he'
    exact he'

/-- Entries of the timeline before it is stitched, and the events they were. -/
theorem entries_of_mapM {fragments : Fragments} {s s' : σ} {events entries : List Event}
    (h : (events.mapM (embed load fragments)).Gives s entries s')
    (hplain : ∀ e ∈ events, ids.contains e.id = true → e.content.data = some (Message.agentData agent) ∧
      e.kind = .message) :
    entries.filter (ids.contains ·.id) = events.filter (ids.contains ·.id) ∧
      ∀ e' ∈ entries, ∃ e ∈ events, e'.id = e.id ∧ e'.content.continuationOf = e.content.continuationOf := by
  have hentries := Loading.forall₂_of_mapM h
  clear h
  induction hentries with
  | nil => exact ⟨rfl, by simp⟩
  | @cons e e' events entries he _ ih =>
    obtain ⟨s, s', he⟩ := he
    obtain ⟨hfilter, hmem⟩ := ih fun f hf => hplain f (List.mem_cons_of_mem e hf)
    obtain ⟨data, hsame⟩ := same_of_embed he
    have hid : e'.id = e.id := by rw [hsame]
    constructor
    · rw [List.filter_cons, List.filter_cons, hfilter, hid]
      split
      next hmine =>
        obtain ⟨hdata, hkind⟩ := hplain e List.mem_cons_self hmine
        have heq : e' = e := eq_of_embed he hdata rfl rfl (by
          simp only [Event.isCommandOutput, hkind]
          rfl)
        rw [heq]
      · rfl
    · intro f hf
      rcases List.mem_cons.1 hf with rfl | hf
      · exact ⟨e, List.mem_cons_self, hid, by rw [hsame]⟩
      · obtain ⟨g, hg, hsame⟩ := hmem f hf
        exact ⟨g, List.mem_cons_of_mem e hg, hsame⟩

/-- Entries found by their ids, in the order of the ids. -/
theorem eq_of_map_some {find : String → Option Event} (hfind : ∀ id e, find id = some e → e.id = id) :
    ∀ {ids : List String} {events : List Event}, ids.map find = events.map some →
      events.map (·.id) = ids ∧ ids.filterMap find = events
  | [], [], _ => ⟨rfl, rfl⟩
  | [], _ :: _, h => by cases h
  | _ :: _, [], h => by cases h
  | id :: ids, e :: events, h => by
    obtain ⟨he, hrest⟩ := List.cons.inj h
    obtain ⟨hids, hevents⟩ := eq_of_map_some hfind hrest
    rw [List.map_cons, hids, hfind id e he, List.filterMap_cons_some he, hevents]
    exact ⟨rfl, rfl⟩

theorem exists_of_last {id : String} {f : Event}
    (h : (ours.reverse.find? (·.effectiveId == id)).map (·.asVersion agent) = some f) :
    ∃ g ∈ ours, g.effectiveId = id ∧ f = g.asVersion agent := by
  obtain ⟨g, hg, rfl⟩ := Option.map_eq_some_iff.1 h
  have hid := List.find?_some hg
  exact ⟨g, List.mem_reverse.1 (List.mem_of_find?_eq_some hg), eq_of_beq hid, rfl⟩

/-- What the versions refer to can be put in place: those of the chain refer
to nothing, and for the others it could be done before. -/
theorem isTotal_of_plain {fragments : Fragments} {all versions entries₀ : List Event} {s₀ s₀' : σ}
    (hentries₀ : ((byTime (survivors versions)).mapM (embed load fragments)).Gives s₀ entries₀ s₀')
    (hplain : ∀ f ∈ survivors all, ids.contains f.id = true →
      f.content.data = some (Message.agentData agent) ∧ f.kind = .message)
    (hsurvivors : ∀ f ∈ survivors all, ids.contains f.id = false → f ∈ survivors versions) :
    ((byTime (survivors all)).mapM (embed load fragments)).IsTotal := by
  refine Loading.isTotal_mapM fun f hf => isTotal_embed fun fields hdata => ?_
  cases hid : ids.contains f.id with
  | true =>
    obtain ⟨hdata', hkind⟩ := hplain f (mem_byTime.1 hf) hid
    rw [hdata'] at hdata
    cases hdata
    have houtput : f.isCommandOutput = false := by
      rw [Event.isCommandOutput, hkind]
      rfl
    exact embeds_nothing rfl rfl houtput
  | false =>
    have hf' := mem_byTime.2 (hsurvivors f (mem_byTime.1 hf) hid)
    obtain ⟨f', t, t', hgives⟩ := Loading.gives_of_mem hentries₀ hf'
    exact embeds_of_gives hgives hdata

/-- **A chain among the events of others is one entry of the timeline.** -/
theorem reconstruct_chain {s₀ s₀' : σ} {timeline₀ : List Event} {e : Event} {rest : List Event}
    (hshuffle : Shuffle ours others log) (hours : ∀ e ∈ ours, e.Carrying agent)
    (hmine : ∀ e ∈ ours, e.effectiveId ∈ ids) (htimes : ours.Pairwise (·.timestamp < ·.timestamp))
    (hids : ids.Nodup) (hforeign : ∀ e ∈ others, e.Foreign ids)
    (hothers : (reconstruct load others).Gives s₀ timeline₀ s₀')
    (hlast : ids.map (fun id => (ours.reverse.find? (·.effectiveId == id)).map (·.asVersion agent)) =
      (e :: rest).map some)
    (hfirst : e.content.continuationOf = none) (hlinked : e.Linked rest) (s : σ) :
    ∃ timeline s', (reconstruct load log).Gives s timeline s' ∧
      timeline.filter (ids.contains ·.id) = [rest.foldl Event.absorb e] := by
  obtain ⟨versions, fragments, entries₀, hversions, hfragments, hentries₀, -⟩ := gives_of_reconstruct.1 hothers
  obtain ⟨all, hcandidates, hall⟩ := (hshuffle.flatMap Event.versions).mapM (candidates_of_carrying hours) hversions
  have hforeign' := foreign_of_candidates hforeign hversions
  obtain ⟨hchain, hfound⟩ := eq_of_map_some (fun id f hf => by
    obtain ⟨g, -, rfl, rfl⟩ := exists_of_last hf
    rfl) hlast
  have hmember : ∀ f ∈ e :: rest, ∃ g ∈ ours, f = g.asVersion agent := by
    intro f hf
    rw [← hfound] at hf
    obtain ⟨id, -, hid⟩ := List.mem_filterMap.1 hf
    obtain ⟨g, hg, -, hgf⟩ := exists_of_last hid
    exact ⟨g, hg, hgf⟩
  have hpresent : ∀ id ∈ ids, ∃ e ∈ ours, e.effectiveId = id := by
    intro id hid
    rw [← hchain] at hid
    obtain ⟨f, hf, rfl⟩ := List.mem_map.1 hid
    obtain ⟨g, hg, rfl⟩ := hmember f hf
    exact ⟨g, hg, rfl⟩
  obtain ⟨hperm, hsurvivors⟩ := survivors_of_shuffle hours hmine htimes hids hpresent
    (fun v hv => (hforeign' v hv).1) hall
  rw [hfound] at hperm
  have hfragments' : Fragments.ofEvents all = .ok fragments := by
    have hnone := hall.filter (·.isFragment)
    rw [fragments_of_carrying hours] at hnone
    rw [Fragments.ofEvents, hnone.eq_of_nil_left]
    exact hfragments
  have hplain : ∀ f ∈ survivors all, ids.contains f.id = true →
      f.content.data = some (Message.agentData agent) ∧ f.kind = .message := by
    intro f hf hid
    obtain ⟨g, hg, rfl⟩ := hmember f (hperm.mem_iff.1 (List.mem_filter.2 ⟨hf, hid⟩))
    exact ⟨rfl, (hours g hg).kind⟩
  obtain ⟨entries, s', hentries⟩ := isTotal_of_plain hentries₀ hplain hsurvivors s
  obtain ⟨hfilter, hsame⟩ := entries_of_mapM hentries fun f hf => hplain f (mem_byTime.1 hf)
  have hchained : Chained (ids.contains ·) entries e rest := {
    perm := by
      rw [hfilter]
      exact ((List.mergeSort_perm _ _).filter _).trans hperm
    first := hfirst
    linked := hlinked
    nodup := by
      rw [hchain]
      exact hids
    others := by
      intro f hf hid previous hprevious
      obtain ⟨g, hg, hgid, hcontinuation⟩ := hsame f hf
      rw [hgid] at hid
      rw [hcontinuation] at hprevious
      obtain ⟨v, hv, rfl⟩ := List.mem_map.1 (mem_inPlaces_of_mem_survivors (hsurvivors g (mem_byTime.1 hg) hid))
      simpa using (hforeign' v (List.mem_filter.1 hv).1).2 previous hprevious }
  refine ⟨byTime (stitch entries), s', gives_of_reconstruct.2 ⟨all, fragments, entries, hcandidates, hfragments',
    hentries, rfl⟩, ?_⟩
  rw [← List.perm_singleton, ← stitch_filter hchained (messages_of_mapM hentries).distinct]
  exact (List.mergeSort_perm _ _).filter _

end Reconstruct

end Timeline

end ReplyStream
