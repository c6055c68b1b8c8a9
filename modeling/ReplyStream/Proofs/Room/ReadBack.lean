/-
What the bot publishes reads back as one message. Whatever others write
before, between and behind its sends and whichever of these fail: when the
last publish goes through, the chain of events is one entry of the room's
timeline, with the texts, the tool calls and the state of the reply that was
published (`published_reads_back`).

Each event of the chain reads as the message sent last for it (`Reads`);
absorbed one after the other, the messages of a reply in pieces are the
reply again (`reads_reply`).
-/
import ReplyStream.Proofs.Chain.Represent
import ReplyStream.Proofs.Room.Shared
import ReplyStream.Proofs.Timeline.Reconstruct

namespace ReplyStream

/-- An entry of a timeline reads as a message. -/
structure Message.Reads (m : Message) (e : Event) : Prop where
  body : e.content.body = m.body
  reasoning : e.content.reasoning = m.reasoning
  commands : e.content.commands = m.commandItems
  continuationOf : e.content.continuationOf = m.continuationOf
  hasContinuation : e.content.hasContinuation = m.hasContinuation
  finished : e.content.finished = some m.finished

/-! ## Absorbing -/

section Absorb

variable {ms : List Message} {rest : List Event}

theorem body_of_absorbed (h : List.Forall₂ Message.Reads ms rest) (head : Event) :
    (rest.foldl Event.absorb head).content.body = head.content.body ++ String.join (ms.map (·.body)) := by
  induction h generalizing head with
  | nil => rw [← String.toList_inj]; simp
  | cons hm _ ih =>
    rw [List.foldl_cons, ih, ← String.toList_inj]
    simp [Event.absorb, hm.body]

theorem reasoning_of_absorbed (h : List.Forall₂ Message.Reads ms rest) (hsome : ∀ m ∈ ms, m.reasoning.isSome)
    {head : Event} {text : String} (hhead : head.content.reasoning = some text) :
    (rest.foldl Event.absorb head).content.reasoning =
      some (text ++ String.join (ms.map fun m => m.reasoning.getD "")) := by
  induction h generalizing head text with
  | nil =>
    rw [List.foldl_nil, hhead, Option.some.injEq, ← String.toList_inj]
    simp
  | @cons m e ms rest hm _ ih =>
    obtain ⟨more, hmore⟩ := Option.isSome_iff_exists.1 (hsome m List.mem_cons_self)
    have habsorbed : (head.absorb e).content.reasoning = some (text ++ more) := by
      simp only [Event.absorb, hm.reasoning, hmore, hhead]
      rfl
    rw [List.foldl_cons, ih (fun m' hm' => hsome m' (List.mem_cons_of_mem m hm')) habsorbed, Option.some.injEq,
      ← String.toList_inj]
    simp [hmore]

theorem commands_of_absorbed (h : List.Forall₂ Message.Reads ms rest) {m : Message} {head : Event}
    (hhead : head.content.commands = m.commandItems) (hnone : ∀ f ∈ (m :: ms).dropLast, f.commands = []) :
    (rest.foldl Event.absorb head).content.commands = (m :: ms).getLast?.bind (·.commandItems) := by
  induction h generalizing m head with
  | nil => exact hhead
  | @cons m' e ms rest hm' _ ih =>
    have hempty : m.commandItems = none := by
      rw [Message.commandItems, hnone m (by simp)]
      rfl
    have habsorbed : (head.absorb e).content.commands = m'.commandItems := by
      simp only [Event.absorb, hm'.commands, hhead, hempty]
      cases m'.commandItems <;> rfl
    rw [List.foldl_cons, List.getLast?_cons_cons]
    exact ih habsorbed fun f hf => hnone f (by rw [List.dropLast_cons_cons]; exact List.mem_cons_of_mem m hf)

theorem state_of_absorbed (h : List.Forall₂ Message.Reads ms rest) {m : Message} {head : Event}
    (hfinished : head.content.finished = some m.finished)
    (hcontinued : head.content.hasContinuation = m.hasContinuation) :
    (rest.foldl Event.absorb head).content.finished = (m :: ms).getLast?.map (·.finished) ∧
      (rest.foldl Event.absorb head).content.hasContinuation = (m :: ms).getLast?.bind (·.hasContinuation) ∧
      (rest.foldl Event.absorb head).id = head.id := by
  induction h generalizing m head with
  | nil => exact ⟨hfinished, hcontinued, rfl⟩
  | @cons m' e ms rest hm' _ ih =>
    have habsorbed : (head.absorb e).content.finished = some m'.finished := hm'.finished
    rw [List.foldl_cons, List.getLast?_cons_cons]
    exact ih habsorbed hm'.hasContinuation

end Absorb

/-- Entries that read as linked messages are linked. -/
theorem linked_of_reads {ms : List Message} {es : List Event} (h : List.Forall₂ Message.Reads ms es)
    {previous : Option String} (hflags : ∀ m ∈ ms.dropLast, m.hasContinuation = some true)
    (hlast : ∀ m ∈ ms.getLast?, m.hasContinuation = none)
    (hlinks : ms.map (·.continuationOf) = previous :: (es.map (·.id)).dropLast.map some) :
    ∃ e rest, es = e :: rest ∧ e.content.continuationOf = previous ∧ e.Linked rest := by
  induction h generalizing previous with
  | nil => cases hlinks
  | @cons m e ms rest hm hrest ih =>
    obtain ⟨hprevious, hlinks⟩ := List.cons.inj hlinks
    refine ⟨e, rest, rfl, hm.continuationOf.trans hprevious, ?_⟩
    cases hrest with
    | nil =>
      intro hcontinued
      rw [hm.hasContinuation, hlast m rfl] at hcontinued
      cases hcontinued
    | @cons m' e' ms' rest' hm' hrest' =>
      have hflags' : ∀ m'' ∈ (m' :: ms').dropLast, m''.hasContinuation = some true :=
        fun m'' hmem => hflags m'' (by rw [List.dropLast_cons_cons]; exact List.mem_cons_of_mem m hmem)
      obtain ⟨f, rest'', heq, hprevious', hlinked⟩ := ih hflags' hlast hlinks
      obtain ⟨rfl, rfl⟩ := List.cons.inj heq
      exact ⟨hm.hasContinuation.trans (hflags m (by simp)), hprevious', hlinked⟩

/-- Entries that read as a reply in pieces are linked, and absorbed into the
first they are the reply. -/
theorem reads_reply {r : Reply} {ceiling : Nat} {ms : List Message} {es : List Event}
    (h : List.Forall₂ Message.Reads ms es) (hshown : r.ShownBy ceiling (es.map (·.id)) ms) :
    ∃ e rest, es = e :: rest ∧ e.content.continuationOf = none ∧ e.Linked rest ∧
      (rest.foldl Event.absorb e).id = e.id ∧
      (rest.foldl Event.absorb e).content.body = r.answer ∧
      (rest.foldl Event.absorb e).content.reasoning = some r.reasoning ∧
      (rest.foldl Event.absorb e).content.commands =
        (if r.toolCalls.isEmpty then none else some (r.toolCalls.map (·.encode.toJson))) ∧
      (rest.foldl Event.absorb e).content.finished = some r.isFinished ∧
      (rest.foldl Event.absorb e).content.hasContinuation = none := by
  obtain ⟨last, hlast, hcontinued, hfinished, -, hcommands⟩ := hshown.ended
  obtain ⟨e, rest, rfl, hfirst, hlinked⟩ := linked_of_reads h (fun m hm => (hshown.continued m hm).1)
    (fun m hm => by rw [hlast] at hm; cases hm; exact hcontinued) hshown.linked
  refine ⟨e, rest, rfl, hfirst, hlinked, ?_⟩
  have hitems : last.commandItems =
      if r.toolCalls.isEmpty then none else some (r.toolCalls.map (·.encode.toJson)) := by
    rw [Message.commandItems, hcommands, List.isEmpty_map, List.map_map]
    rfl
  cases h with
  | @cons m _ ms _ hm hrest =>
  obtain ⟨text, htext⟩ := Option.isSome_iff_exists.1 (hshown.reasoned m List.mem_cons_self)
  have hreasoning := reasoning_of_absorbed hrest (fun m' hm' => hshown.reasoned m' (List.mem_cons_of_mem m hm'))
    (hm.reasoning.trans htext)
  have hall := commands_of_absorbed hrest hm.commands fun f hf => (hshown.continued f hf).2.2
  obtain ⟨hstate, hflag, hid⟩ := state_of_absorbed hrest hm.finished hm.hasContinuation
  have hjoin : ∀ (text : String) (texts : List String), text ++ String.join texts = String.join (text :: texts) := by
    intro text texts
    rw [← String.toList_inj]
    simp
  refine ⟨hid, ?_, ?_, ?_, ?_, ?_⟩
  · rw [body_of_absorbed hrest e, hm.body, hjoin]
    exact hshown.answer
  · rw [hreasoning, hjoin, ← hshown.reasoning, List.map_cons, htext]
    rfl
  · rw [hall, hlast]
    exact hitems
  · rw [hstate, hlast, ← hfinished]
    rfl
  · rw [hflag, hlast]
    exact hcontinued

/-! ## The events of the chain -/

/-- What a publisher posts is chat, names its agent, and is an edit only of
the event it is to replace. -/
theorem Publisher.Posted.message_eq {room : String} {p : Publisher} {report : Bool} {x : Sent}
    (h : p.Posted room report x) :
    x.message.msgtype = Event.chatType ∧ x.message.data = some (Message.agentData p.agent).compact ∧
      x.message.relatesTo = x.replaces.map .replace := by
  obtain ⟨q, f, id, halike, -, rfl⟩ := h
  have hpost : ∃ target m, q.post f = address target m ∧ m.msgtype = Event.chatType ∧
      m.data = some (Message.agentData p.agent).compact := by
    rw [← halike.agent]
    cases f with
    | opening => exact ⟨_, _, rfl, rfl, rfl⟩
    | publish reply parts => cases parts <;> exact ⟨_, _, rfl, rfl, rfl⟩
    | report text => exact ⟨_, _, rfl, rfl, rfl⟩
  obtain ⟨target, m, hpost, htype, hdata⟩ := hpost
  simp only [entry, hpost, addressed_address]
  exact ⟨htype, hdata, rfl⟩

section Becomes

variable {room : String} {p : Publisher} {report : Bool} {x : Sent} {e : Event}

theorem carrying_of_becomes (hx : p.Posted room report x) (h : SharedRoom.Becomes room x e) :
    e.Carrying p.agent := by
  obtain ⟨htype, hdata, -⟩ := hx.message_eq
  obtain ⟨extra, hcontent⟩ := x.message.content?_eq
  have hcontent' := Option.some.inj (h.content.symm.trans hcontent)
  exact ⟨h.kind, h.unsigned, by rw [hcontent', htype], by rw [hcontent', hdata]; rfl⟩

/-- The event of a sent message is a version of the event it shows in, and
reads as the message. -/
theorem reads_of_becomes (hx : p.Posted room report x) (h : SharedRoom.Becomes room x e) :
    e.effectiveId = x.place ∧ x.message.Reads (e.asVersion p.agent) := by
  obtain ⟨-, -, hrelates⟩ := hx.message_eq
  obtain ⟨extra, hcontent⟩ := x.message.content?_eq
  have hcontent' := Option.some.inj (h.content.symm.trans hcontent)
  constructor
  · have hreplaces : e.replaces = x.replaces := by
      rw [Event.replaces, hcontent', hrelates]
      cases x.replaces <;> rfl
    rw [Event.effectiveId, hreplaces, h.id]
    rfl
  · rw [Event.asVersion, hcontent']
    exact ⟨rfl, rfl, rfl, rfl, rfl, rfl⟩

end Becomes

/-- What an event shows is what its newest version reads as. -/
theorem find?_of_shown {room : String} {p : Publisher} {new : List Sent} {ours : List Event}
    (h : List.Forall₂ (SharedRoom.Becomes room) new ours) (hposted : ∀ x ∈ new, ∃ report, p.Posted room report x)
    {id : String} {m : Message} (hm : Sent.shown new id = some m) :
    ∃ e, (ours.reverse.find? (·.effectiveId == id)).map (·.asVersion p.agent) = some e ∧ e.id = id ∧ m.Reads e := by
  have hreverse := List.rel_reverse h
  have hposted' : ∀ x ∈ new.reverse, ∃ report, p.Posted room report x := fun x hx => hposted x (List.mem_reverse.1 hx)
  rw [Sent.shown] at hm
  generalize new.reverse = sent at hreverse hposted' hm
  generalize ours.reverse = events at hreverse
  induction hreverse with
  | nil => cases hm
  | @cons x e sent events hx _ ih =>
    obtain ⟨report, hreport⟩ := hposted' x List.mem_cons_self
    obtain ⟨hplace, hreads⟩ := reads_of_becomes hreport hx
    by_cases hid : x.place = id
    · rw [List.find?_cons_of_pos (by simp [hid])] at hm
      cases hm
      exact ⟨e.asVersion p.agent, by rw [List.find?_cons_of_pos (by simp [hplace, hid])]; rfl,
        hplace.trans hid, hreads⟩
    · rw [List.find?_cons_of_neg (by simp [hid])] at hm
      rw [List.find?_cons_of_neg (by simp [hplace, hid])]
      exact ih (fun y hy => hposted' y (List.mem_cons_of_mem x hy)) hm

/-- The entries of events that show messages, in order. -/
theorem exists_reads {find : String → Option Event} {shown : String → Option Message}
    (h : ∀ id m, shown id = some m → ∃ e, find id = some e ∧ e.id = id ∧ m.Reads e) :
    ∀ {ids : List String} {ms : List Message}, ids.map shown = ms.map some →
      ∃ es : List Event, ids.map find = es.map some ∧ es.map (·.id) = ids ∧ List.Forall₂ Message.Reads ms es
  | [], [], _ => ⟨[], rfl, rfl, .nil⟩
  | [], _ :: _, hms => by cases hms
  | _ :: _, [], hms => by cases hms
  | id :: ids, m :: ms, hms => by
    obtain ⟨hm, hms⟩ := List.cons.inj hms
    obtain ⟨e, hfind, hid, hreads⟩ := h id m hm
    obtain ⟨es, hfinds, hids, hall⟩ := exists_reads h hms
    exact ⟨e :: es, by rw [List.map_cons, List.map_cons, hfind, hfinds], by rw [List.map_cons, hid, hids],
      .cons hreads hall⟩

/-- The log is kept by every send of a publisher, and by what the others write between them. -/
theorem SharedRoom.exists_keeps {room : String} {wire : Wire} {coming : List (List Event)} {p p₁ p₂ : Publisher}
    {requests : List Request} {r : Reply} {room₁ room₂ : SharedRoom} {result : Except TransportFault String}
    (hrun : p.respondAll (SharedRoom.send room) (.ofWire wire coming) requests = (room₁, p₁))
    (hpublish : p₁.publish (SharedRoom.send room) room₁ r = (room₂, p₂, result)) :
    ∃ ours, SharedRoom.Keeps room wire.backend.sent room₂ ours := by
  have hsend : ∀ {q q' : SharedRoom} {post answer}, (∃ ours, SharedRoom.Keeps room wire.backend.sent q ours) →
      SharedRoom.send room q post = (q', answer) → ∃ ours, SharedRoom.Keeps room wire.backend.sent q' ours :=
    fun ⟨_, h⟩ => h.send
  exact Publisher.run_preserves hsend
    (Publisher.respondAll_preserves hsend ⟨[], SharedRoom.keeps_ofWire room wire coming⟩ hrun) hpublish

/-- **What is published reads back as one message.** In a room that others
write to as well, with any sends failing: when the last publish goes through,
the timeline has exactly one entry among the events of the chain, the first
of them, and it is the reply. What the others write has a timeline of its own
and nothing to do with these events. -/
theorem published_reads_back {σ : Type} {load : Timeline.Loader σ} {room agent : String} {c : Config.Publishing}
    {wire : Wire} {coming : List (List Event)} {requests : List Request} {r : Reply} {after : List Event}
    {room₁ room₂ : SharedRoom} {p₁ p₂ : Publisher} {id : String} {s₀ s₀' : σ} {timeline₀ : List Event}
    (hreports : ∀ q ∈ requests, q.isReport = false)
    (hgrows : List.IsChain Reply.GrowsTo (requests.filterMap (·.reply?) ++ [r]))
    (hrun : (Publisher.new room agent c).respondAll (SharedRoom.send room) (.ofWire wire coming) requests =
      (room₁, p₁))
    (hpublish : p₁.publish (SharedRoom.send room) room₁ r = (room₂, p₂, .ok id))
    (hforeign : ∀ e ∈ (room₂.hear after).others, e.room = room → e.Foreign p₂.eventIds)
    (hothers : (Timeline.reconstruct load ((room₂.hear after).others.filter (·.room = room))).Gives
      s₀ timeline₀ s₀') (s : σ) :
    ∃ timeline s' entry, (Timeline.reconstruct load ((room₂.hear after).timeline room)).Gives s timeline s' ∧
      timeline.filter (p₂.eventIds.contains ·.id) = [entry] ∧ p₂.firstId = some entry.id ∧
      entry.content.body = r.answer ∧ entry.content.reasoning = some r.reasoning ∧
      entry.content.commands =
        (if r.toolCalls.isEmpty then none else some (r.toolCalls.map (·.encode.toJson))) ∧
      entry.content.finished = some r.isFinished ∧ entry.content.hasContinuation = none := by
  have logs := SharedRoom.send_logs room
  obtain ⟨halike, new, hnew, hposted, hshows⟩ := Publisher.shows_of_publish logs rfl hreports hgrows hrun hpublish
  obtain ⟨ours, hkept⟩ := SharedRoom.exists_keeps hrun hpublish
  have hkept' := hkept.hear after
  obtain ⟨new', hnew', hbecomes⟩ := hkept'.becomes
  obtain rfl : new' = new := by
    have hsent : (room₂.hear after).sent = room₂.sent := (SharedRoom.foldl_push after room₂.wire.backend).2.1
    rw [hsent] at hnew'
    exact List.append_cancel_left (hnew'.symm.trans hnew)
  obtain ⟨full, hfull⟩ := hshows (hkept'.numbered.distinctIds hnew')
  obtain ⟨ids, ms, hids, hms, hshown⟩ := hfull.shownBy
  rw [Sent.replies_eq_self fun x hx => (hposted x hx).isReport_eq] at hms
  have heventIds : p₂.eventIds = ids := Publisher.eventIds_of_map hids
  rw [heventIds] at hforeign
  have hposted' : ∀ x ∈ new', ∃ report, (Publisher.new room agent c).Posted room report x :=
    fun x hx => ⟨false, hposted x hx⟩
  have hevents : ∀ e ∈ ours, e.Carrying agent ∧ e.effectiveId ∈ ids ∧ e.room = room := by
    intro e he
    obtain ⟨x, hx, hevent⟩ := SharedRoom.exists_of_becomes hbecomes he
    refine ⟨carrying_of_becomes (hposted x hx) hevent, ?_, hevent.room⟩
    rw [(reads_of_becomes (hposted x hx) hevent).1, ← heventIds]
    refine hfull.placed x ?_
    rw [Sent.replies_eq_self fun y hy => (hposted y hy).isReport_eq]
    exact hx
  have hshuffle := hkept'.shuffled.filter (·.room = room)
  rw [List.filter_eq_self.2 fun e he => decide_eq_true (hevents e he).2.2] at hshuffle
  obtain ⟨es, hfind, hesids, hreads⟩ := exists_reads (fun id m => find?_of_shown hbecomes hposted') hms
  rw [← hesids] at hshown
  obtain ⟨e, rest, rfl, hfirst, hlinked, hid, hreply⟩ := reads_reply hreads hshown
  have hnodup : ids.Nodup := by rw [← heventIds]; exact hfull.distinct
  obtain ⟨timeline, s', hgives, hfilter⟩ := Timeline.reconstruct_chain hshuffle (fun e he => (hevents e he).1)
    (fun e he => (hevents e he).2.1) hkept'.newer hnodup
    (fun e he => hforeign e (List.mem_filter.1 he).1 (of_decide_eq_true (List.mem_filter.1 he).2))
    hothers hfind hfirst hlinked s
  refine ⟨timeline, s', rest.foldl Event.absorb e, hgives, ?_, ?_, hreply⟩
  · rw [heventIds]
    exact hfilter
  · rw [hid, Publisher.firstId_of_map hids, ← hesids]
    rfl

/-! A friend writes between the bot's sends, one of which is lost. -/

/-- What the friend says, at some time. -/
def friendEvent (id : String) (time : Nat) : Event :=
  ⟨id, "!room", "@friend:example.org", .message, time, { Content.empty with body := "hello" }, none⟩

def sharedStart : SharedRoom × Publisher :=
  (Publisher.new "!room" "bot" ⟨2, 0, "thinking"⟩).respondAll (SharedRoom.send "!room")
    (.ofWire { Wire.new (.new "@bot:example.org") (fun _ => 10) with outcomes := [.normal, .lost .unavailable] }
      [[friendEvent "$a" 3], [], [friendEvent "$b" 5]]) [.opening, .publish (.ofText "" "ab")]

def sharedEnd : SharedRoom × Publisher × Except TransportFault String :=
  sharedStart.2.publish (SharedRoom.send "!room") sharedStart.1 (.ofText "" "abc")

/-- All that the friend says. -/
def friendEvents : List Event := [friendEvent "$a" 3, friendEvent "$b" 5, friendEvent "$c" 9]

/-- No file can be had. -/
def noFiles : Timeline.Loader Unit := fun file => throw (.attachmentFetch file.url .unavailable)

theorem published_reads_back_friend :
    sharedEnd.2.2 = .ok "$sent3" ∧ ∃ timeline s' entry,
      (Timeline.reconstruct noFiles ((sharedEnd.1.hear [friendEvent "$c" 9]).timeline "!room")).Gives () timeline s' ∧
        timeline.filter (sharedEnd.2.1.eventIds.contains ·.id) = [entry] ∧
        sharedEnd.2.1.firstId = some entry.id ∧ entry.content.body = "abc" ∧ entry.content.reasoning = some "" ∧
        entry.content.commands = none ∧ entry.content.finished = some false ∧
        entry.content.hasContinuation = none := by
  have hok : sharedEnd.2.2 = .ok "$sent3" := by decide +kernel
  have hids : sharedEnd.2.1.eventIds = ["$sent1", "$sent3"] := by decide +kernel
  have hothers : (sharedEnd.1.hear [friendEvent "$c" 9]).others = friendEvents := by with_unfolding_all rfl
  have hreports : ∀ q ∈ [.opening, .publish (.ofText "" "ab")], Request.isReport q = false := by decide
  have hgrows : List.IsChain Reply.GrowsTo [.ofText "" "ab", .ofText "" "abc"] :=
    List.isChain_pair.2 ⟨List.prefix_rfl, ⟨['c'], by decide⟩⟩
  have hpublish : sharedStart.2.publish (SharedRoom.send "!room") sharedStart.1 (.ofText "" "abc") =
      (sharedEnd.1, sharedEnd.2.1, .ok "$sent3") := Prod.ext rfl (Prod.ext rfl hok)
  have hforeign : ∀ e ∈ (sharedEnd.1.hear [friendEvent "$c" 9]).others, e.room = "!room" →
      e.Foreign sharedEnd.2.1.eventIds := by
    rw [hothers, hids]
    simp [Event.Foreign, friendEvents, friendEvent, Event.replacement, Event.replaces, Content.empty]
  have hreads : (Timeline.reconstruct noFiles
      ((sharedEnd.1.hear [friendEvent "$c" 9]).others.filter (·.room = "!room"))).Gives () friendEvents () := by
    rw [hothers]
    have hsorted : Timeline.byTime friendEvents = friendEvents := List.mergeSort_of_pairwise (by decide)
    refine Timeline.gives_of_reconstruct.2 ⟨friendEvents, [], friendEvents, rfl, rfl, ?_, hsorted.symm⟩
    rw [show Timeline.survivors _ = friendEvents from rfl, hsorted]
    rfl
  exact ⟨hok, published_reads_back hreports hgrows rfl hpublish hforeign hreads ()⟩

end ReplyStream
