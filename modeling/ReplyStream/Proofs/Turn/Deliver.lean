/-
A turn delivers its last reply. When no send fails, the events of the chain
show what the deltas add up to, whatever the window and whenever deltas come,
sends end and the turn is canceled; what was published on the way are replies
as they were accumulated, in their order (`run_delivers`).
-/
import ReplyStream.Proofs.Turn.Account

namespace ReplyStream.Turn

variable {t : Turn}

theorem passTo_of_quiet (h : t.next = none) (time : Nat) : (t.passTo time).wire = t.wire := by
  unfold passTo
  cases t.effort with
  | zero => rfl
  | succ limit =>
    rw [passTo.go, h]
    rfl

/-- The last reply of a turn is that of its deltas, finished, and canceled if
the turn was. -/
theorem Account.final_eq {t₀ : Turn} {stream : ModelStream} {first : String} {deltas : List Delta} {final : Reply}
    {outcome : Outcome} (h : Account t₀ stream first deltas final t outcome) :
    final = { (t₀.draft.fold deltas).reply with isFinished := true, isCanceled := outcome.isCanceled } := by
  obtain ⟨last, hends, hfinal⟩ := h.ends
  have hcanceled := h.isCanceled
  rw [Draft.finish_reply] at hfinal
  rw [hcanceled]
  rcases hends with ⟨rfl, -⟩ | rfl
  · rw [hfinal]
  · obtain ⟨htext, hcalls, hcanceled'⟩ := (t₀.draft.fold deltas).cancel_reply
    have hreasoning := String.toList_inj.1 (congrArg Part.reasoning htext)
    have hanswer := String.toList_inj.1 (congrArg Part.answer htext)
    rw [hfinal]
    dsimp only
    rw [hreasoning, hanswer, hcalls]

/-- What is flushed in a turn goes on where the replies before it end. -/
theorem Account.isChain {room : String} {c : Config} {wire : Wire} {stream : ModelStream} {first : String}
    {deltas : List Delta} {final : Reply} {outcome : Outcome} {flushed : List Reply}
    (h : Account (Turn.new room c (.withPlaceholder c.publishing.thinkingMessage) wire) stream first deltas final t
      outcome)
    (hthinking : Text.byteLength c.publishing.thinkingMessage.toList ≤ max c.publishing.eventSizeMax 1)
    (hsnapshots : List.IsChain (· <+: ·) (Draft.snapshots stream.deltas))
    (hflushed : flushed.Sublist ((Draft.withPlaceholder c.publishing.thinkingMessage).changes deltas)) :
    List.IsChain (Reply.Follows (max c.publishing.eventSizeMax 1)) (flushed ++ [final]) := by
  have hall := Draft.pairwise_changes (Draft.held_withPlaceholder hthinking)
    (Draft.isChain_snapshots_of_prefix h.taken hsnapshots)
  have hsome := (List.pairwise_cons.1 hall).2.sublist (hflushed.append (List.Sublist.refl _))
  obtain ⟨hpairwise, -, hlast⟩ := List.pairwise_append.1 hsome
  refine (List.pairwise_append.2 ⟨hpairwise, List.pairwise_singleton .., fun r hr r' hr' => ?_⟩).isChain
  obtain rfl := List.mem_singleton.1 hr'
  refine (hlast r hr _ (List.mem_singleton_self _)).of_text ?_
  rw [h.final_eq]
  rfl

/-- **A turn delivers its last reply.** -/
theorem run_delivers {room : String} {c : Config} {wire : Wire} {stream : ModelStream} {cancelAt : Option Nat}
    {outcome : Outcome}
    (hthinking : Text.byteLength c.publishing.thinkingMessage.toList ≤ max c.publishing.eventSizeMax 1)
    (hsnapshots : List.IsChain (· <+: ·) (Draft.snapshots stream.deltas))
    (hrun : (Turn.new room c (.withPlaceholder c.publishing.thinkingMessage) wire).run stream cancelAt =
      (t, some (.ok outcome)))
    (hsends : t.wire.failed = wire.failed) :
    let start := Turn.new room c (.withPlaceholder c.publishing.thinkingMessage) wire
    let deltas := taken cancelAt stream.items start.begin.1
    let final := { (start.draft.fold deltas).reply with isFinished := true, isCanceled := outcome.isCanceled }
    (∃ opening more ms, t.wire.backend.sent = wire.backend.sent ++ (opening :: more) ∧ opening.replaces = none ∧
      start.begin.2 = .ok opening.eventId ∧ outcome.eventIds.head? = some opening.eventId ∧
      outcome.eventIds.map (Sent.shown (opening :: more)) = ms.map some ∧
      final.ShownBy (max c.publishing.eventSizeMax 1) outcome.eventIds ms) ∧
    (∃ published, published.Sublist (start.draft.changes deltas) ∧
      ((Publisher.new room c.identity.agentId c.publishing).respondAll (Wire.post room) wire.timeless
        (.opening :: (published ++ [final]).map .publish)).1 = t.wire.timeless) ∧
    deltas <+: stream.deltas ∧
    (outcome.isCanceled = false →
      deltas = stream.deltas ∨ ∃ delta, deltas.getLast? = some delta ∧ delta.finished = true) ∧
    t.next = none ∧ ∀ time, (t.passTo time).wire = t.wire := by
  intro start deltas final
  obtain ⟨t₁, first, final', hbegin, haccount⟩ := run_accounts hrun
  have hdeltas : taken cancelAt stream.items t₁ = deltas := by
    simp only [deltas, start, hbegin]
  rw [hdeltas] at haccount
  have hfinal : final' = final := haccount.final_eq
  rw [hfinal] at haccount
  obtain ⟨w₁, p₁, flushed, w₂, p₂, faults, fault, hopen, hflushed, hlast, hsublist, -⟩ := haccount.flushed
  rw [show (Turn.new room c (.withPlaceholder c.publishing.thinkingMessage) wire).office.publisher =
    .new room c.identity.agentId c.publishing from rfl] at hopen hflushed hlast
  change Publisher.openUp (Wire.post room) wire.timeless _ = _ at hopen
  change Publisher.flushAll (Wire.post room) _ _ _ = _ at hflushed
  change Publisher.flush (Wire.post room) _ _ _ = _ at hlast
  obtain ⟨rfl, rfl⟩ := Publisher.faultless_of_failed hopen hflushed hlast
    (by rw [Wire.timeless_failed, Wire.timeless_failed, hsends])
  obtain ⟨halike, hfirst, more, full, hsent, hshows, -, hreports⟩ :=
    Publisher.shows_of_flushAll rfl hopen hflushed hlast (haccount.isChain hthinking hsnapshots hsublist)
  refine ⟨?_, ⟨flushed, hsublist, ?_⟩, haccount.taken, ?_, haccount.quiet, passTo_of_quiet haccount.quiet⟩
  · obtain ⟨ids, ms, hids, hms, hshown⟩ := hshows.shownBy
    obtain rfl := Publisher.eventIds_of_map hids
    rw [Sent.replies_eq_self (hreports rfl)] at hms
    rw [halike.ceiling] at hshown
    rw [haccount.eventIds]
    refine ⟨_, more, ms, hsent, rfl, congrArg Prod.snd hbegin, ?_, hms, hshown⟩
    rw [← hshows.toCarries.firstId_eq, hfirst]
    rfl
  · rw [Publisher.respondAll_of_faultless hopen hflushed hlast]
  · intro hcanceled
    obtain ⟨last, ⟨-, hwhole⟩ | hcancel, hlastFinal⟩ := haccount.ends
    · exact hwhole
    · rw [haccount.isCanceled, hlastFinal, hcancel, Draft.finish_reply] at hcanceled
      rw [show _ = true from (start.draft.fold deltas).cancel_reply.2.2] at hcanceled
      cases hcanceled

/-! A reply that grows past one event while its window is open. -/

/-- Four bytes to an event. -/
def shortConfig : Config := { Config.default with publishing := ⟨4, 100, "..."⟩ }

def shortStream : ModelStream where
  items := [(0, .ok ⟨none, some "ab", none, false⟩), (10, .ok ⟨some "hm", some "abcdef", none, false⟩),
    (10, .ok ⟨none, some "abcdefg", none, false⟩), (200, .ok ⟨none, some "abcdefghi", none, true⟩)]
  hangs := false

def shortWire : Wire := .new (.new "@bot:example.org") fun _ => 30

def shortTurn : Turn :=
  Turn.new "!room" shortConfig (.withPlaceholder shortConfig.publishing.thinkingMessage) shortWire

theorem exists_ok_of_map {α β ε : Type} {o : Option (Except ε α)} {f : α → β} {b : β}
    (h : (o.bind Except.toOption).map f = some b) : ∃ a, o = some (.ok a) ∧ f a = b := by
  obtain ⟨a, ha, rfl⟩ := Option.map_eq_some_iff.1 h
  obtain ⟨result, rfl, hresult⟩ := Option.bind_eq_some_iff.1 ha
  cases result with
  | error fault => cases hresult
  | ok a' =>
    obtain rfl := Option.some.inj hresult
    exact ⟨a', rfl, rfl⟩

theorem run_delivers_short :
    ∃ t outcome, shortTurn.run shortStream none = (t, some (.ok outcome)) ∧
      outcome.eventIds = ["$sent1", "$sent4", "$sent5"] ∧ t.wire.failed = shortWire.failed ∧
      ∃ (opening : Sent) (more : List Sent) (ms : List Message),
        t.wire.backend.sent = shortWire.backend.sent ++ (opening :: more) ∧
        outcome.eventIds.map (Sent.shown (opening :: more)) = ms.map some ∧
        String.join (ms.map fun m => m.reasoning.getD "") = "hm" ∧
        String.join (ms.map (·.body)) = "abcdefghi" := by
  have hend : ((shortTurn.run shortStream none).2.bind Except.toOption).map (·.eventIds) =
      some ["$sent1", "$sent4", "$sent5"] ∧ (shortTurn.run shortStream none).1.wire.failed = shortWire.failed := by
    decide +kernel
  have hsnapshots : List.IsChain (· <+: ·) (Draft.snapshots shortStream.deltas) := by decide +kernel
  have hfold : (shortTurn.draft.fold (taken none shortStream.items shortTurn.begin.1)).reply =
      ⟨"hm", "abcdefghi", [], true, false⟩ := by
    decide +kernel
  generalize hrun : shortTurn.run shortStream none = result at hend
  obtain ⟨t, result⟩ := result
  obtain ⟨hresult, hsends⟩ := hend
  obtain ⟨outcome, rfl, hids⟩ := exists_ok_of_map hresult
  obtain ⟨⟨opening, more, ms, hsent, -, -, -, hms, hshown⟩, -⟩ :=
    run_delivers (c := shortConfig) (by decide) hsnapshots hrun hsends
  refine ⟨t, outcome, rfl, hids, hsends, opening, more, ms, hsent, hms, ?_, ?_⟩
  · exact hshown.reasoning.trans (congrArg Reply.reasoning hfold)
  · exact hshown.answer.trans (congrArg Reply.answer hfold)

end ReplyStream.Turn
