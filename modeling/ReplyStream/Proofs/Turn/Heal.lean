/-
What becomes of a failure that was reported. A publish that fails is reported
in place of the first event, and the next publish goes on at the end of the
chain. So a turn whose last reply was published leaves the chain showing it
exactly when no failure was reported behind an event that was full
(`run_heals_iff`); a chain of more than one event can keep the report for
good (`hiddenTurn_unhealed`).
-/
import ReplyStream.Proofs.Turn.Deliver

namespace ReplyStream.Turn

variable {t : Turn}

/-- **What becomes of a report.** When the last send of a turn is one of its
reply, the events of the chain show that reply exactly when no report was
sent behind a message that another event continues. -/
theorem run_heals_iff {room : String} {c : Config} {wire : Wire} {stream : ModelStream} {cancelAt : Option Nat}
    {outcome : Outcome}
    (hthinking : Text.byteLength c.publishing.thinkingMessage.toList ≤ max c.publishing.eventSizeMax 1)
    (hsnapshots : List.IsChain (· <+: ·) (Draft.snapshots stream.deltas))
    (hrun : (Turn.new room c (.withPlaceholder c.publishing.thinkingMessage) wire).run stream cancelAt =
      (t, some (.ok outcome)))
    (hlast : ∃ x, t.wire.lastResult = some (.ok x) ∧ x.isReport = false) :
    let start := Turn.new room c (.withPlaceholder c.publishing.thinkingMessage) wire
    let deltas := taken cancelAt stream.items start.begin.1
    let final := { (start.draft.fold deltas).reply with isFinished := true, isCanceled := outcome.isCanceled }
    ∃ sent, t.wire.backend.sent = wire.backend.sent ++ sent ∧
      ((∃ ms, outcome.eventIds.map (Sent.shown sent) = ms.map some ∧
          final.ShownBy (max c.publishing.eventSizeMax 1) outcome.eventIds ms) ↔ Sent.Timely sent) := by
  intro start deltas final
  obtain ⟨t₁, first, final', hbegin, haccount⟩ := run_accounts hrun
  have hdeltas : taken cancelAt stream.items t₁ = deltas := by
    simp only [deltas, start, hbegin]
  rw [hdeltas] at haccount
  have hfinal : final' = final := haccount.final_eq
  rw [hfinal] at haccount
  obtain ⟨w₁, p₁, flushed, w₂, p₂, faults, fault, hopen, hflushed, hflush, hsublist, -⟩ := haccount.flushed
  -- the last send is no report, so the last publish went through
  obtain rfl : fault = none := by
    cases fault with
    | none => rfl
    | some fault =>
      obtain ⟨x, hx, hreport⟩ := hlast
      rw [← Wire.timeless_lastResult] at hx
      rw [Publisher.flush_lastResult hflush x hx] at hreport
      cases hreport
  obtain ⟨halike, hfirst, more, full, hsent, hshows, hplaces, -⟩ :=
    Publisher.shows_of_flushAll rfl hopen hflushed hflush (haccount.isChain hthinking hsnapshots hsublist)
  have hiff := hshows.shownBy_iff_timely fun x hx hreport => by rw [hplaces x hx hreport, hfirst]
  rw [halike.ceiling, ← haccount.eventIds] at hiff
  exact ⟨_, hsent, hiff⟩

/-! A reply that is reported behind its first event keeps the report. -/

def healingTurn (outcomes : List ReplyStream.Outcome) : Turn :=
  Turn.new "!room" shortConfig (.withPlaceholder shortConfig.publishing.thinkingMessage)
    { Wire.new (.new "@bot:example.org") fun _ => 0 with outcomes }

/-- The first publish fails, when the reply is one event. -/
def healedStream : ModelStream where
  items := [(0, .ok ⟨none, some "ab", none, false⟩), (1000, .ok ⟨none, some "abcdef", none, false⟩)]
  hangs := false

/-- The second publish fails, when the reply is two events. -/
def hiddenStream : ModelStream where
  items := [(0, .ok ⟨none, some "abcdef", none, false⟩), (1000, .ok ⟨none, some "abcdefg", none, false⟩)]
  hangs := false

theorem run_heals_iff_healed :
    ∃ t outcome, (healingTurn [.normal, .failing]).run healedStream none = (t, some (.ok outcome)) ∧
      outcome.eventIds = ["$sent1", "$sent4"] ∧
      t.wire.backend.sent.map Sent.isReport = [false, true, false, false, false] ∧
      ∃ ms : List Message, outcome.eventIds.map (Sent.shown t.wire.backend.sent) = ms.map some ∧
        String.join (ms.map (·.body)) = "abcdef" ∧ ∀ m ∈ ms, m.errorMessage = none := by
  have hend : (((healingTurn [.normal, .failing]).run healedStream none).2.bind Except.toOption).map (·.eventIds) =
      some ["$sent1", "$sent4"] ∧
      (((healingTurn [.normal, .failing]).run healedStream none).1.wire.lastResult.bind Except.toOption).map
        Sent.isReport = some false ∧
      ((healingTurn [.normal, .failing]).run healedStream none).1.wire.backend.sent.map Sent.isReport =
        [false, true, false, false, false] ∧
      Sent.Timely ((healingTurn [.normal, .failing]).run healedStream none).1.wire.backend.sent := by
    decide +kernel
  have hsnapshots : List.IsChain (· <+: ·) (Draft.snapshots healedStream.deltas) := by decide +kernel
  have hanswer : ((healingTurn [.normal, .failing]).draft.fold
      (taken none healedStream.items (healingTurn [.normal, .failing]).begin.1)).reply.answer = "abcdef" := by
    decide +kernel
  generalize hrun : (healingTurn [.normal, .failing]).run healedStream none = result at hend
  obtain ⟨t, result⟩ := result
  obtain ⟨hresult, hlast, hreports, htimely⟩ := hend
  obtain ⟨outcome, rfl, hids⟩ := exists_ok_of_map hresult
  obtain ⟨sent, hsent, hiff⟩ :=
    run_heals_iff (c := shortConfig) (by decide) hsnapshots hrun (exists_ok_of_map hlast)
  obtain rfl : t.wire.backend.sent = sent := hsent
  obtain ⟨ms, hms, hshown⟩ := hiff.2 htimely
  exact ⟨t, outcome, rfl, hids, hreports, ms, hms, hshown.answer.trans hanswer, hshown.faultless⟩

/-- The report of the second publish stays in the first event of the reply
to the end, though the last publish goes through. -/
theorem hiddenTurn_unhealed :
    ∃ t outcome, (healingTurn [.normal, .normal, .normal, .failing]).run hiddenStream none =
        (t, some (.ok outcome)) ∧
      Text.byteLength shortConfig.publishing.thinkingMessage.toList ≤ shortConfig.publishing.eventSizeMax ∧
      List.IsChain (· <+: ·) (Draft.snapshots hiddenStream.deltas) ∧
      (∃ x, t.wire.lastResult = some (.ok x) ∧ x.isReport = false) ∧
      (∃ id ∈ outcome.eventIds, Sent.Hidden t.wire.backend.sent id) ∧
      ¬ ∃ (r : Reply) (ms : List Message), outcome.eventIds.map (Sent.shown t.wire.backend.sent) = ms.map some ∧
        r.ShownBy shortConfig.publishing.eventSizeMax outcome.eventIds ms := by
  have hend : (((healingTurn [.normal, .normal, .normal, .failing]).run hiddenStream none).2.bind
        Except.toOption).map (·.eventIds) = some ["$sent1", "$sent3"] ∧
      (((healingTurn [.normal, .normal, .normal, .failing]).run hiddenStream none).1.wire.lastResult.bind
        Except.toOption).map Sent.isReport = some false ∧
      ((Sent.shown ((healingTurn [.normal, .normal, .normal, .failing]).run hiddenStream none).1.wire.backend.sent
        "$sent1").map (·.errorMessage)) = some (some "failed to publish event: transport unavailable") := by
    decide +kernel
  generalize (healingTurn [.normal, .normal, .normal, .failing]).run hiddenStream none = result at hend
  obtain ⟨t, result⟩ := result
  obtain ⟨hresult, hlast, hreport⟩ := hend
  obtain ⟨outcome, rfl, hids⟩ := exists_ok_of_map hresult
  obtain ⟨m, hm, herror⟩ := Option.map_eq_some_iff.1 hreport
  refine ⟨t, outcome, rfl, by decide, by decide +kernel, exists_ok_of_map hlast,
    ⟨"$sent1", by simp [hids], m, hm, by simp [herror]⟩, ?_⟩
  rintro ⟨r, ms, hms, hshown⟩
  have hmem : m ∈ ms := by
    have : some m ∈ ms.map some := by
      rw [← hms, ← hm]
      exact List.mem_map_of_mem (by simp [hids])
    simpa using this
  rw [hshown.faultless m hmem] at herror
  cases herror

end ReplyStream.Turn
