/-
What the caller does with a reply. At every time between its calls the turn
has flushed, or is about to, some of the replies that were accumulated, in
their order, and the one that waits comes behind them (`Running`). A reply
that is scheduled is flushed at once or waits in place of the last; the last
reply of all is flushed behind everything (`flushNow_flushes`).
-/
import ReplyStream.Proofs.Turn.Ask

namespace ReplyStream.Turn

/-- What has been flushed from `start` on, with the value that waits behind
it, are some of the replies `acc` in their order. -/
def Told (start : Wire × Publisher) (acc : List Reply) (settled : Wire × Publisher × List Fault)
    (pending : Option Reply) : Prop :=
  ∃ flushed, start.2.flushAll (Wire.post start.2.room) start.1 flushed = settled ∧
    (flushed ++ pending.toList).Sublist acc

namespace Told

variable {start : Wire × Publisher} {acc : List Reply} {settled : Wire × Publisher × List Fault}
  {pending : Option Reply} {w w' : Wire} {p p' : Publisher} {faults : List Fault} {fault : Option Fault} {reply : Reply}

theorem wait (h : Told start acc settled pending) (reply : Reply) :
    Told start (acc ++ [reply]) settled (some reply) := by
  obtain ⟨flushed, hflushed, hsublist⟩ := h
  refine ⟨flushed, hflushed, ?_⟩
  exact ((List.sublist_append_left ..).trans hsublist).append (List.Sublist.refl [reply])

theorem drop (h : Told start acc settled pending) : Told start acc settled none := by
  obtain ⟨flushed, hflushed, hsublist⟩ := h
  refine ⟨flushed, hflushed, ?_⟩
  rw [Option.toList_none, List.append_nil]
  exact (List.sublist_append_left ..).trans hsublist

theorem flushAll_concat {flushed : List Reply}
    (hflushed : start.2.flushAll (Wire.post start.2.room) start.1 flushed = (w, p, faults))
    (hflush : p.flush (Wire.post p.room) w reply = (w', p', fault)) :
    start.2.flushAll (Wire.post start.2.room) start.1 (flushed ++ [reply]) = (w', p', faults ++ fault.toList) := by
  rw [Publisher.flushAll_room hflushed] at hflush
  exact Publisher.flushAll_concat hflushed hflush

theorem settles : Settles (Told start acc) := by
  rintro w w' p p' faults fault reply ⟨flushed, hflushed, hsublist⟩ hflush
  refine ⟨flushed ++ [reply], flushAll_concat hflushed hflush, ?_⟩
  rw [Option.toList_none, List.append_nil]
  exact hsublist

theorem flush (h : Told start acc (w, p, faults) pending)
    (hflush : p.flush (Wire.post p.room) w reply = (w', p', fault)) :
    Told start (acc ++ [reply]) (w', p', faults ++ fault.toList) none :=
  settles (h.wait reply) hflush

end Told

/-- What a flush under the lock of the caller's call leads to. -/
structure Flushed (t : Turn) (w₁ : Wire) (p₁ : Publisher) (fault : Option Fault) (isFinal : Bool) (v : Turn) :
    Prop where
  ordered : v.throttle.Ordered [] []
  flushing : v.throttle.isFlushing = false
  closed : v.throttle.isClosed = t.throttle.isClosed
  pending : v.throttle.pending = t.throttle.pending
  calls : v.throttle.calls = if isFinal then [(callerCall, .draining)] else []
  idle : v.Idle
  draft : v.draft = t.draft
  wire : v.wire.timeless = w₁
  publisher : v.office.publisher = p₁
  failures : v.failures = t.failures ++ fault.toList

theorem held_flush {t : Turn} {reply : Reply} {isFinal : Bool} {w₁ : Wire} {p₁ : Publisher} {fault : Option Fault}
    (hordered : t.throttle.Ordered [callerCall] []) (hidle : t.Idle)
    (hcalls : t.throttle.calls = [(callerCall, .flushing reply isFinal)])
    (hflush : t.office.publisher.flush (Wire.post t.office.publisher.room) t.wire.timeless reply = (w₁, p₁, fault)) :
    Flushed t w₁ p₁ fault isFinal
      { t.flush reply with throttle := (t.flush reply).throttle.finish (.call callerCall) } := by
  obtain ⟨hanswered, hfailures⟩ := flush_flushes ⟨hordered, .inl (by simp), hidle⟩ hflush
  obtain ⟨hordered', hkeeper, hclosed, hpending, hcalls'⟩ :=
    hanswered.ready.ordered.finish_call (hanswered.frame.calls.trans hcalls)
  exact {
    ordered := hordered'
    flushing := by
      have := hanswered.ready.ordered.barred (by simp)
      simp only [Throttle.isFlushing, hkeeper]
      exact this
    closed := hclosed.trans hanswered.frame.closed
    pending := hpending.trans hanswered.pending
    calls := hcalls'
    idle := hanswered.ready.idle.congr rfl rfl
    draft := hanswered.frame.draft
    wire := hanswered.wire
    publisher := hanswered.publisher
    failures := hfailures }

/-- Between the caller's calls to the throttle, before the last of them. -/
structure Running (start : Wire × Publisher) (acc : List Reply) (t : Turn) : Prop where
  tended : Tended (Told start acc) t [] t
  closed : t.throttle.isClosed = false
  calls : t.throttle.calls = []

namespace Running

variable {start : Wire × Publisher} {acc : List Reply} {t : Turn}

theorem passTo (h : Running start acc t) (time : Nat) :
    Running start acc (t.passTo time) ∧ (t.passTo time).draft = t.draft := by
  have htended := (Tended.invariant Told.settles t []).passTo h.tended time
  refine ⟨⟨?_, htended.frame.closed.trans h.closed, htended.frame.calls.trans h.calls⟩, htended.frame.draft⟩
  exact { htended with frame := .refl _ }

/-- The draft and the tally play no part in what is flushed. -/
theorem congr (h : Running start acc t) {u : Turn} (hthrottle : u.throttle = t.throttle)
    (hoffice : u.office = t.office) (hwire : u.wire = t.wire) (hreporting : u.reporting = t.reporting)
    (hfailures : u.failures = t.failures) : Running start acc u where
  tended := {
    frame := .refl u
    ordered := by
      rw [hthrottle]
      exact h.tended.ordered
    idle := fun hnot => by
      rw [hthrottle] at hnot
      exact (h.tended.idle hnot).congr hoffice hreporting
    asked := by
      rw [hthrottle, hoffice]
      exact h.tended.asked
    reported := by
      rw [hreporting, hoffice, hwire]
      exact h.tended.reported
    told := by
      have hsettled : u.settled = t.settled := by
        simp only [settled, hthrottle, hoffice, hwire, hreporting, hfailures]
      rw [hsettled, hthrottle]
      exact h.tended.told }
  closed := by rw [hthrottle, h.closed]
  calls := by rw [hthrottle, h.calls]

theorem set_draft (h : Running start acc t) (draft : Draft) : Running start acc { t with draft } :=
  h.congr rfl rfl rfl rfl rfl

theorem schedule (h : Running start acc t) (reply : Reply) :
    Running start (acc ++ [reply]) (t.schedule reply) ∧ (t.schedule reply).draft = t.draft := by
  cases hopen : t.throttle.isOpen with
  | true =>
    obtain ⟨hordered, hpending, hcalls, hclosed, hflushing⟩ := h.tended.ordered.wait hopen h.closed callerCall reply
    have hschedule : t.schedule reply = { t with throttle := t.throttle.schedule callerCall reply } := by
      have hphase : (t.throttle.schedule callerCall reply).phase? callerCall = none := by
        simp only [Throttle.phase?, hcalls, h.calls]
        rfl
      simp only [Turn.schedule, complete, hphase]
    rw [hschedule]
    refine ⟨⟨?_, hclosed, hcalls.trans h.calls⟩, rfl⟩
    exact {
      frame := .refl _
      ordered := hordered
      idle := fun hnot => (h.tended.idle (hflushing.symm.trans hnot)).congr rfl rfl
      asked := fun hflushing' => h.tended.asked (hflushing.symm.trans hflushing')
      reported := h.tended.reported
      told := by
        rw [settled_of_throttle hflushing]
        simp only [hpending]
        exact h.tended.told.wait reply }
  | false =>
    obtain ⟨hphase, hholds, throttle, henter, hordered, hflushing, hclosed, hcalls, hpending⟩ :=
      h.tended.ordered.lead hopen h.closed h.calls callerCall reply
    have hnot : t.throttle.isFlushing = false :=
      Throttle.isFlushing_eq_false (h.tended.ordered.line_eq_nil hopen h.closed).1
    have hidle := h.tended.idle hnot
    cases hflush : t.office.publisher.flush (Wire.post t.office.publisher.room) t.wire.timeless reply with
    | mk w₁ rest =>
      obtain ⟨p₁, fault⟩ := rest
      have hv := held_flush (t := { t with throttle }) hordered (hidle.congr rfl rfl) hcalls hflush
      have hschedule : t.schedule reply =
          { ({ t with throttle } : Turn).flush reply with
            throttle := (({ t with throttle } : Turn).flush reply).throttle.finish (.call callerCall) } := by
        have hnone : ((({ t with throttle } : Turn).flush reply).throttle.finish (.call callerCall)).phase? callerCall =
            none := by
          have hcalls' := hv.calls
          simp only [Throttle.phase?]
          rw [show (_ : Throttle Reply).calls = [] from hcalls']
          rfl
        simp only [Turn.schedule, complete, hphase]
        rw [await_of_done hholds]
        simp only [henter, hnone, Option.isSome_none, Bool.false_eq_true, if_false]
      rw [hschedule]
      refine ⟨⟨?_, hv.closed.trans hclosed, hv.calls⟩, hv.draft⟩
      have htold := h.tended.told
      rw [settled_of_not_flushing hnot] at htold
      exact {
        frame := .refl _
        ordered := hv.ordered
        idle := fun _ => hv.idle
        asked := fun hflushing' => absurd (hv.flushing.symm.trans hflushing') (by simp)
        reported := fun hreporting => by
          rw [hv.idle.reporting] at hreporting
          cases hreporting
        told := by
          rw [settled_of_not_flushing hv.flushing, hv.wire, hv.publisher, hv.failures, hv.pending.trans hpending]
          exact htold.flush hflush }

end Running

/-! ## The last reply -/

/-- When the keeper has ended, what it had begun to flush has been flushed. -/
theorem drain_ends {P : Wire × Publisher × List Fault → Option Reply → Prop} (hP : Settles P) {v : Turn}
    (h : Tended P v [] v) :
    v.drain.throttle.Ordered [] [] ∧ v.drain.throttle.keeper = none ∧ v.drain.Idle ∧ v.drain.draft = v.draft ∧
      P (v.drain.wire.timeless, v.drain.office.publisher, v.drain.failures) v.drain.throttle.pending := by
  obtain ⟨hdrained, hnone⟩ := (Tended.invariant hP v []).await
    (·.throttle.keeper.isNone) (fun hu hsome => hu.next_isSome (by simpa using hsome)) h
  have hkeeper : (v.await (·.throttle.keeper.isNone)).throttle.keeper = none := Option.isNone_iff_eq_none.1 hnone
  have hnot := Throttle.isFlushing_eq_false hkeeper
  have hordered := hdrained.ordered
  have htold := hdrained.told
  rw [settled_of_not_flushing hnot] at htold
  exact ⟨⟨hordered.line, hordered.barred, hordered.shut, hordered.watched, hordered.cleared⟩, hkeeper,
    (hdrained.idle hnot).congr rfl rfl, hdrained.frame.draft, htold⟩

/-- Waiting for the keeper to end flushes nothing when nothing waits. -/
theorem drain_still {v : Turn} (hordered : v.throttle.Ordered [] []) (hidle : v.Idle)
    (hflushing : v.throttle.isFlushing = false) (hpending : v.throttle.pending = none) :
    v.drain.throttle.Ordered [] [] ∧ v.drain.throttle.keeper = none ∧ v.drain.Idle ∧ v.drain.draft = v.draft ∧
      v.drain.settled = v.settled := by
  have htended : Tended (fun settled pending => settled = v.settled ∧ pending = none) v [] v := {
    frame := .refl v
    ordered := hordered
    idle := fun _ => hidle
    asked := fun hflushing' => absurd (hflushing.symm.trans hflushing') (by simp)
    reported := fun hreporting => by
      rw [hidle.reporting] at hreporting
      cases hreporting
    told := ⟨rfl, hpending⟩ }
  obtain ⟨hordered', hkeeper, hidle', hdraft, hsettled, -⟩ := drain_ends (fun h _ => by cases h.2) htended
  refine ⟨hordered', hkeeper, hidle', hdraft, ?_⟩
  rw [settled_of_not_flushing (Throttle.isFlushing_eq_false hkeeper), hsettled]

/-- What the last flush of a turn leads to: some of the replies `acc` have been
flushed, in their order, then `reply`, and all is quiet. -/
structure Finished (start : Wire × Publisher) (acc : List Reply) (reply : Reply) (t : Turn) : Prop where
  flushed : ∃ flushed w p faults fault, start.2.flushAll (Wire.post start.2.room) start.1 flushed = (w, p, faults) ∧
    flushed.Sublist acc ∧
    p.flush (Wire.post p.room) w reply = (t.wire.timeless, t.office.publisher, fault) ∧
    t.failures = faults ++ fault.toList
  ordered : t.throttle.Ordered [] []
  keeper : t.throttle.keeper = none
  idle : t.Idle

/-- The last call gets the lock when the keeper has flushed what it had begun to. -/
theorem closing_waits {start : Wire × Publisher} {acc : List Reply} {t : Turn} (h : Running start acc t)
    (reply : Reply) :
    ∃ u : Turn, u = ({ t with throttle := (t.throttle.flushNow callerCall reply).join (.call callerCall) } : Turn).await
        (·.throttle.holds (.call callerCall)) ∧
      u.throttle.Ordered [callerCall] [] ∧ u.throttle.isFlushing = false ∧ u.Idle ∧ u.draft = t.draft ∧
      u.throttle.calls = [(callerCall, .closing reply)] ∧ u.throttle.pending = none ∧
      Told start acc (u.wire.timeless, u.office.publisher, u.failures) none := by
  obtain ⟨-, hordered, hflushing, hcalls, hpending, -⟩ :=
    h.tended.ordered.closing h.closed h.calls callerCall reply
  obtain ⟨joined, hjoinedEq⟩ : ∃ joined : Turn,
      joined = { t with throttle := (t.throttle.flushNow callerCall reply).join (.call callerCall) } := ⟨_, rfl⟩
  have hjoined : Tended (fun settled pending => Told start acc settled pending ∧ pending = none) joined [callerCall]
      joined := by
    subst hjoinedEq
    exact {
      frame := .refl _
      ordered := hordered
      idle := fun hnot => (h.tended.idle (hflushing.symm.trans hnot)).congr rfl rfl
      asked := fun hflushing' => h.tended.asked (hflushing.symm.trans hflushing')
      reported := h.tended.reported
      told := by
        rw [settled_of_throttle hflushing, hpending]
        exact ⟨h.tended.told.drop, rfl⟩ }
  have hdue : ∀ {u : Turn}, Tended (fun settled pending => Told start acc settled pending ∧ pending = none) joined
      [callerCall] u → u.throttle.holds (.call callerCall) = false → u.next.isSome = true := by
    intro u hu hnot
    refine hu.next_isSome ?_
    cases hkeeper : u.throttle.keeper with
    | some _ => rfl
    | none => simp [Throttle.holds, hu.ordered.line, Throttle.stake_eq_nil hkeeper] at hnot
  obtain ⟨hwaited, hholds⟩ := (Tended.invariant (fun h _ => by cases h.2) joined [callerCall]).await
    (·.throttle.holds (.call callerCall)) hdue hjoined
  have hfirst := hwaited.ordered.holds_call hholds
  have hnot := hfirst.barred (by simp)
  obtain ⟨htold, hnone⟩ := hwaited.told
  rw [settled_of_not_flushing hnot, hnone] at htold
  refine ⟨_, by rw [hjoinedEq], hfirst, hnot, hwaited.idle hnot, ?_, ?_, hnone, htold⟩
  · rw [hwaited.frame.draft, hjoinedEq]
  · rw [hwaited.frame.calls, hjoinedEq]
    exact hcalls

/-- The last reply is flushed behind all that were taken up before, and what
waits is dropped. -/
theorem flushNow_flushes {start : Wire × Publisher} {acc : List Reply} {t : Turn} (h : Running start acc t)
    (reply : Reply) : Finished start acc reply (t.flushNow reply) ∧ (t.flushNow reply).draft = t.draft := by
  obtain ⟨hphase, -⟩ := h.tended.ordered.closing h.closed h.calls callerCall reply
  obtain ⟨u, hu, hordered, -, hidle, hdraft, hcalls, hnone, flushed, hflushed, hsublist⟩ := closing_waits h reply
  obtain ⟨throttle, henter, hordered', -, -, hcalls', hpending'⟩ := hordered.enter_closing hcalls
  rw [Option.toList_none, List.append_nil] at hsublist
  cases hflush : u.office.publisher.flush (Wire.post u.office.publisher.room) u.wire.timeless reply with
  | mk w₁ rest =>
    obtain ⟨p₁, fault⟩ := rest
    have hv := held_flush (t := { u with throttle }) hordered' (hidle.congr rfl rfl) hcalls' hflush
    obtain ⟨v, hvEq⟩ : ∃ v : Turn, v = { ({ u with throttle } : Turn).flush reply with
        throttle := (({ u with throttle } : Turn).flush reply).throttle.finish (.call callerCall) } := ⟨_, rfl⟩
    rw [← hvEq] at hv
    have hflushNow : t.flushNow reply = v.drain := by
      have hphase' : (v.throttle.phase? callerCall).isSome = true := by
        simp only [Throttle.phase?, hv.calls]
        rfl
      simp only [Turn.flushNow, complete, hphase]
      rw [← hu]
      simp only [henter]
      rw [← hvEq]
      rw [hvEq] at hphase'
      rw [if_pos hphase']
    obtain ⟨hordered'', hkeeper, hidle', hdraft', hsettled⟩ := drain_still hv.ordered hv.idle hv.flushing
      (hv.pending.trans (hpending'.trans hnone))
    rw [settled_of_not_flushing (Throttle.isFlushing_eq_false hkeeper), settled_of_not_flushing hv.flushing] at hsettled
    obtain ⟨hwire, hrest⟩ := Prod.mk.inj hsettled
    obtain ⟨hpublisher, hfailures⟩ := Prod.mk.inj hrest
    rw [hflushNow]
    refine ⟨⟨⟨flushed, u.wire.timeless, u.office.publisher, u.failures, fault, hflushed, hsublist, ?_, ?_⟩, hordered'',
      hkeeper, hidle'⟩, hdraft'.trans (hv.draft.trans hdraft)⟩
    · rw [hflush, hwire, hpublisher, hv.wire, hv.publisher]
    · rw [hfailures, hv.failures]

end ReplyStream.Turn
