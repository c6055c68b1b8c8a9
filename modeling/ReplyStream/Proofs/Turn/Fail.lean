/-
A turn whose model fails. To close the throttle is to drop the reply that
waits and to let the keeper end what it had begun to flush, with the report of
that flush if it fails (`close_ends`). Only then is the fault reported, so the
report is the last send of the turn and nothing comes behind it
(`run_fails`), whatever the window and however the deltas and the sends came
to lie in time.
-/
import ReplyStream.Proofs.Turn.Clock
import ReplyStream.Proofs.Turn.Deliver

namespace ReplyStream

namespace Publisher

variable {room : String} {w w' : Wire} {p p' : Publisher}

theorem post_report {first : String} (h : p.firstId = some first) (text : String) :
    (p.post (.report text)).target = some first ∧ (p.post (.report text)).message.body = Message.errorBody ∧
      (p.post (.report text)).message.errorMessage = some text :=
  ⟨h, String.ofList_toList, rfl⟩

theorem respondAll_length_le {requests : List Request} (h : p.respondAll (Wire.post room) w requests = (w', p')) :
    w.records.length ≤ w'.records.length :=
  respondAll_preserves (I := fun v => w.records.length ≤ v.records.length)
    (fun hle hpost => Nat.le_trans hle (Nat.le_of_lt (Wire.post_length_lt hpost))) (Nat.le_refl _) h

/-- A report behind the opening event and some flushes is the last send, in
place of that event. -/
theorem report_last {w₁ w₂ w₃ : Wire} {p₁ p₂ p₃ : Publisher} {first text : String} {rs : List Reply}
    {faults : List Fault} {result : Except TransportFault String} (hp : p.chain = [])
    (hopen : p.openUp (Wire.post room) w = (w₁, p₁, .ok first))
    (hflushes : p₁.flushAll (Wire.post room) w₁ rs = (w₂, p₂, faults))
    (hreport : p₂.report (Wire.post room) w₂ text = (w₃, p₃, result)) :
    ∃ r before, w₃.records = before ++ [r] ∧ w.records.length ≤ before.length ∧ r.target = some first ∧
      r.post.message.body = Message.errorBody ∧ r.post.message.errorMessage = some text := by
  obtain ⟨-, hfirst, -⟩ := openUp_begins (Wire.post_logs room) hp hopen
  obtain ⟨requests, hrequests, -, -⟩ := respondAll_of_flushAll hflushes
  have hopened : p.respondAll (Wire.post room) w [.opening] = (w₁, p₁) := by
    simp only [respondAll, respond, hopen]
  obtain ⟨r, hrecords, hpost⟩ := report_records hreport
  obtain ⟨htarget, hbody, hmessage⟩ := post_report ((flushAll_alike hflushes).begins first hfirst) text
  refine ⟨r, w₂.timeless.records, hrecords, ?_, ?_⟩
  · calc w.records.length ≤ w₁.records.length := respondAll_length_le hopened
      _ ≤ w₂.records.length := respondAll_length_le hrequests
      _ = w₂.timeless.records.length := (Wire.timeless_length w₂).symm
  · rw [SendRecord.target, hpost]
    exact ⟨htarget, hbody, hmessage⟩

end Publisher

namespace Turn

variable {start : Wire × Publisher} {acc : List Reply} {t : Turn}

/-! ## Until the model fails -/

/-- A wait for a time ends when that has come, unless the turn is canceled before. -/
theorem waitFor_some (t : Turn) (time : Nat) (cancelAt : Option Nat) :
    t.waitFor (some time) cancelAt = (t.passTo time, .due) ∧
        (∀ cancel, cancelAt = some cancel → (t.passTo time).now ≤ cancel) ∨
      ∃ cancel, cancelAt = some cancel ∧ cancel ≤ (t.passTo time).now ∧
        t.waitFor (some time) cancelAt = (t.passTo cancel, .canceled) := by
  rw [now_passTo]
  cases cancelAt with
  | none => exact .inl ⟨rfl, by simp⟩
  | some cancel =>
    by_cases hcancel : (cancel ≤ t.now || cancel < time) = true
    · refine .inr ⟨cancel, rfl, ?_, if_pos hcancel⟩
      simp only [Bool.or_eq_true, decide_eq_true_eq] at hcancel
      omega
    · refine .inl ⟨if_neg hcancel, fun other hother => ?_⟩
      cases hother
      simp only [Bool.or_eq_true, decide_eq_true_eq] at hcancel
      omega

theorem Running.canceled (h : Running start acc t) (time : Nat) :
    Running start acc (t.passTo time).cancel.1 ∧ (t.passTo time).cancel.1.draft.reply.isCanceled = true :=
  ⟨(h.passTo time).1.set_draft _, (t.passTo time).draft.cancel_reply.2.2⟩

/-- A turn takes the deltas before a fault when none of them is the last, and
then stops with the fault, unless it is canceled by the time `read.now` at which it
reads that. -/
theorem consume_fails {before : List (Nat × Except ModelFault Delta)}
    (hbefore : ∀ item ∈ before, ∃ delta, item.2 = .ok delta ∧ delta.finished = false) (h : Running start acc t)
    (hangs : Bool) (cancelAt : Option Nat) (delay : Nat) (cause : ModelFault)
    (rest : List (Nat × Except ModelFault Delta)) :
    ∃ read, consume hangs none (before ++ (delay, .error cause) :: rest) t = (read, some (.error cause)) ∧
      t.now ≤ read.now ∧
      ((∀ cancel, cancelAt = some cancel → read.now ≤ cancel) ∧ (∃ acc', Running start acc' read) ∧
          consume hangs cancelAt (before ++ (delay, .error cause) :: rest) t = (read, some (.error cause)) ∨
        ∃ cancel acc' t', cancelAt = some cancel ∧ cancel ≤ read.now ∧ Running start acc' t' ∧
          t'.draft.reply.isCanceled = true ∧
          consume hangs cancelAt (before ++ (delay, .error cause) :: rest) t = (t', some (.ok ()))) := by
  induction before generalizing t acc with
  | nil =>
    refine ⟨t.passTo (t.now + delay), rfl, le_now_passTo t _, ?_⟩
    simp only [List.nil_append, consume]
    rcases waitFor_some t (t.now + delay) cancelAt with ⟨hwait, hlate⟩ | ⟨cancel, hsome, hle, hwait⟩
    · rw [hwait]
      exact .inl ⟨hlate, ⟨acc, (h.passTo _).1⟩, rfl⟩
    · obtain ⟨hrunning, hcanceled⟩ := h.canceled cancel
      rw [hwait]
      exact .inr ⟨cancel, acc, _, hsome, hle, hrunning, hcanceled, rfl⟩
  | cons item before ih =>
    obtain ⟨delay', item⟩ := item
    obtain ⟨delta, rfl, hfinished⟩ := hbefore _ List.mem_cons_self
    have htaken := ((h.passTo (t.now + delay')).1.take delta).1
    -- the clock does not go back, so a cancel before this delta is one before the fault
    obtain ⟨read, hread, hle, hends⟩ := ih (fun item hitem => hbefore item (List.mem_cons_of_mem _ hitem)) htaken
    have hdue : (t.passTo (t.now + delay')).now ≤ read.now := Nat.le_trans (le_now_take (Nat.le_refl _) delta) hle
    refine ⟨read, ?_, Nat.le_trans (le_now_passTo t _) hdue, ?_⟩
    · simp only [List.cons_append, consume, waitFor, hfinished, Bool.false_eq_true, if_false]
      exact hread
    · simp only [List.cons_append, consume]
      rcases waitFor_some t (t.now + delay') cancelAt with ⟨hwait, -⟩ | ⟨cancel, hsome, hbefore', hwait⟩
      · rw [hwait]
        simp only [hfinished, Bool.false_eq_true, if_false]
        exact hends
      · obtain ⟨hrunning, hcanceled⟩ := h.canceled cancel
        rw [hwait]
        exact .inr ⟨cancel, acc, _, hsome, Nat.le_trans hbefore' hdue, hrunning, hcanceled, rfl⟩

/-! ## The report -/

/-- Closing ends what the keeper had begun to flush, and the keeper with it. -/
theorem close_ends (h : Running start acc t) :
    t.close.Ready [] ∧ t.close.throttle.keeper = none ∧
      Told start acc (t.close.wire.timeless, t.close.office.publisher, t.close.failures) none := by
  obtain ⟨hphase, hordered, hflushing, hpending⟩ := h.tended.ordered.shutting h.closed h.calls callerCall
  obtain ⟨v, hv⟩ : ∃ v : Turn, v = { t with throttle := t.throttle.close callerCall } := ⟨_, rfl⟩
  have hclosed : Tended (fun settled pending => Told start acc settled pending ∧ pending = none) v [] v := by
    subst hv
    exact {
      frame := .refl _
      ordered := hordered
      idle := fun hnot => (h.tended.idle (hflushing.symm.trans hnot)).congr rfl rfl
      asked := fun hflushing' => h.tended.asked (hflushing.symm.trans hflushing')
      reported := h.tended.reported
      told := by
        rw [settled_of_throttle hflushing, hpending]
        exact ⟨h.tended.told.drop, rfl⟩ }
  have hclose : t.close = v.drain := by
    simp only [Turn.close, complete, hphase, hv]
  obtain ⟨hordered', hkeeper, hidle, -, htold, hnone⟩ := drain_ends (fun h _ => by cases h.2) hclosed
  rw [hnone] at htold
  rw [hclose]
  exact ⟨⟨hordered', .inr hkeeper, hidle⟩, hkeeper, htold⟩

/-- A fault is reported behind all that was flushed, and nothing is left to
happen behind that. -/
theorem fail_reports (h : Running start acc t) (fault : Fault) :
    ∃ flushed w p faults result, start.2.flushAll (Wire.post start.2.room) start.1 flushed = (w, p, faults) ∧
      p.report (Wire.post p.room) w fault.message =
        ((t.fail fault).wire.timeless, (t.fail fault).office.publisher, result) ∧
      (t.fail fault).next = none := by
  obtain ⟨hready, hkeeper, flushed, hflushed, -⟩ := close_ends h
  cases hreport : t.close.office.publisher.report (Wire.post t.close.office.publisher.room) t.close.wire.timeless
      fault.message with
  | mk w rest =>
    obtain ⟨p, result⟩ := rest
    obtain ⟨u, hrequest, hanswered, -⟩ := request_answers (q := .report fault.message) (a := .reported) hready
      (by simp only [Publisher.respond, hreport]; rfl)
    have hfail : t.fail fault = u := by
      simp only [Turn.fail, hrequest]
    rw [hfail, hanswered.wire, hanswered.publisher]
    exact ⟨flushed, _, _, _, result, hflushed, hreport,
      hanswered.ready.idle.next_eq_none (hanswered.quiet hkeeper)⟩

/-- **A turn whose model fails ends with its fault.** When the first event
went through and none of the deltas before the fault is the last, the turn
returns the fault, unless it is canceled by the time at which it reads that; its last
send is a report in place of the first event, and nothing comes behind that. -/
theorem run_fails {room : String} {c : Config} {draft : Draft} {wire : Wire} {stream : ModelStream}
    {before rest : List (Nat × Except ModelFault Delta)} {delay : Nat} {cause : ModelFault} {first : String}
    (hitems : stream.items = before ++ (delay, .error cause) :: rest)
    (hbefore : ∀ item ∈ before, ∃ delta, item.2 = .ok delta ∧ delta.finished = false)
    (hbegin : (Turn.new room c draft wire).begin.2 = .ok first) (cancelAt : Option Nat) :
    ∃ read, consume stream.hangs none stream.items (Turn.new room c draft wire).begin.1 =
        (read, some (.error cause)) ∧
      ((∀ cancel, cancelAt = some cancel → read.now ≤ cancel) ∧
        (∃ t, (Turn.new room c draft wire).run stream cancelAt = (t, some (.error (.generation cause))) ∧
          (∃ r, t.wire.records.getLast? = some r ∧ wire.records.length < t.wire.records.length ∧
            r.target = some first ∧ r.post.message.body = Message.errorBody ∧
            r.post.message.errorMessage = some (Fault.generation cause).message) ∧
          t.next = none ∧ ∀ time, (t.passTo time).wire = t.wire) ∨
      ∃ cancel, cancelAt = some cancel ∧ cancel ≤ read.now ∧
        ∃ t outcome, (Turn.new room c draft wire).run stream cancelAt = (t, some (.ok outcome)) ∧
          outcome.isCanceled = true) := by
  obtain ⟨t₁, hbegun⟩ : ∃ t₁, (Turn.new room c draft wire).begin = (t₁, .ok first) := ⟨_, Prod.ext rfl hbegin⟩
  obtain ⟨w₁, p₁, hopen, hrunning, -, hroom⟩ := begin_running hbegun
  obtain ⟨read, hread, -, ⟨hlate, ⟨acc, hrunning'⟩, hfailed⟩ |
      ⟨cancel, acc, t₂, hsome, hle, hrunning', hcanceled, hended⟩⟩ :=
    consume_fails hbefore hrunning stream.hangs cancelAt delay cause rest
  · refine ⟨read, by rw [hbegun, hitems, hread], .inl ⟨hlate, ?_⟩⟩
    obtain ⟨flushed, w₂, p₂, faults, result, hflushed, hreport, hquiet⟩ :=
      fail_reports (t := { read with tally.failed := read.tally.failed + 1 }) (hrunning'.congr rfl rfl rfl rfl rfl)
        (.generation cause)
    rw [hroom] at hflushed
    rw [Publisher.flushAll_room hflushed, hroom] at hreport
    obtain ⟨r, before', hrecords, hlength, htarget, hbody, hmessage⟩ :=
      Publisher.report_last rfl hopen hflushed hreport
    obtain ⟨hlength', r', hr', hpost⟩ := Wire.getLast?_of_timeless hrecords
    refine ⟨_, by simp only [run, hbegun, hitems, hfailed], ⟨r', hr', ?_, ?_⟩, hquiet, passTo_of_quiet hquiet⟩
    · rw [hlength', ← Wire.timeless_length wire]
      exact Nat.lt_succ_of_le hlength
    · rw [SendRecord.target, hpost]
      exact ⟨htarget, hbody, hmessage⟩
  · refine ⟨read, by rw [hbegun, hitems, hread], .inr ⟨cancel, hsome, hle, ?_⟩⟩
    obtain ⟨u, -, hfinalize⟩ := finalize_finishes hrunning'
    simp only [run, hbegun, hitems, hended, hfinalize]
    rw [Draft.finish_reply]
    exact ⟨_, _, rfl, hcanceled⟩

/-! A model that fails while the reply that waited is on its way. -/

def failingTurn : Turn :=
  Turn.new "!room" shortConfig (.withPlaceholder shortConfig.publishing.thinkingMessage)
    { shortWire with outcomes := [.normal, .normal, .failing] }

def failingStream : ModelStream where
  items := [(0, .ok ⟨none, some "ab", none, false⟩), (10, .ok ⟨none, some "abcd", none, false⟩),
    (100, .error (.generation "boom"))]
  hangs := false

/-- The publish under way fails too, and is reported before the fault of the model. -/
theorem run_fails_publishing :
    ∃ t, failingTurn.run failingStream none = (t, some (.error (.generation (.generation "boom")))) ∧
      t.wire.records.map (·.post.message.errorMessage) =
        [none, none, none, some "failed to publish event: transport unavailable",
          some "model output failed: Text generation failed: boom"] ∧
      (∃ r, t.wire.records.getLast? = some r ∧ r.target = some "$sent1" ∧ r.post.message.body = Message.errorBody) ∧
      t.next = none := by
  have hrecords : (failingTurn.run failingStream none).1.wire.records.map (·.post.message.errorMessage) =
      [none, none, none, some "failed to publish event: transport unavailable",
        some "model output failed: Text generation failed: boom"] := by
    decide +kernel
  obtain ⟨first, hbegin, rfl⟩ : ∃ first, some failingTurn.begin.2 = some (.ok first) ∧ id first = "$sent1" :=
    exists_ok_of_map (by decide +kernel)
  have hitems : failingStream.items = failingStream.items.take 2 ++ (100, .error (.generation "boom")) :: [] := rfl
  have hbefore : ∀ item ∈ failingStream.items.take 2, ∃ delta, item.2 = .ok delta ∧ delta.finished = false := by
    simp [failingStream]
  obtain ⟨read, -, ⟨-, t, hrun, ⟨r, hr, -, htarget, hbody, -⟩, hquiet, -⟩ | ⟨_, hsome, -⟩⟩ :=
    run_fails (c := shortConfig) hitems hbefore (Option.some.inj hbegin) none
  · change failingTurn.run failingStream none = _ at hrun
    rw [hrun] at hrecords
    exact ⟨t, hrun, hrecords, ⟨r, hr, htarget, hbody⟩, hquiet⟩
  · cases hsome

/-- A fault behind the delta that says it is the last. -/
def finishedStream : ModelStream where
  items := [(0, .ok ⟨none, some "ab", none, true⟩), (0, .error (.generation "boom"))]
  hangs := false

/-- A turn looks no further than the delta that says it is the last: it
completes, and the fault behind that is not reported. -/
theorem finishedStream_completes :
    let turn := Turn.new "!room" .default (.withPlaceholder Config.default.publishing.thinkingMessage)
      (.new (.new "@aibot:localhost") fun _ => 0)
    turn.begin.2.toOption = some "$sent1" ∧
      ∃ t outcome, turn.run finishedStream none = (t, some (.ok outcome)) ∧ outcome.isCanceled = false ∧
        t.wire.records.map (·.post.message.errorMessage) = [none, none, none] := by
  intro turn
  have hend : ((turn.run finishedStream none).2.bind Except.toOption).map (·.isCanceled) = some false ∧
      (turn.run finishedStream none).1.wire.records.map (·.post.message.errorMessage) = [none, none, none] := by
    decide +kernel
  refine ⟨by decide +kernel, ?_⟩
  generalize turn.run finishedStream none = result at hend
  obtain ⟨t, result⟩ := result
  obtain ⟨hresult, hrecords⟩ := hend
  obtain ⟨outcome, rfl, hcanceled⟩ := exists_ok_of_map hresult
  exact ⟨t, outcome, rfl, hcanceled, hrecords⟩

end Turn

end ReplyStream
