/-
What becomes of publishes that fail. A publish stops at the first of its sends
that fails, and one more send follows, the report of it
(`Publisher.FlushRecord`); so the faults of a row of flushes are known from the
records of the wire (`Publisher.flushAll_records`).

A turn whose model does not fail goes on over all of that, and returns unless
its model hangs for ever (`Turn.consume_ends`). Its outcome holds the fault of
every publish that failed, in their order, and no other
(`Turn.run_tells_failures`).
-/
import ReplyStream.Proofs.Turn.Fail

namespace ReplyStream

/-! ## The records of a flush -/

namespace Publisher

/-- The fault of a publish whose last send had a result. -/
def faultOf {β : Type} : Except TransportFault β → Option Fault
  | .ok _ => none
  | .error cause => some (.publish cause)

theorem faultOf_map {β γ : Type} (f : β → γ) (result : Except TransportFault β) :
    faultOf (result.map f) = faultOf result := by
  cases result <;> rfl

/-- The records of a reply that was flushed: the sends of its publish, and the
report behind them. -/
structure FlushRecord where
  reply : Reply
  sends : List SendRecord
  report : Option SendRecord

namespace FlushRecord

def records (f : FlushRecord) : List SendRecord := f.sends ++ f.report.toList

/-- The fault of the publish: that of its last send. -/
def fault (f : FlushRecord) : Option Fault := f.sends.getLast?.bind (faultOf ·.result)

/-- A publish stops at the first send that fails. Then its fault is reported
in place of event `first`, by one send; else there is no report. -/
structure Told (first : String) (f : FlushRecord) : Prop where
  sent : f.sends ≠ []
  stops : ∀ r ∈ f.sends.dropLast, r.result.isOk = true
  replies : ∀ r ∈ f.sends, r.post.message.errorMessage = none
  silent : f.fault = none → f.report = none
  reported : ∀ fault, f.fault = some fault → ∃ r, f.report = some r ∧ r.target = some first ∧
    r.post.message.body = Message.errorBody ∧ r.post.message.errorMessage = some fault.message

end FlushRecord

variable {room : String} {w w' : Wire} {p p' : Publisher} {first : String}

theorem post_timeless {post : Post} {result : Except TransportFault String}
    (h : Wire.post room w post = (w', result)) : w'.timeless = w' := by
  obtain ⟨v, now, -, rfl⟩ := Wire.send_of_post h
  simp [Wire.timeless, Function.comp_def]

theorem post_errorMessage {e : Errand} (h : e.isReport = false) : (p.post e).message.errorMessage = none := by
  cases e with
  | opening => rfl
  | publish reply parts => cases parts <;> rfl
  | report text => cases h

/-- What an errand leaves in the records: sends that went through, and a last
one that ends it, with its result. -/
theorem run_records {w w' : Wire} {p p' : Publisher} {e : Errand} {result : Except TransportFault String}
    (hw : w.timeless = w)
    (h : p.run (Wire.post room) w e = (w', p', result)) :
    w'.timeless = w' ∧ ∃ sends last, w'.records = w.records ++ (sends ++ [last]) ∧
      (∀ r ∈ sends, r.result.isOk = true) ∧ last.result.map (·.eventId) = result ∧
      (e.isReport = false → ∀ r ∈ sends ++ [last], r.post.message.errorMessage = none) := by
  obtain ⟨w₁, answer, hsend, hcases⟩ := run_cases h
  obtain ⟨r, hrecords, hpost, hresult⟩ := Wire.post_records hsend
  have hw₁ := post_timeless hsend
  rw [hw] at hrecords
  have hkind : e.isReport = false → r.post.message.errorMessage = none := by
    intro hreport
    rw [hpost]
    exact post_errorMessage hreport
  rcases hcases with ⟨p₁, e₁, hheard, hrun⟩ | ⟨rfl, hheard⟩
  · obtain ⟨hw', sends, last, hrecords', hok, hlast, hkinds⟩ := run_records hw₁ hrun
    refine ⟨hw', r :: sends, last, by rw [hrecords', hrecords]; simp, ?_, hlast, ?_⟩
    · refine List.forall_mem_cons.2 ⟨?_, hok⟩
      have hanswer := isOk_of_heard_next hheard
      rw [← hresult] at hanswer
      cases hr : r.result with
      | ok sent => rfl
      | error fault => rw [hr] at hanswer; cases hanswer
    · intro hreport
      refine List.forall_mem_cons.2 ⟨hkind hreport, hkinds ?_⟩
      exact (isReport_of_heard_next hheard).1
  · refine ⟨hw₁, [], r, by rw [hrecords]; rfl, by simp, ?_, ?_⟩
    · rw [hresult, result_of_heard_ended hheard]
    · intro hreport s hs
      obtain rfl := List.mem_singleton.1 hs
      exact hkind hreport
termination_by e.posts
decreasing_by exact posts_lt_of_heard_next ‹_›

theorem FlushRecord.fault_of_last (r : Reply) (sends : List SendRecord) (report : Option SendRecord)
    {last : SendRecord} {result : Except TransportFault String}
    (hlast : last.result.map (·.eventId) = result) :
    (FlushRecord.mk r (sends ++ [last]) report).fault = faultOf result := by
  simp only [fault, List.getLast?_concat, Option.bind_some]
  rw [← hlast, faultOf_map]

/-- A flush leaves the records of its publish, and that of its report if the publish fails. -/
theorem flush_records {r : Reply} {fault : Option Fault} (hw : w.timeless = w) (hfirst : p.firstId = some first)
    (h : p.flush (Wire.post room) w r = (w', p', fault)) :
    w'.timeless = w' ∧ p'.firstId = some first ∧ ∃ f : FlushRecord, f.Told first ∧ f.reply = r ∧ f.fault = fault ∧
      w'.records = w.records ++ f.records := by
  obtain ⟨requests, hrequests, -⟩ := respondAll_of_flush h
  have hbegun := (respondAll_appends (Wire.post_logs room) hrequests).1.begins first hfirst
  rcases flush_cases h with ⟨id, hpublish, rfl⟩ | ⟨cause, w₁, p₁, result, hpublish, hreport, rfl⟩
  · obtain ⟨hw', sends, last, hrecords, hok, hlast, hkinds⟩ := run_records hw hpublish
    have hfault := FlushRecord.fault_of_last r sends none hlast
    refine ⟨hw', hbegun, ⟨r, sends ++ [last], none⟩, ?_, rfl, hfault, ?_⟩
    · exact {
        sent := by simp
        stops := by simpa using hok
        replies := hkinds rfl
        silent := fun _ => rfl
        reported := fun fault hsome => by rw [hfault] at hsome; cases hsome }
    · simp [hrecords, FlushRecord.records]
  · obtain ⟨hw₁, sends, last, hrecords, hok, hlast, hkinds⟩ := run_records hw hpublish
    obtain ⟨hw', -⟩ := run_records hw₁ hreport
    have hbegun' := (publish_appends (Wire.post_logs room) hpublish).1.begins first hfirst
    obtain ⟨report, hrecords', hpost⟩ := report_records hreport
    have hfault := FlushRecord.fault_of_last r sends (some report) hlast
    refine ⟨hw', hbegun, ⟨r, sends ++ [last], some report⟩, ?_, rfl, hfault, ?_⟩
    · exact {
        sent := by simp
        stops := by simpa using hok
        replies := hkinds rfl
        silent := fun hnone => by rw [hfault] at hnone; cases hnone
        reported := fun fault hsome => by
          obtain rfl := Option.some.inj (hfault.symm.trans hsome)
          refine ⟨report, rfl, ?_⟩
          rw [SendRecord.target, hpost]
          exact post_report hbegun' _ }
    · rw [hrecords', hw₁, hrecords]
      simp [FlushRecord.records]

/-- **The records of a row of flushes**, one behind the other. -/
theorem flushAll_records {rs : List Reply} {faults : List Fault} (hw : w.timeless = w)
    (hfirst : p.firstId = some first) (h : p.flushAll (Wire.post room) w rs = (w', p', faults)) :
    ∃ flushes : List FlushRecord, (∀ f ∈ flushes, f.Told first) ∧ flushes.map (·.reply) = rs ∧
      flushes.filterMap (·.fault) = faults ∧ w'.records = w.records ++ flushes.flatMap (·.records) := by
  induction rs generalizing w p faults with
  | nil =>
    cases h
    exact ⟨[], by simp, rfl, rfl, by simp⟩
  | cons r rs ih =>
    cases hflush : p.flush (Wire.post room) w r with
    | mk w₁ rest =>
      obtain ⟨p₁, fault⟩ := rest
      cases hrest : p₁.flushAll (Wire.post room) w₁ rs
      simp only [flushAll, hflush, hrest] at h
      cases h
      obtain ⟨hw₁, hfirst₁, f, htold, hreply, hfault, hrecords⟩ := flush_records hw hfirst hflush
      obtain ⟨flushes, htolds, hreplies, hfaults, hrecords'⟩ := ih hw₁ hfirst₁ hrest
      refine ⟨f :: flushes, List.forall_mem_cons.2 ⟨htold, htolds⟩, ?_, ?_, ?_⟩
      · rw [List.map_cons, hreply, hreplies]
      · rw [← hfaults, ← hfault, List.filterMap_cons]
        cases f.fault <;> rfl
      · rw [hrecords', hrecords, List.flatMap_cons, List.append_assoc]

theorem openUp_records (hp : p.chain = []) (h : p.openUp (Wire.post room) w.timeless = (w', p', .ok first)) :
    w'.timeless = w' ∧ p'.firstId = some first ∧ ∃ opening : SendRecord,
      w'.records = w.timeless.records ++ [opening] ∧ opening.target = none ∧
        opening.result.map (·.eventId) = .ok first := by
  obtain ⟨-, hfirst, -⟩ := openUp_begins (Wire.post_logs room) hp h
  simp only [openUp, show p.firstId = none by simp only [firstId, hp]; rfl] at h
  obtain ⟨w₁, answer, hsend, ⟨p₁, e, hheard, -⟩ | ⟨rfl, hheard⟩⟩ := run_cases h
  · cases answer <;> cases hheard
  · obtain ⟨r, hrecords, hpost, hresult⟩ := Wire.post_records hsend
    refine ⟨post_timeless hsend, hfirst, r, ?_, ?_, ?_⟩
    · rw [hrecords]
      simp [Wire.timeless, Function.comp_def]
    · rw [SendRecord.target, hpost]
      rfl
    · rw [hresult, ← result_of_heard_ended hheard]

end Publisher

/-! ## A turn whose model does not fail -/

/-- The model hangs for ever: it does not end, none of its deltas is the
last, and the turn is not canceled. -/
def ModelStream.Unending (stream : ModelStream) (cancelAt : Option Nat) : Prop :=
  stream.hangs = true ∧ cancelAt = none ∧ ∀ delta ∈ stream.deltas, delta.finished = false

namespace Turn

variable {t : Turn}

/-- A turn takes what its model gives to the end, unless that never comes. -/
theorem consume_ends {items : List (Nat × Except ModelFault Delta)} (hitems : ∀ item ∈ items, item.2.isOk = true)
    (hangs : Bool) (cancelAt : Option Nat) (t : Turn) :
    (∃ t', consume hangs cancelAt items t = (t', some (.ok ()))) ∨
      ModelStream.Unending ⟨items, hangs⟩ cancelAt ∧ ∃ t', consume hangs cancelAt items t = (t', none) := by
  induction items generalizing t with
  | nil =>
    simp only [consume]
    cases hangs with
    | false =>
      rw [if_neg Bool.false_ne_true]
      rcases waitFor_some t t.now cancelAt with ⟨hwait, -⟩ | ⟨cancel, -, -, hwait⟩ <;> rw [hwait] <;>
        exact .inl ⟨_, rfl⟩
    | true =>
      cases cancelAt with
      | none => exact .inr ⟨⟨rfl, rfl, by simp [ModelStream.deltas]⟩, _, rfl⟩
      | some cancel => exact .inl ⟨_, rfl⟩
  | cons item items ih =>
    obtain ⟨delay, item⟩ := item
    obtain ⟨hitem, hrest⟩ := List.forall_mem_cons.1 hitems
    simp only [consume]
    rcases waitFor_some t (t.now + delay) cancelAt with ⟨hwait, -⟩ | ⟨cancel, -, -, hwait⟩
    · rw [hwait]
      cases item with
      | error fault => cases hitem
      | ok delta =>
        cases hfinished : delta.finished with
        | true =>
          simp only [hfinished, if_true]
          exact .inl ⟨_, rfl⟩
        | false =>
          simp only [hfinished, Bool.false_eq_true, if_false]
          rcases ih hrest ((t.passTo (t.now + delay)).take delta).1 with hended | ⟨⟨hhangs, hnone, hdeltas⟩, hnever⟩
          · exact .inl hended
          · exact .inr ⟨⟨hhangs, hnone, List.forall_mem_cons.2 ⟨hfinished, hdeltas⟩⟩, hnever⟩
    · rw [hwait]
      exact .inl ⟨_, rfl⟩

/-- How a turn that returned went on over the publishes that failed. -/
structure WentOn (start : Turn) (first : String) (replies : List Reply) (t : Turn) (outcome : Outcome) : Prop where
  /-- The opening event was sent, and the replies were flushed one behind the other, -/
  flushed : ∃ w p, start.office.publisher.openUp (Wire.post start.office.publisher.room) start.wire.timeless =
      (w, p, .ok first) ∧
    p.flushAll (Wire.post start.office.publisher.room) w replies =
      (t.wire.timeless, t.office.publisher, outcome.failures)
  /-- which left its records, each publish that failed with its report next to
  it, and the faults of the publishes that failed. -/
  told : ∃ (opening : SendRecord) (flushes : List Publisher.FlushRecord),
    t.wire.timeless.records = start.wire.timeless.records ++ opening :: flushes.flatMap (·.records) ∧
    opening.target = none ∧ opening.result.map (·.eventId) = .ok first ∧
    flushes.map (·.reply) = replies ∧ (∀ f ∈ flushes, f.Told first) ∧
    outcome.failures = flushes.filterMap (·.fault)
  /-- Nothing is left to happen. -/
  quiet : t.next = none

theorem Account.wentOn {start : Turn} {stream : ModelStream} {first : String} {deltas : List Delta} {final : Reply}
    {outcome : Outcome} (h : Account start stream first deltas final t outcome)
    (hchain : start.office.publisher.chain = []) :
    ∃ published : List Reply, published.Sublist (start.draft.changes deltas) ∧
      WentOn start first (published ++ [final]) t outcome := by
  obtain ⟨w₁, p₁, published, w₂, p₂, faults, fault, hopen, hflushed, hlast, hsublist, hfailures⟩ := h.flushed
  have hall := Publisher.flushAll_concat hflushed hlast
  rw [← hfailures] at hall
  obtain ⟨hw₁, hfirst, opening, hopened, htarget, hid⟩ := Publisher.openUp_records hchain hopen
  obtain ⟨flushes, htold, hreplies, hfaults, hrecords⟩ := Publisher.flushAll_records hw₁ hfirst hall
  refine ⟨published, hsublist, ⟨w₁, p₁, hopen, hall⟩,
    ⟨opening, flushes, ?_, htarget, hid, hreplies, htold, hfaults.symm⟩, h.quiet⟩
  rw [hrecords, hopened, List.append_assoc]
  rfl

/-- **A turn goes on over publishes that fail, and tells of all.** When the
first event went through and the model gives no fault, the turn returns its
outcome, unless the model hangs for ever, whatever the delays and whichever
sends fail. Replies were published as they had accumulated, in their order, and
then the last one; the outcome holds one fault for each publish that failed, in
their order, and in the room each was followed by one report, sent or tried,
before the next publish began. -/
theorem run_tells_failures {room : String} {c : Config} {draft : Draft} {wire : Wire} {stream : ModelStream}
    {first : String} (hitems : ∀ item ∈ stream.items, item.2.isOk = true)
    (hbegin : (Turn.new room c draft wire).begin.2 = .ok first) (cancelAt : Option Nat) :
    let start := Turn.new room c draft wire
    let deltas := taken cancelAt stream.items start.begin.1
    (∃ t outcome, start.run stream cancelAt = (t, some (.ok outcome)) ∧
      ∃ published : List Reply, published.Sublist (draft.changes deltas) ∧
        let final := { (draft.fold deltas).reply with isFinished := true, isCanceled := outcome.isCanceled }
        WentOn start first (published ++ [final]) t outcome) ∨
      stream.Unending cancelAt ∧ ∃ t, start.run stream cancelAt = (t, none) := by
  intro start deltas
  obtain ⟨t₁, hbegun⟩ : ∃ t₁, start.begin = (t₁, .ok first) := ⟨_, Prod.ext rfl hbegin⟩
  rcases consume_ends hitems stream.hangs cancelAt t₁ with ⟨t₂, hended⟩ | ⟨hnever, t₂, hended⟩
  · left
    obtain ⟨t, outcome, hrun⟩ : ∃ t outcome, start.run stream cancelAt = (t, some (.ok outcome)) := by
      simp only [run, hbegun, hended]
      exact ⟨_, _, rfl⟩
    obtain ⟨t₁', first', final, hbegun', haccount⟩ := run_accounts hrun
    obtain ⟨rfl, hfirst⟩ := Prod.mk.inj (hbegun.symm.trans hbegun')
    cases hfirst
    have hdeltas : taken cancelAt stream.items t₁ = deltas := by simp only [deltas, hbegun]
    rw [hdeltas] at haccount
    obtain ⟨published, hsublist, hwent⟩ := haccount.wentOn rfl
    rw [haccount.final_eq] at hwent
    exact ⟨t, outcome, hrun, published, hsublist, hwent⟩
  · right
    refine ⟨hnever, t₂, ?_⟩
    simp only [run, hbegun, hended]

/-! The three publishes of a reply all fail, and the report of the first one too. -/

def troubledTurn : Turn :=
  Turn.new "!room" shortConfig (.withPlaceholder shortConfig.publishing.thinkingMessage)
    { shortWire with
      outcomes := [.normal, .failing, .lost .unavailable, .normal, .failing, .normal, .lost (.rejected 429 "slow")] }

theorem run_tells_failures_troubled :
    ∃ t outcome, troubledTurn.run shortStream none = (t, some (.ok outcome)) ∧
      outcome.failures = [.publish .unavailable, .publish .unavailable, .publish (.rejected 429 "slow")] ∧
      t.wire.records.map (fun r => (r.post.message.errorMessage.isSome, r.result.isOk)) =
        [(false, true), (false, false), (true, false), (false, true), (false, false), (true, true), (false, false),
          (true, true)] ∧
      ∃ replies, WentOn troubledTurn "$sent1" replies t outcome := by
  have hend : ((troubledTurn.run shortStream none).2.bind Except.toOption).map (·.failures) =
        some [.publish .unavailable, .publish .unavailable, .publish (.rejected 429 "slow")] ∧
      (troubledTurn.run shortStream none).1.wire.records.map
          (fun r => (r.post.message.errorMessage.isSome, r.result.isOk)) =
        [(false, true), (false, false), (true, false), (false, true), (false, false), (true, true), (false, false),
          (true, true)] := by
    decide +kernel
  obtain ⟨first, hbegin, rfl⟩ : ∃ first, some troubledTurn.begin.2 = some (.ok first) ∧ id first = "$sent1" :=
    exists_ok_of_map (by decide +kernel)
  have hitems : ∀ item ∈ shortStream.items, item.2.isOk = true := by decide
  obtain ⟨t, outcome, hrun, published, -, hwent⟩ | ⟨⟨hhangs, -⟩, -⟩ :=
    run_tells_failures (c := shortConfig) hitems (Option.some.inj hbegin) none
  · change troubledTurn.run shortStream none = _ at hrun
    rw [hrun] at hend
    exact ⟨t, outcome, hrun, Option.some.inj hend.1, hend.2, _, hwent⟩
  · cases hhangs

end Turn

end ReplyStream
