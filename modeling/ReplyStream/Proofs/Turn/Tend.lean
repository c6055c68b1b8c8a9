/-
The keeper at work while the caller waits. Whatever the keeper has begun to
flush will be flushed, and reported if that fails: this is what the turn is
about to come to (`Turn.settled`), and neither a move of the office nor one of
the keeper changes it, but for the value that waits when the keeper takes it
up (`Tended.invariant`).
-/
import ReplyStream.Proofs.Chain.Flush
import ReplyStream.Proofs.Throttle
import ReplyStream.Proofs.Turn.Wait

namespace ReplyStream.Turn

/-! ## Moves of the keeper -/

/-- The throttle behind a move of the keeper: it flushes or it does not, and
a value waits or it does not. -/
structure Moved (throttle throttle' : Throttle Reply) (ahead behind : List Nat) (isFlushing : Bool)
    (pending : Option Reply) : Prop where
  ordered : throttle'.Ordered ahead behind
  closed : throttle'.isClosed = throttle.isClosed
  calls : throttle'.calls = throttle.calls
  flushing : throttle'.isFlushing = isFlushing
  pending : throttle'.pending = pending

theorem not_flushing_of_due {t : Turn} {time : Nat} (h : t.keeperDue = some time) : t.throttle.isFlushing = false := by
  unfold keeperDue at h
  unfold Throttle.isFlushing
  split at h
  · cases h
  · cases h
  next hkeeper => simp only [hkeeper]
  next hkeeper => simp only [hkeeper]
  next hkeeper => simp only [hkeeper]

/-- A move of the keeper: it goes on in its window and flushes nothing, or it
has got the lock and asks for the value that waits to be published. -/
theorem keep_cases {t : Turn} {ahead behind : List Nat} (h : t.throttle.Ordered ahead behind)
    (hdue : t.keeperDue = some t.now) :
    (∃ throttle, t.keep = { t with throttle } ∧ t.keep.effort < t.effort ∧
      Moved t.throttle throttle ahead behind false t.throttle.pending) ∨
    (ahead = [] ∧ ∃ throttle reply, t.throttle.pending = some reply ∧
      t.keep = { t with throttle, office := t.office.ask .keeper (.publish reply) } ∧
      t.throttle.keeper = some .rising ∧ Moved t.throttle throttle ahead behind true none) := by
  unfold keeperDue at hdue
  match hkeeper : t.throttle.keeper with
  | none => rw [hkeeper] at hdue; cases hdue
  | some (.flushing _) => rw [hkeeper] at hdue; cases hdue
  | some .starting =>
    have hkeep : t.keep = { t with throttle := t.throttle.rest t.now } := by simp only [Turn.keep, hkeeper]
    have hrest := h.rest hkeeper t.now
    refine .inl ⟨t.throttle.rest t.now, hkeep, ?_, ?_⟩
    · rw [hkeep]
      unfold Throttle.rest
      split
      · simp only [effort, keeperEffort, hkeeper]
        omega
      · simp only [effort, keeperEffort, hkeeper]
        omega
    · refine ⟨hrest, ?_, ?_, ?_, ?_⟩ <;> (unfold Throttle.rest; split <;> rfl)
  | some (.asleep deadline) =>
    have hkeep : t.keep =
        { t with throttle := if t.throttle.isClosed then t.throttle.notice else t.throttle.rise } := by
      simp only [Turn.keep, hkeeper]
    refine .inl ⟨_, hkeep, ?_, ?_⟩
    · rw [hkeep]
      split
      · simp only [effort, keeperEffort, hkeeper, Throttle.notice]
        omega
      · simp only [effort, keeperEffort, hkeeper, Throttle.rise, Throttle.join]
        omega
    · split
      next hclosed => exact ⟨h.notice hkeeper, rfl, rfl, rfl, rfl⟩
      next hclosed => exact ⟨h.rise hkeeper (by simpa using hclosed), rfl, rfl, rfl, rfl⟩
  | some .rising =>
    have hholds : t.throttle.holds .keeper = true := by
      rw [hkeeper] at hdue
      dsimp only at hdue
      split at hdue
      next hholds => exact hholds
      next => cases hdue
    obtain rfl := h.ahead_eq_nil hholds
    obtain ⟨throttle, hordered, hclosed, hcalls, hcases⟩ := h.enter_keeper hkeeper hholds
    rcases hcases with ⟨henter, hnone, hpending⟩ | ⟨reply, hreply, henter, hsome, hpending⟩
    · have hkeep : t.keep = { t with throttle } := by simp only [Turn.keep, hkeeper, henter]
      refine .inl ⟨throttle, hkeep, ?_, hordered, hclosed, hcalls, by simp only [Throttle.isFlushing, hnone], hpending⟩
      rw [hkeep]
      simp only [effort, keeperEffort, hkeeper, hnone]
      omega
    · have hkeep : t.keep = { t with throttle, office := t.office.ask .keeper (.publish reply) } := by
        simp only [Turn.keep, hkeeper, henter]
      exact .inr ⟨rfl, throttle, reply, hreply, hkeep, rfl, hordered, hclosed, hcalls,
        by simp only [Throttle.isFlushing, hsome], hpending⟩

/-! ## What the turn comes to -/

/-- What a wait of the caller leaves as it was. -/
structure Frame (t₀ t : Turn) : Prop where
  draft : t.draft = t₀.draft
  closed : t.throttle.isClosed = t₀.throttle.isClosed
  calls : t.throttle.calls = t₀.throttle.calls

theorem Frame.refl (t : Turn) : Frame t t := ⟨rfl, rfl, rfl⟩

theorem Frame.trans {t t' t'' : Turn} (h : Frame t t') (h' : Frame t' t'') : Frame t t'' :=
  ⟨h'.draft.trans h.draft, h'.closed.trans h.closed, h'.calls.trans h.calls⟩

/-- Nothing is wanted of the office, and nothing is being reported. -/
structure Idle (t : Turn) : Prop where
  line : t.office.line = []
  sending : t.office.sending = none
  reporting : t.reporting = none

/-- The office and what is being reported is all that matters to whether a turn is idle. -/
theorem Idle.congr {t u : Turn} (h : t.Idle) (hoffice : u.office = t.office) (hreporting : u.reporting = t.reporting) :
    u.Idle where
  line := by rw [hoffice, h.line]
  sending := by rw [hoffice, h.sending]
  reporting := hreporting.trans h.reporting

theorem Idle.next_eq_none {t : Turn} (h : t.Idle) (hkeeper : t.throttle.keeper = none) : t.next = none := by
  simp only [next, Office.due, h.line, h.sending, keeperDue, hkeeper]
  rfl

/-- What the keeper makes of the answer to its request: a publish that failed
is still to be reported. -/
def heeded (failures : List Fault) (reporting : Option Fault) :
    Wire × Publisher × Request.Answer → Wire × Publisher × List Fault
  | (w, p, .published (.error cause)) =>
    let (w, p, _) := p.report (Wire.post p.room) w (Fault.publish cause).message
    (w, p, failures ++ [.publish cause])
  | (w, p, _) => (w, p, failures ++ reporting.toList)

/-- The answer to a publish, heeded, is a flush. -/
theorem heeded_publish {p p' : Publisher} {w w' : Wire} {reply : Reply} {fault : Option Fault} (failures : List Fault)
    (h : p.flush (Wire.post p.room) w reply = (w', p', fault)) :
    heeded failures none (p.respond (Wire.post p.room) w (.publish reply)) = (w', p', failures ++ fault.toList) := by
  rcases Publisher.flush_cases h with ⟨id, hpublish, rfl⟩ | ⟨cause, w₁, p₁, result, hpublish, hreport, rfl⟩
  · simp only [Publisher.respond, hpublish]
    rfl
  · have hroom : p₁.room = p.room := (Publisher.publish_appends (Wire.post_logs p.room) hpublish).1.room
    simp only [Publisher.respond, hpublish, Except.map, heeded, hroom, hreport]
    rfl

/-- What the flush under way will have come to: the wire, the publisher and
the failures. -/
def settled (t : Turn) : Wire × Publisher × List Fault :=
  match t.throttle.isFlushing, t.office.outstanding t.wire with
  | true, some outstanding => heeded t.failures t.reporting outstanding
  | _, _ => (t.wire.timeless, t.office.publisher, t.failures)

theorem settled_of_not_flushing {t : Turn} (h : t.throttle.isFlushing = false) :
    t.settled = (t.wire.timeless, t.office.publisher, t.failures) := by
  simp only [settled, h]

theorem settled_of_flushing {t : Turn} {outstanding : Wire × Publisher × Request.Answer}
    (h : t.throttle.isFlushing = true) (hout : t.office.outstanding t.wire = some outstanding) :
    t.settled = heeded t.failures t.reporting outstanding := by
  simp only [settled, h, hout]

theorem settled_of_throttle {t : Turn} {throttle : Throttle Reply} (h : throttle.isFlushing = t.throttle.isFlushing) :
    ({ t with throttle } : Turn).settled = t.settled := by
  simp only [settled, h]

/-- A property of what has been flushed and of the value that waits, kept when
that value is flushed. -/
def Settles (P : Wire × Publisher × List Fault → Option Reply → Prop) : Prop :=
  ∀ {w w' : Wire} {p p' : Publisher} {faults : List Fault} {fault : Option Fault} {reply : Reply},
    P (w, p, faults) (some reply) → p.flush (Wire.post p.room) w reply = (w', p', fault) →
    P (w', p', faults ++ fault.toList) none

/-- While the caller waits for the calls `behind` the keeper to get their
turn, the office works for the keeper alone, and `P` holds of what that will
have come to. -/
structure Tended (P : Wire × Publisher × List Fault → Option Reply → Prop) (t₀ : Turn) (behind : List Nat) (t : Turn) :
    Prop where
  frame : Frame t₀ t
  ordered : t.throttle.Ordered [] behind
  idle : t.throttle.isFlushing = false → t.Idle
  asked : t.throttle.isFlushing = true → ∃ q, t.office.line = [(.keeper, q)]
  reported : t.reporting.isSome = true → ∃ w p, t.office.outstanding t.wire = some (w, p, .reported)
  told : P t.settled t.throttle.pending

namespace Tended

variable {P : Wire × Publisher × List Fault → Option Reply → Prop} {t₀ t : Turn} {behind : List Nat}

theorem keep (hP : Settles P) (h : Tended P t₀ behind t) (hdue : t.keeperDue = some t.now) :
    Tended P t₀ behind t.keep ∧ t.keep.effort < t.effort := by
  have hflushing := not_flushing_of_due hdue
  have hidle := h.idle hflushing
  have htold := h.told
  rw [settled_of_not_flushing hflushing] at htold
  rcases keep_cases h.ordered hdue with
    ⟨throttle, hkeep, hlt, hstill⟩ | ⟨-, throttle, reply, hreply, hkeep, hrising, hbegins⟩
  · rw [hkeep] at hlt ⊢
    refine ⟨?_, hlt⟩
    exact {
      frame := ⟨h.frame.draft, hstill.closed.trans h.frame.closed, hstill.calls.trans h.frame.calls⟩
      ordered := hstill.ordered
      idle := fun _ => hidle.congr rfl rfl
      asked := fun hfalse => absurd (hstill.flushing.symm.trans hfalse) (by simp)
      reported := h.reported
      told := by
        rw [settled_of_not_flushing (by exact hstill.flushing)]
        rw [← hstill.pending] at htold
        exact htold }
  · rw [hkeep]
    have hline : (t.office.ask .keeper (.publish reply)).line = [(.keeper, .publish reply)] := by
      simp only [Office.ask, hidle.line, List.nil_append]
    have hout : (t.office.ask .keeper (.publish reply)).outstanding t.wire =
        some (t.office.publisher.respond (Wire.post t.office.publisher.room) t.wire.timeless (.publish reply)) := by
      simp only [Office.outstanding, hline]
      simp only [Office.ask, hidle.sending]
    obtain ⟨value, hvalue⟩ := Throttle.exists_of_isFlushing hbegins.flushing
    constructor
    · cases hflush : t.office.publisher.flush (Wire.post t.office.publisher.room) t.wire.timeless reply with
      | mk w' rest =>
        obtain ⟨p', fault⟩ := rest
        rw [hreply] at htold
        exact {
          frame := ⟨h.frame.draft, hbegins.closed.trans h.frame.closed, hbegins.calls.trans h.frame.calls⟩
          ordered := hbegins.ordered
          idle := fun hfalse => absurd (hbegins.flushing.symm.trans hfalse) (by simp)
          asked := fun _ => ⟨_, hline⟩
          reported := fun hsome => by
            rw [show t.reporting = none from hidle.reporting] at hsome
            cases hsome
          told := by
            rw [settled_of_flushing (by exact hbegins.flushing) (by exact hout)]
            simp only [hidle.reporting, hbegins.pending, heeded_publish t.failures hflush]
            exact hP htold hflush }
    · have hoffice : t.office.effort = 0 := by simp [Office.effort, hidle.sending, hidle.line]
      have hoffice' : (t.office.ask .keeper (.publish reply)).effort = (Request.publish reply).effort := by
        simp [Office.effort, Office.ask, hidle.sending, hidle.line]
      simp only [effort, keeperEffort, hrising, hvalue, hbegins.pending, hreply, hidle.reporting, hoffice,
        hoffice', Option.isSome_none]
      simp

/-! ## Moves of the office -/

/-- The keeper ends its flush when there is nothing more to report. -/
theorem finish (h : Tended P t₀ behind t) (hflushing : t.throttle.isFlushing = true) {p : Publisher} {w : Wire}
    (htold : P (w.timeless, p, t.failures ++ t.reporting.toList) t.throttle.pending)
    (heffort : 0 < t.office.effort) :
    Tended P t₀ behind { t with
      office := ⟨p, [], none⟩
      wire := w
      failures := t.failures ++ t.reporting.toList
      reporting := none
      throttle := t.throttle.finish .keeper } ∧
    ({ t with
      office := ⟨p, [], none⟩
      wire := w
      failures := t.failures ++ t.reporting.toList
      reporting := none
      throttle := t.throttle.finish .keeper } : Turn).effort < t.effort := by
  obtain ⟨value, hkeeper⟩ := Throttle.exists_of_isFlushing hflushing
  constructor
  · exact {
      frame := ⟨h.frame.draft, h.frame.closed, h.frame.calls⟩
      ordered := h.ordered.finish_keeper hflushing
      idle := fun _ => ⟨rfl, rfl, rfl⟩
      asked := nofun
      reported := nofun
      told := htold }
  · simp only [effort, keeperEffort, hkeeper, Throttle.finish, Throttle.release, Office.effort,
      Office.lineEffort_nil]
    simp only [Office.effort] at heffort
    have hreporting : 3 ≤ if t.reporting.isSome = true then 3 else 5 := by split <;> omega
    omega

/-- The keeper reports a publish that failed. -/
theorem report (h : Tended P t₀ behind t) (hflushing : t.throttle.isFlushing = true) {p : Publisher} {w : Wire}
    {cause : TransportFault}
    (hreported : t.reporting.isSome = true → Request.Answer.published (.error cause) = .reported)
    (htold : P (heeded t.failures t.reporting (w.timeless, p, .published (.error cause))) t.throttle.pending)
    (heffort : 0 < t.office.effort) :
    Tended P t₀ behind
      (({ t with office := ⟨p, [], none⟩, wire := w } : Turn).heardByKeeper (.published (.error cause))) ∧
    (({ t with office := ⟨p, [], none⟩, wire := w } : Turn).heardByKeeper (.published (.error cause))).effort <
      t.effort := by
  obtain ⟨value, hkeeper⟩ := Throttle.exists_of_isFlushing hflushing
  have hreporting : t.reporting = none := by
    cases hreporting : t.reporting with
    | none => rfl
    | some fault => cases hreported (by rw [hreporting]; rfl)
  cases hreport : p.report (Wire.post p.room) w.timeless (Fault.publish cause).message with
  | mk w' rest =>
    have hout : (⟨p, [(Who.keeper, .report (Fault.publish cause).message)], none⟩ : Office Who).outstanding w =
        some (w', rest.1, .reported) := by
      simp only [Office.outstanding, Publisher.respond, hreport]
    simp only [heeded, hreport] at htold
    constructor
    · exact {
        frame := ⟨h.frame.draft, h.frame.closed, h.frame.calls⟩
        ordered := h.ordered
        idle := fun hfalse => absurd (hflushing.symm.trans hfalse) (by simp)
        asked := fun _ => ⟨_, rfl⟩
        reported := fun _ => ⟨w', rest.1, hout⟩
        told := by
          rw [settled_of_flushing (by exact hflushing) (by exact hout)]
          exact htold }
    · have hoffice : (⟨p, [(Who.keeper, .report (Fault.publish cause).message)], none⟩ : Office Who).effort = 2 := rfl
      simp only [effort, keeperEffort, heardByKeeper, Office.ask, List.nil_append, hoffice, hkeeper, hreporting]
      simp only [Option.isSome_some, Option.isSome_none, Bool.false_eq_true, if_true, if_false]
      omega

theorem serve (hP : Settles P) (h : Tended P t₀ behind t) (hdue : (t.office.due t.now).isSome = true) :
    Tended P t₀ behind t.serve ∧ t.serve.effort < t.effort := by
  have hflushing : t.throttle.isFlushing = true := by
    cases hflushing : t.throttle.isFlushing with
    | true => rfl
    | false =>
      have hidle := h.idle hflushing
      simp [Office.due, hidle.sending, hidle.line] at hdue
  obtain ⟨q, hline⟩ := h.asked hflushing
  have hsome : (t.office.outstanding t.wire).isSome = true := by
    rw [Office.outstanding_isSome t.office t.wire t.now]
    exact hdue
  obtain ⟨⟨w₁, p₁, a⟩, hout⟩ := Option.isSome_iff_exists.1 hsome
  have heffort := Office.move_effort_lt hdue t.wire t.now
  have hreported : t.reporting.isSome = true → a = .reported := by
    intro hreporting
    obtain ⟨w, p, hout'⟩ := h.reported hreporting
    rw [hout] at hout'
    cases hout'
    rfl
  have htold := h.told
  rw [settled_of_flushing hflushing hout] at htold
  rcases Office.move_kept t.now hout with ⟨o, w, hmove, hline', -, hout'⟩ | ⟨w, hmove, rfl⟩
  · have hserve : t.serve = { t with office := o, wire := w } := by simp only [Turn.serve, hmove]
    rw [hmove] at heffort
    rw [hserve]
    refine ⟨?_, Nat.add_lt_add_right heffort _⟩
    exact {
      frame := ⟨h.frame.draft, h.frame.closed, h.frame.calls⟩
      ordered := h.ordered
      idle := fun hfalse => absurd (hflushing.symm.trans hfalse) (by simp)
      asked := fun _ => ⟨q, hline'.trans hline⟩
      reported := fun hreporting => ⟨w₁, p₁, by rw [hreported hreporting] at hout'; exact hout'⟩
      told := by
        rw [settled_of_flushing (by exact hflushing) (by exact hout')]
        exact htold }
  · rw [hmove] at heffort
    have hpos : 0 < t.office.effort := by omega
    have hserve : t.serve = ({ t with office := ⟨p₁, [], none⟩, wire := w } : Turn).heardByKeeper a := by
      simp only [Turn.serve, hmove, hline, List.head?_cons, List.tail_cons, Option.map_some]
    rw [hserve]
    have hended : ∀ {u : Turn}, Tended P t₀ behind u ∧ u.effort < t.effort →
        Tended P t₀ behind u.keepOn ∧ u.keepOn.effort < t.effort := by
      rintro u ⟨hu, hlt⟩
      obtain ⟨hkept, hle⟩ := keepOn_kept (fun hu hdue => keep hP hu hdue) hu
      exact ⟨hkept, by omega⟩
    cases a with
    | published result =>
      cases result with
      | error cause => exact h.report hflushing hreported htold hpos
      | ok => exact hended (h.finish hflushing htold hpos)
    | opened | reported | links => exact hended (h.finish hflushing htold hpos)

theorem next_isSome (h : Tended P t₀ behind t) (hkeeper : t.throttle.keeper.isSome = true) :
    t.next.isSome = true := by
  have hkeeperDue : t.keeperDue.isSome = true → t.next.isSome = true := by
    intro hdue
    obtain ⟨time, htime⟩ := Option.isSome_iff_exists.1 hdue
    unfold next
    rw [htime]
    cases t.office.due t.now <;> rfl
  match hwatch : t.throttle.keeper with
  | none => rw [hwatch] at hkeeper; cases hkeeper
  | some .starting =>
    apply hkeeperDue
    simp only [keeperDue, hwatch]
    rfl
  | some (.asleep deadline) =>
    apply hkeeperDue
    simp only [keeperDue, hwatch]
    split <;> rfl
  | some .rising =>
    apply hkeeperDue
    have hholds : t.throttle.holds .keeper = true := by
      simp [Throttle.holds, h.ordered.line, Throttle.stake, hwatch]
    simp only [keeperDue, hwatch, hholds]
    rfl
  | some (.flushing value) =>
    obtain ⟨q, hline⟩ := h.asked (by simp only [Throttle.isFlushing, hwatch])
    have hdue : (t.office.due t.now).isSome = true := by
      unfold Office.due
      split
      · rfl
      · simp [hline]
    obtain ⟨time, htime⟩ := Option.isSome_iff_exists.1 hdue
    unfold next
    rw [htime]
    cases t.keeperDue <;> rfl

theorem invariant (hP : Settles P) (t₀ : Turn) (behind : List Nat) : Invariant (Tended P t₀ behind) where
  later h _ := ⟨⟨h.frame.draft, h.frame.closed, h.frame.calls⟩, h.ordered,
    fun hflushing => (h.idle hflushing).congr rfl rfl, h.asked, h.reported, h.told⟩
  served := serve hP
  kept := keep hP

end Tended

end ReplyStream.Turn
