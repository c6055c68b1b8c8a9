/-
The caller at the office. While it waits for an answer the keeper cannot begin
to flush, for want of the lock or because there is no keeper; so the answer
is that to the request as if it were served at once (`request_answers`), and a
flush of the caller is one of the publisher (`flush_flushes`).
-/
import ReplyStream.Proofs.Turn.Tend

namespace ReplyStream.Turn

/-- The caller has asked for `q`, which comes to the wire `w₁`, the publisher
`p₁` and the answer `a`; the calls `ahead` keep the keeper from the lock. -/
structure Asking (t₀ : Turn) (ahead : List Nat) (q : Request) (w₁ : Wire) (p₁ : Publisher) (a : Request.Answer)
    (t : Turn) : Prop where
  frame : Frame t₀ t
  ordered : t.throttle.Ordered ahead []
  barred : ahead ≠ [] ∨ t.throttle.keeper = none
  quiet : t₀.throttle.keeper = none → t.throttle.keeper = none
  pending : t.throttle.pending = t₀.throttle.pending
  failures : t.failures = t₀.failures
  reporting : t.reporting = none
  served : (t.answer = none ∧ t.office.line = [(.caller, q)] ∧ t.office.outstanding t.wire = some (w₁, p₁, a)) ∨
    (t.answer = some a ∧ t.office = ⟨p₁, [], none⟩ ∧ t.wire.timeless = w₁)

namespace Asking

variable {t₀ t : Turn} {ahead : List Nat} {q : Request} {w₁ : Wire} {p₁ : Publisher} {a : Request.Answer}

theorem keep (h : Asking t₀ ahead q w₁ p₁ a t) (hdue : t.keeperDue = some t.now) :
    Asking t₀ ahead q w₁ p₁ a t.keep ∧ t.keep.effort < t.effort := by
  have hahead : ahead ≠ [] := by
    refine h.barred.resolve_right fun hnone => ?_
    simp only [keeperDue, hnone] at hdue
    cases hdue
  rcases keep_cases h.ordered hdue with ⟨throttle, hkeep, hlt, hstill⟩ | ⟨hnil, -⟩
  · rw [hkeep] at hlt ⊢
    refine ⟨?_, hlt⟩
    exact {
      frame := ⟨h.frame.draft, hstill.closed.trans h.frame.closed, hstill.calls.trans h.frame.calls⟩
      ordered := hstill.ordered
      barred := .inl hahead
      quiet := fun hnone => by
        simp only [keeperDue, h.quiet hnone] at hdue
        cases hdue
      pending := hstill.pending.trans h.pending
      failures := h.failures
      reporting := h.reporting
      served := h.served }
  · exact absurd hnil hahead

theorem serve (h : Asking t₀ ahead q w₁ p₁ a t) (hdue : (t.office.due t.now).isSome = true) :
    Asking t₀ ahead q w₁ p₁ a t.serve ∧ t.serve.effort < t.effort := by
  have heffort := Office.move_effort_lt hdue t.wire t.now
  rcases h.served with ⟨hanswer, hline, hout⟩ | ⟨-, hoffice, -⟩
  · rcases Office.move_kept t.now hout with ⟨o, w, hmove, hline', -, hout'⟩ | ⟨w, hmove, hw⟩
    · have hserve : t.serve = { t with office := o, wire := w } := by simp only [Turn.serve, hmove]
      rw [hmove] at heffort
      rw [hserve]
      refine ⟨?_, Nat.add_lt_add_right heffort _⟩
      exact {
        frame := ⟨h.frame.draft, h.frame.closed, h.frame.calls⟩
        ordered := h.ordered
        barred := h.barred
        quiet := h.quiet
        pending := h.pending
        failures := h.failures
        reporting := h.reporting
        served := .inl ⟨hanswer, hline'.trans hline, hout'⟩ }
    · have hserve : t.serve = { t with office := ⟨p₁, [], none⟩, wire := w, answer := some a } := by
        simp only [Turn.serve, hmove, hline, List.head?_cons, List.tail_cons, Option.map_some]
      rw [hmove, hline] at heffort
      rw [hserve]
      refine ⟨?_, Nat.add_lt_add_right heffort _⟩
      exact {
        frame := ⟨h.frame.draft, h.frame.closed, h.frame.calls⟩
        ordered := h.ordered
        barred := h.barred
        quiet := h.quiet
        pending := h.pending
        failures := h.failures
        reporting := h.reporting
        served := .inr ⟨rfl, rfl, hw⟩ }
  · simp [hoffice, Office.due] at hdue

theorem invariant (t₀ : Turn) (ahead : List Nat) (q : Request) (w₁ : Wire) (p₁ : Publisher) (a : Request.Answer) :
    Invariant (Asking t₀ ahead q w₁ p₁ a) where
  later h _ := ⟨⟨h.frame.draft, h.frame.closed, h.frame.calls⟩, h.ordered, h.barred, h.quiet, h.pending, h.failures,
    h.reporting, h.served⟩
  served := serve
  kept := keep

end Asking

/-- The caller may ask: nobody else wants something of the office, and the
keeper is kept from it. -/
structure Ready (ahead : List Nat) (t : Turn) : Prop where
  ordered : t.throttle.Ordered ahead []
  barred : ahead ≠ [] ∨ t.throttle.keeper = none
  idle : t.Idle

/-- What an answered request has changed. -/
structure Answered (t : Turn) (w₁ : Wire) (p₁ : Publisher) (ahead : List Nat) (t' : Turn) : Prop where
  frame : Frame t t'
  ready : t'.Ready ahead
  quiet : t.throttle.keeper = none → t'.throttle.keeper = none
  pending : t'.throttle.pending = t.throttle.pending
  publisher : t'.office.publisher = p₁
  wire : t'.wire.timeless = w₁

theorem Answered.trans {t t' t'' : Turn} {w₁ w₂ : Wire} {p₁ p₂ : Publisher} {ahead : List Nat}
    (h : Answered t w₁ p₁ ahead t') (h' : Answered t' w₂ p₂ ahead t'') : Answered t w₂ p₂ ahead t'' where
  frame := h.frame.trans h'.frame
  ready := h'.ready
  quiet hnone := h'.quiet (h.quiet hnone)
  pending := h'.pending.trans h.pending
  publisher := h'.publisher
  wire := h'.wire

variable {t : Turn} {ahead : List Nat} {w₁ : Wire} {p₁ : Publisher}

/-- A request is answered as if it were served at once. -/
theorem request_answers {q : Request} {a : Request.Answer} (h : t.Ready ahead)
    (hrespond : t.office.publisher.respond (Wire.post t.office.publisher.room) t.wire.timeless q = (w₁, p₁, a)) :
    ∃ t', t.request q = (t', some a) ∧ Answered t w₁ p₁ ahead t' ∧ t'.failures = t.failures := by
  have hline : (t.office.ask .caller q).line = [(.caller, q)] := by
    simp only [Office.ask, h.idle.line, List.nil_append]
  have hout : (t.office.ask .caller q).outstanding t.wire = some (w₁, p₁, a) := by
    simp only [Office.outstanding, hline]
    simp only [Office.ask, h.idle.sending, hrespond]
  have hasking : Asking t ahead q w₁ p₁ a { t with office := t.office.ask .caller q, answer := none } := {
    frame := ⟨rfl, rfl, rfl⟩
    ordered := h.ordered
    barred := h.barred
    quiet := id
    pending := rfl
    failures := rfl
    reporting := h.idle.reporting
    served := .inl ⟨rfl, hline, hout⟩ }
  obtain ⟨hwaited, hdone⟩ := (Asking.invariant t ahead q w₁ p₁ a).await (·.answer.isSome)
    (fun {u} hu hnone => by
      rcases hu.served with ⟨-, -, hout⟩ | ⟨hanswer, -, -⟩
      · have hdue : (u.office.due u.now).isSome = true := by
          rw [← Office.outstanding_isSome u.office u.wire, hout]
          rfl
        obtain ⟨time, htime⟩ := Option.isSome_iff_exists.1 hdue
        unfold next
        rw [htime]
        cases u.keeperDue <;> rfl
      · rw [hanswer] at hnone
        cases hnone) hasking
  rcases hwaited.served with ⟨hanswer, -, -⟩ | ⟨hanswer, hoffice, hwire⟩
  · rw [hanswer] at hdone
    cases hdone
  · refine ⟨_, Prod.ext rfl hanswer, ?_, hwaited.failures⟩
    exact {
      frame := ⟨hwaited.frame.draft, hwaited.frame.closed, hwaited.frame.calls⟩
      ready := ⟨hwaited.ordered, hwaited.barred, congrArg Office.line hoffice, congrArg Office.sending hoffice,
        hwaited.reporting⟩
      quiet := hwaited.quiet
      pending := hwaited.pending
      publisher := congrArg Office.publisher hoffice
      wire := hwire }

/-- A flush of the caller is one of the publisher. -/
theorem flush_flushes {reply : Reply} {fault : Option Fault} (h : t.Ready ahead)
    (hflush : t.office.publisher.flush (Wire.post t.office.publisher.room) t.wire.timeless reply = (w₁, p₁, fault)) :
    Answered t w₁ p₁ ahead (t.flush reply) ∧ (t.flush reply).failures = t.failures ++ fault.toList := by
  rcases Publisher.flush_cases hflush with ⟨id, hpublish, rfl⟩ | ⟨cause, w, p, result, hpublish, hreport, rfl⟩
  · obtain ⟨t', hrequest, hanswered, hfailures⟩ := request_answers (q := .publish reply) (a := .published (.ok ())) h
      (by simp only [Publisher.respond, hpublish]; rfl)
    simp only [Turn.flush, hrequest]
    exact ⟨hanswered, by simpa using hfailures⟩
  · have hroom : p.room = t.office.publisher.room := (Publisher.publish_appends (Wire.post_logs _) hpublish).1.room
    obtain ⟨t', hrequest, hanswered, hfailures⟩ := request_answers (q := .publish reply)
      (a := .published (.error cause)) h (by simp only [Publisher.respond, hpublish]; rfl)
    obtain ⟨t'', hrequest', hanswered', hfailures'⟩ := request_answers (q := .report (Fault.publish cause).message)
      (a := .reported) hanswered.ready
      (by rw [hanswered.publisher, hanswered.wire, hroom]; simp only [Publisher.respond, hreport]; rfl)
    simp only [Turn.flush, hrequest, hrequest']
    have hboth := hanswered.trans hanswered'
    refine ⟨?_, by rw [hfailures', hfailures]; rfl⟩
    exact {
      frame := ⟨hboth.frame.draft, hboth.frame.closed, hboth.frame.calls⟩
      ready := ⟨hboth.ready.ordered, hboth.ready.barred, hboth.ready.idle.line, hboth.ready.idle.sending,
        hboth.ready.idle.reporting⟩
      quiet := hboth.quiet
      pending := hboth.pending
      publisher := hboth.publisher
      wire := hboth.wire }

end ReplyStream.Turn
