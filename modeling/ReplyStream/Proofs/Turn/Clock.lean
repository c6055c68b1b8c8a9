/-
The clock of a turn. It never goes back, whatever the caller waits for
(`le_now_take`), and a wait for a time ends at that time, or at once if it has
passed (`now_passTo`).
-/
import ReplyStream.Turn.Run

namespace ReplyStream.Turn

variable {t : Turn} {time : Nat}

/-! ## Moves take no time -/

@[simp] theorem now_keep (t : Turn) : t.keep.now = t.now := by
  unfold keep
  split <;> (try split) <;> rfl

@[simp] theorem now_keepOn (t : Turn) : t.keepOn.now = t.now := by
  have hgo : ∀ limit t, (keepOn.go limit t).now = t.now := by
    intro limit
    induction limit with
    | zero => exact fun t => rfl
    | succ limit ih =>
      intro t
      rw [keepOn.go]
      split
      · rw [ih, now_keep]
      · rfl
  exact hgo _ t

theorem now_heardByKeeper (t : Turn) (answer : Request.Answer) : (t.heardByKeeper answer).now = t.now := by
  unfold heardByKeeper
  split
  · rfl
  · exact now_keepOn _

@[simp] theorem now_serve (t : Turn) : t.serve.now = t.now := by
  unfold serve
  split
  · rfl
  · rfl
  · exact now_heardByKeeper _ _

/-! ## Steps -/

theorem le_of_due {κ : Type} {o : Office κ} {now : Nat} (h : o.due now = some time) : now ≤ time := by
  unfold Office.due at h
  split at h
  · cases h
    exact Nat.le_max_right ..
  · split at h <;> cases h
    exact Nat.le_refl _

theorem le_of_keeperDue (h : t.keeperDue = some time) : t.now ≤ time := by
  unfold keeperDue at h
  split at h
  · cases h
  · cases h
  · cases h
    exact Nat.le_refl _
  · split at h <;> cases h
    · exact Nat.le_refl _
    · exact Nat.le_max_right ..
  · split at h <;> cases h
    exact Nat.le_refl _

/-- A step happens when the next thing is due, which is not in the past. -/
theorem now_step (h : t.next = some time) : t.step.now = time ∧ t.now ≤ time := by
  unfold next at h
  unfold step
  cases hoffice : t.office.due t.now with
  | none =>
    cases hkeeper : t.keeperDue with
    | none =>
      rw [hoffice, hkeeper] at h
      cases h
    | some b =>
      rw [hoffice, hkeeper] at h
      cases h
      exact ⟨now_keepOn _, le_of_keeperDue hkeeper⟩
  | some a =>
    have ha := le_of_due hoffice
    cases hkeeper : t.keeperDue with
    | none =>
      rw [hoffice, hkeeper] at h
      cases h
      exact ⟨now_serve _, ha⟩
    | some b =>
      have hb := le_of_keeperDue hkeeper
      rw [hoffice, hkeeper] at h
      cases h
      by_cases hle : a ≤ b
      · simp only [hle, if_true, now_serve]
        omega
      · simp only [hle, if_false, now_keepOn]
        omega

theorem le_now_step (h : time ≤ t.now) : time ≤ t.step.now := by
  cases hnext : t.next with
  | some next =>
    obtain ⟨hnow, hle⟩ := now_step hnext
    omega
  | none =>
    have hstep : t.step = t := by
      unfold Turn.next at hnext
      unfold step
      split at hnext <;> simp_all
    rw [hstep]
    exact h

/-! ## Waits -/

theorem now_passTo (t : Turn) (time : Nat) : (t.passTo time).now = max t.now time := by
  have hgo : ∀ limit t, (passTo.go time limit t).now = max t.now time := by
    intro limit
    induction limit with
    | zero => exact fun t => rfl
    | succ limit ih =>
      intro t
      rw [passTo.go]
      cases hnext : t.next with
      | none => rfl
      | some next =>
        obtain ⟨hnow, hle⟩ := now_step hnext
        by_cases hlt : next < time
        · simp only [Option.any_some, hlt, decide_true, if_true]
          rw [ih, hnow]
          omega
        · simp only [Option.any_some, hlt, decide_false, Bool.false_eq_true, if_false]
  exact hgo _ t

theorem le_now_passTo (t : Turn) (time : Nat) : t.now ≤ (t.passTo time).now := by
  rw [now_passTo]
  exact Nat.le_max_left ..

theorem le_now_await (h : time ≤ t.now) (done : Turn → Bool) : time ≤ (t.await done).now := by
  have hgo : ∀ limit t, time ≤ t.now → time ≤ (await.go done limit t).now := by
    intro limit
    induction limit with
    | zero => exact fun t h => h
    | succ limit ih =>
      intro t h
      rw [await.go]
      split
      · exact h
      · exact ih t.step (le_now_step h)
  exact hgo _ t h

theorem le_now_request (h : time ≤ t.now) (q : Request) : time ≤ (t.request q).1.now :=
  le_now_await (t := { t with office := t.office.ask .caller q, answer := none }) h _

theorem le_now_flush (h : time ≤ t.now) (reply : Reply) : time ≤ (t.flush reply).now := by
  have hpublish := le_now_request h (.publish reply)
  unfold flush
  split
  next u cause hrequest =>
    rw [hrequest] at hpublish
    exact le_now_request hpublish _
  next hrequest =>
    rw [hrequest] at hpublish
    exact hpublish

theorem le_now_drain (h : time ≤ t.now) : time ≤ t.drain.now := le_now_await h _

theorem le_now_complete (h : time ≤ t.now) : time ≤ t.complete.now := by
  unfold complete
  split
  · exact h
  · exact le_now_drain h
  · have hwaited := le_now_await (t := { t with throttle := t.throttle.join (.call callerCall) }) h
      (·.throttle.holds (.call callerCall))
    generalize Turn.await _ _ = u at hwaited ⊢
    dsimp only
    split
    · exact hwaited
    next throttle reply _ =>
      have hflushed := le_now_flush (t := { u with throttle }) hwaited reply
      generalize Turn.flush _ _ = v at hflushed ⊢
      split
      · exact le_now_drain (t := { v with throttle := v.throttle.finish (.call callerCall) }) hflushed
      · exact hflushed

theorem le_now_take (h : time ≤ t.now) (delta : Delta) : time ≤ (t.take delta).1.now := by
  unfold take
  split
  · exact le_now_complete h
  · exact h

end ReplyStream.Turn
