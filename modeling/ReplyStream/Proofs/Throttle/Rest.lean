/-
A throttle that is left alone comes to rest. Every move but a new call brings
it nearer (`Throttle.Locked.effort_lt`): a call goes on from phase to phase and
returns; the keeper goes around once more for a value that waits, and ends.
-/
import Mathlib.Data.List.Perm.Subperm
import ReplyStream.Proofs.Throttle.Moves

namespace ReplyStream.Throttle

variable {α : Type}

/-- A call that leads a window sets a keeper on it, so it has more ahead of it
than the two of them then have. -/
def Phase.effort : Phase α → Nat
  | .leading _ => 6
  | .closing _ => 3
  | .flushing .. => 2
  | .draining => 1

/-- A keeper that has flushed opens the next window. -/
def Watch.effort : Watch α → Nat
  | .flushing _ => 4
  | .starting => 3
  | .asleep _ => 2
  | .rising => 1

def callsEffort : List (Nat × Phase α) → Nat
  | [] => 0
  | c :: calls => c.2.effort + callsEffort calls

@[simp] theorem callsEffort_nil : callsEffort ([] : List (Nat × Phase α)) = 0 := rfl

@[simp] theorem callsEffort_cons (c : Nat × Phase α) (calls : List (Nat × Phase α)) :
    callsEffort (c :: calls) = c.2.effort + callsEffort calls := rfl

@[simp] theorem callsEffort_append (calls more : List (Nat × Phase α)) :
    callsEffort (calls ++ more) = callsEffort calls + callsEffort more := by
  induction calls with
  | nil => simp
  | cons c calls ih => simp [ih, Nat.add_assoc]

def keeperEffort (keeper : Option (Watch α)) : Nat := keeper.elim 0 Watch.effort

@[simp] theorem keeperEffort_none : keeperEffort (none : Option (Watch α)) = 0 := rfl

@[simp] theorem keeperEffort_some (watch : Watch α) : keeperEffort (some watch) = watch.effort := rfl

/-- What the calls and the keeper still have to go through. A value that waits
sends the keeper around once more. -/
def remaining (t : Throttle α) : Nat :=
  callsEffort t.calls + keeperEffort t.keeper + 4 * t.pending.toList.length

/-- To join the line is a move that leaves as much to go through, so those who
do not stand in it count as well. -/
def effort (t : Throttle α) : Nat := 2 * t.remaining + (t.calls.length + 1 - t.line.length)

variable {t t' : Throttle α} {n : Nat} {phase : Phase α}

/-- No move takes more than one out of the line. -/
theorem effort_lt_of_remaining (hremaining : t'.remaining < t.remaining) (hcalls : t'.calls.length ≤ t.calls.length)
    (hline : t.line.length ≤ t'.line.length + 1) : t'.effort < t.effort := by
  unfold effort
  omega

namespace Locked

theorem line_le (h : t.Locked) : t.line.length ≤ t.calls.length + 1 := by
  have hsubset : t.line ⊆ t.calls.map (.call ·.1) ++ [.keeper] := by
    intro a ha
    cases a with
    | call n =>
      obtain ⟨phase, hmem, -⟩ := h.queued n ha
      exact List.mem_append_left _ (List.mem_map.2 ⟨_, hmem, rfl⟩)
    | keeper => simp
  have hle := (h.line.subperm hsubset).length_le
  simpa using hle

theorem join_effort (h : t.Locked) (hphase : t.phase? n = some phase) (hwants : phase.wants = true)
    (hline : .call n ∉ t.line) : (t.join (.call n)).effort < t.effort := by
  have hle := (h.join hphase hwants hline).line_le
  have hlength : (t.join (.call n)).line.length = t.line.length + 1 := by simp [Throttle.join]
  have hcalls : (t.join (.call n)).calls = t.calls := rfl
  have hremaining : (t.join (.call n)).remaining = t.remaining := rfl
  rw [hlength, hcalls] at hle
  unfold effort
  rw [hremaining, hlength, hcalls]
  omega

/-! ## Calls -/

theorem enter_leading_effort (h : t.Locked) {value : α} (hphase : t.phase? n = some (.leading value)) :
    (t.enter (.call n)).1.effort < t.effort := by
  obtain ⟨front, back, he⟩ := h.entry hphase
  cases hclosed : t.isClosed with
  | true =>
    rw [he.enter_shut hclosed]
    refine effort_lt_of_remaining ?_ ?_ ?_
    · simp [remaining, he.calls, Phase.effort]
    · simp [he.calls]
    · simp only [List.length_tail]
      omega
  | false =>
    rw [he.enter_open hclosed]
    refine effort_lt_of_remaining ?_ ?_ ?_
    · simp only [remaining, he.calls, callsEffort_append, callsEffort_cons, keeperEffort_some, Phase.effort,
        Watch.effort]
      omega
    · simp [he.calls]
    · simp

theorem enter_closing_effort (h : t.Locked) {value : α} (hphase : t.phase? n = some (.closing value)) :
    (t.enter (.call n)).1.effort < t.effort := by
  obtain ⟨front, back, he⟩ := h.entry hphase
  rw [he.enter_closing]
  refine effort_lt_of_remaining ?_ ?_ ?_
  · simp [remaining, he.calls, Phase.effort]
  · simp [he.calls]
  · simp

theorem finish_call_effort (h : t.Locked) {value : α} {final : Bool}
    (hphase : t.phase? n = some (.flushing value final)) : (t.finish (.call n)).effort < t.effort := by
  obtain ⟨front, back, he⟩ := h.entry hphase
  rw [he.finish]
  refine effort_lt_of_remaining ?_ ?_ ?_
  · cases final <;> simp [remaining, he.calls, Phase.effort]
  · cases final <;> simp [he.calls]
  · simp only [List.length_tail]
    omega

theorem leave_effort (h : t.Locked) (hphase : t.phase? n = some .draining) : (t.leave n).effort < t.effort := by
  obtain ⟨front, back, he⟩ := h.entry hphase
  rw [he.leave]
  refine effort_lt_of_remaining ?_ ?_ ?_
  · simp [remaining, he.calls, Phase.effort]
  · simp [he.calls]
  · simp

end Locked

/-! ## The keeper -/

theorem enter_keeper_effort (hkeeper : t.keeper = some .rising) : (t.enter .keeper).1.effort < t.effort := by
  have htail : t.line.length ≤ t.line.tail.length + 1 := by
    rw [List.length_tail]
    omega
  cases hclosed : t.isClosed with
  | true =>
    have henter : t.enter .keeper = ({ t with line := t.line.tail, keeper := none }, none) := by
      simp [enter, hclosed, release]
    rw [henter]
    exact effort_lt_of_remaining (by simp [remaining, hkeeper, Watch.effort]) (Nat.le_refl _) htail
  | false =>
    cases hpending : t.pending with
    | none =>
      have henter : t.enter .keeper = ({ t with line := t.line.tail, keeper := none, isOpen := false }, none) := by
        simp [enter, hclosed, hpending, release]
      rw [henter]
      exact effort_lt_of_remaining (by simp [remaining, hkeeper, Watch.effort]) (Nat.le_refl _) htail
    | some value =>
      have henter : t.enter .keeper =
          ({ t with pending := none, keeper := some (.flushing value) }, some value) := by
        simp [enter, hclosed, hpending]
      rw [henter]
      refine effort_lt_of_remaining ?_ (Nat.le_refl _) (Nat.le_succ _)
      simp [remaining, hkeeper, hpending, Watch.effort]

theorem finish_keeper_effort (hflushing : t.isFlushing = true) : (t.finish .keeper).effort < t.effort := by
  obtain ⟨value, hkeeper⟩ := exists_of_isFlushing hflushing
  refine effort_lt_of_remaining ?_ (Nat.le_refl _) ?_
  · simp [finish, release, remaining, hkeeper, Watch.effort]
  · simp only [finish, release, List.length_tail]
    omega

theorem rest_effort (hkeeper : t.keeper = some .starting) (now : Nat) : (t.rest now).effort < t.effort := by
  cases hclosed : t.isClosed with
  | true =>
    refine effort_lt_of_remaining ?_ ?_ ?_ <;> simp [rest, hclosed, remaining, hkeeper, Watch.effort]
  | false =>
    refine effort_lt_of_remaining ?_ ?_ ?_ <;> simp [rest, hclosed, remaining, hkeeper, Watch.effort]

theorem rise_effort {watch : Watch α} (hkeeper : t.keeper = some watch) (hwatch : 1 < watch.effort) :
    t.rise.effort < t.effort := by
  refine effort_lt_of_remaining ?_ (Nat.le_refl _) ?_
  · simpa [rise, join, remaining, hkeeper, Watch.effort] using hwatch
  · simp only [rise, join, List.length_append, List.length_singleton]
    omega

theorem notice_effort {deadline : Nat} (hkeeper : t.keeper = some (.asleep deadline)) :
    t.notice.effort < t.effort :=
  effort_lt_of_remaining (by simp [notice, remaining, hkeeper, Watch.effort]) (Nat.le_refl _) (Nat.le_succ _)

/-! ## Moves -/

/-- **One move** that is no new call brings the throttle nearer to its rest. -/
theorem Locked.effort_lt (h : t.Locked) {m : Move α} (hcan : t.can m = true) (hcall : m.isCall = false) :
    (t.make m).effort < t.effort := by
  cases allowed_of_can hcan with
  | schedule | flushNow | close => cases hcall
  | join hphase hwants hline => exact h.join_effort hphase hwants hline
  | enterLeading hphase => exact h.enter_leading_effort hphase
  | enterClosing hphase => exact h.enter_closing_effort hphase
  | enterKeeper hkeeper => exact enter_keeper_effort hkeeper
  | finishCall hphase => exact h.finish_call_effort hphase
  | finishKeeper hflushing => exact finish_keeper_effort hflushing
  | leave hphase => exact h.leave_effort hphase
  | @rest now hkeeper => exact rest_effort hkeeper now
  | riseAtOnce hkeeper => exact rise_effort hkeeper (by simp [Watch.effort])
  | rise hkeeper => exact rise_effort hkeeper (by simp [Watch.effort])
  | notice hkeeper => exact notice_effort hkeeper

end ReplyStream.Throttle
