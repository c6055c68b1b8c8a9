/-
A throttle with one caller. Its line for the lock is in order when the keeper
stands in it at most once, between the calls that hold or want the lock ahead
of it and those that want it behind (`Throttle.Ordered`). Every move of the
keeper keeps the order; only the keeper's own turn flushes a value that waits.
-/
import ReplyStream.Throttle.Basic

namespace ReplyStream.Throttle

variable {α : Type} {t : Throttle α} {ahead behind : List Nat} {n : Nat}

/-- Whether the keeper flushes. -/
def isFlushing (t : Throttle α) : Bool :=
  match t.keeper with
  | some (.flushing _) => true
  | none | some .starting | some (.asleep _) | some .rising => false

/-- The keeper's place in the line, when it stands there. -/
def stake (t : Throttle α) : List Actor :=
  match t.keeper with
  | some .rising | some (.flushing _) => [.keeper]
  | none | some .starting | some (.asleep _) => []

theorem stake_eq_nil (h : t.keeper = none) : t.stake = [] := by simp only [stake, h]

theorem isFlushing_eq_false (h : t.keeper = none) : t.isFlushing = false := by simp only [isFlushing, h]

theorem exists_of_isFlushing (h : t.isFlushing = true) : ∃ value, t.keeper = some (.flushing value) := by
  unfold isFlushing at h
  split at h
  next value hkeeper => exact ⟨value, hkeeper⟩
  · cases h
  · cases h
  · cases h
  · cases h

/-- The keeper stands between the calls `ahead` of it and those `behind`, and
flushes only when none is ahead; behind it only the last call of all waits.
There is a keeper only while there is a window or after the end, and a value
only waits in a window. -/
structure Ordered (t : Throttle α) (ahead behind : List Nat) : Prop where
  line : t.line = ahead.map .call ++ t.stake ++ behind.map .call
  barred : ahead ≠ [] → t.isFlushing = false
  shut : behind ≠ [] → t.isClosed = true
  watched : t.keeper.isSome = true → t.isOpen = true ∨ t.isClosed = true
  cleared : t.isOpen = false → t.pending = none

namespace Ordered

theorem new (window : Nat) : (Throttle.new window : Throttle α).Ordered [] [] where
  line := rfl
  barred := by simp
  shut := by simp
  watched := by simp [Throttle.new]
  cleared := fun _ => rfl

/-! ## Moves of the keeper -/

/-- The keeper moves without a place in the line, before and after. -/
theorem set_keeper (h : t.Ordered ahead behind) {keeper : Option (Watch α)} (hstake : t.stake = [])
    (hstake' : ({ t with keeper } : Throttle α).stake = []) (hkeeper : t.keeper.isSome = true) :
    ({ t with keeper } : Throttle α).Ordered ahead behind where
  line := by
    rw [hstake']
    have := h.line
    rw [hstake] at this
    exact this
  barred _ := by
    simp only [stake] at hstake'
    unfold isFlushing
    dsimp only
    split at hstake' <;> simp_all
  shut := h.shut
  watched _ := h.watched hkeeper
  cleared := h.cleared

theorem rest (h : t.Ordered ahead behind) (hkeeper : t.keeper = some .starting) (now : Nat) :
    (t.rest now).Ordered ahead behind := by
  have hstake : t.stake = [] := by simp only [stake, hkeeper]
  unfold Throttle.rest
  split
  · exact h.set_keeper hstake rfl (by rw [hkeeper]; rfl)
  · exact h.set_keeper hstake rfl (by rw [hkeeper]; rfl)

theorem notice (h : t.Ordered ahead behind) {deadline : Nat} (hkeeper : t.keeper = some (.asleep deadline)) :
    t.notice.Ordered ahead behind :=
  h.set_keeper (by simp only [stake, hkeeper]) rfl (by rw [hkeeper]; rfl)

/-- The keeper joins at the end, where no call waits while the throttle is not shut. -/
theorem rise (h : t.Ordered ahead behind) {deadline : Nat} (hkeeper : t.keeper = some (.asleep deadline))
    (hclosed : t.isClosed = false) : t.rise.Ordered ahead behind := by
  have hstake : t.stake = [] := by simp only [stake, hkeeper]
  have hbehind : behind = [] := by
    cases behind with
    | nil => rfl
    | cons n behind =>
      rw [h.shut (by simp)] at hclosed
      cases hclosed
  subst hbehind
  have hline := h.line
  rw [hstake] at hline
  exact {
    line := by
      simp only [Throttle.rise, join, hline, stake, List.append_nil, List.map_nil]
    barred := fun _ => rfl
    shut := h.shut
    watched := fun _ => h.watched (by rw [hkeeper]; rfl)
    cleared := h.cleared }

theorem ahead_eq_nil (h : t.Ordered ahead behind) (hholds : t.holds .keeper = true) : ahead = [] := by
  cases ahead with
  | nil => rfl
  | cons n ahead =>
    have hline := h.line
    simp [holds, hline] at hholds

/-- With the lock, the keeper ends or begins to flush the value that waits. -/
theorem enter_keeper (h : t.Ordered ahead behind) (hkeeper : t.keeper = some .rising)
    (hholds : t.holds .keeper = true) : ∃ t', t'.Ordered [] behind ∧ t'.isClosed = t.isClosed ∧ t'.calls = t.calls ∧
      ((t.enter .keeper = (t', none) ∧ t'.keeper = none ∧ t'.pending = t.pending) ∨
        ∃ value, t.pending = some value ∧ t.enter .keeper = (t', some value) ∧
          t'.keeper = some (.flushing value) ∧ t'.pending = none) := by
  obtain rfl := h.ahead_eq_nil hholds
  have hline := h.line
  simp only [stake, hkeeper, List.map_nil, List.nil_append] at hline
  have htail : t.line.tail = behind.map .call := by rw [hline]; rfl
  cases hclosed : t.isClosed with
  | true =>
    refine ⟨{ t.release with keeper := none }, ?_, hclosed, rfl, .inl ⟨by simp [enter, hclosed], rfl, rfl⟩⟩
    exact {
      line := htail
      barred := fun _ => rfl
      shut := fun _ => hclosed
      watched := nofun
      cleared := h.cleared }
  | false =>
    cases hpending : t.pending with
    | none =>
      refine ⟨{ t.release with keeper := none, isOpen := false }, ?_, hclosed, rfl,
        .inl ⟨by simp [enter, hclosed, hpending], rfl, hpending⟩⟩
      exact {
        line := htail
        barred := fun _ => rfl
        shut := h.shut
        watched := nofun
        cleared := fun _ => hpending }
    | some value =>
      refine ⟨{ t with pending := none, keeper := some (.flushing value) }, ?_, hclosed, rfl,
        .inr ⟨value, rfl, by simp [enter, hclosed, hpending], rfl, rfl⟩⟩
      exact {
        line := hline
        barred := fun hne => absurd rfl hne
        shut := h.shut
        watched := fun _ => h.watched (by rw [hkeeper]; rfl)
        cleared := fun _ => rfl }

theorem finish_keeper (h : t.Ordered ahead behind) (hflushing : t.isFlushing = true) :
    (t.finish .keeper).Ordered ahead behind := by
  have hahead : ahead = [] := by
    cases ahead with
    | nil => rfl
    | cons n ahead =>
      rw [h.barred (by simp)] at hflushing
      cases hflushing
  subst hahead
  obtain ⟨value, hkeeper⟩ := exists_of_isFlushing hflushing
  have hline := h.line
  simp only [stake, hkeeper, List.map_nil, List.nil_append] at hline
  exact {
    line := by simp only [finish, release, hline]; rfl
    barred := fun _ => rfl
    shut := h.shut
    watched := fun _ => h.watched (by rw [hkeeper]; rfl)
    cleared := h.cleared }

/-! ## Calls -/

/-- A value that comes while a window is open waits. -/
theorem wait (h : t.Ordered [] []) (hopen : t.isOpen = true) (hclosed : t.isClosed = false) (n : Nat) (value : α) :
    (t.schedule n value).Ordered [] [] ∧ (t.schedule n value).pending = some value ∧
      (t.schedule n value).calls = t.calls ∧ (t.schedule n value).isClosed = false ∧
      (t.schedule n value).isFlushing = t.isFlushing := by
  have hscheduled : ∃ coalesced, t.schedule n value = { t with pending := some value, coalesced } := by
    refine ⟨if t.pending.isSome then t.coalesced + 1 else t.coalesced, ?_⟩
    unfold schedule
    rw [if_neg (by simp [hclosed]), if_pos hopen]
  obtain ⟨coalesced, hscheduled⟩ := hscheduled
  rw [hscheduled]
  refine ⟨?_, rfl, rfl, hclosed, rfl⟩
  exact {
    line := h.line
    barred := h.barred
    shut := h.shut
    watched := h.watched
    cleared := fun hfalse => absurd (hopen.symm.trans hfalse) (by simp) }

/-- Without a window there is no keeper, and nobody wants the lock. -/
theorem line_eq_nil (h : t.Ordered [] []) (hopen : t.isOpen = false) (hclosed : t.isClosed = false) :
    t.keeper = none ∧ t.line = [] := by
  have hkeeper : t.keeper = none := by
    cases hkeeper : t.keeper with
    | none => rfl
    | some _ =>
      have hwatched := h.watched (by rw [hkeeper]; rfl)
      rw [hopen, hclosed] at hwatched
      rcases hwatched with hwatched | hwatched <;> cases hwatched
  refine ⟨hkeeper, ?_⟩
  have hline := h.line
  rw [stake_eq_nil hkeeper] at hline
  exact hline

/-- A value that comes when no window is open gets the lock at once and opens one. -/
theorem lead (h : t.Ordered [] []) (hopen : t.isOpen = false) (hclosed : t.isClosed = false) (hcalls : t.calls = [])
    (n : Nat) (value : α) :
    (t.schedule n value).phase? n = some (.leading value) ∧
    ((t.schedule n value).join (.call n)).holds (.call n) = true ∧
    ∃ t', ((t.schedule n value).join (.call n)).enter (.call n) = (t', some value) ∧ t'.Ordered [n] [] ∧
      t'.isFlushing = false ∧ t'.isClosed = false ∧ t'.calls = [(n, .flushing value false)] ∧ t'.pending = none := by
  obtain ⟨hkeeper, hline⟩ := h.line_eq_nil hopen hclosed
  have hscheduled : t.schedule n value = { t with isOpen := true, calls := [(n, .leading value)] } := by
    unfold schedule
    rw [if_neg (by simp [hclosed]), if_neg (by simp [hopen]), hcalls]
    rfl
  have hpending := h.cleared hopen
  rw [hscheduled]
  refine ⟨by simp [phase?], by simp [holds, join, hline],
    { t with isOpen := true, keeper := some .starting, line := [.call n], calls := [(n, .flushing value false)] },
    by simp [enter, phase?, join, setPhase, hclosed, hline], ?_, rfl, hclosed, rfl, hpending⟩
  exact {
    line := rfl
    barred := fun _ => rfl
    shut := by simp
    watched := fun _ => .inl rfl
    cleared := fun _ => hpending }

/-- The last value of all waits for the lock behind the keeper. -/
theorem closing (h : t.Ordered [] []) (hclosed : t.isClosed = false) (hcalls : t.calls = []) (n : Nat) (value : α) :
    (t.flushNow n value).phase? n = some (.closing value) ∧
      ((t.flushNow n value).join (.call n)).Ordered [] [n] ∧
      ((t.flushNow n value).join (.call n)).isFlushing = t.isFlushing ∧
      ((t.flushNow n value).join (.call n)).calls = [(n, .closing value)] ∧
      ((t.flushNow n value).join (.call n)).pending = none ∧
      ((t.flushNow n value).join (.call n)).isClosed = true := by
  have hshut : t.flushNow n value = { t.shut with calls := [(n, .closing value)] } := by
    unfold flushNow
    rw [if_neg (by simp [hclosed]), hcalls]
    rfl
  rw [hshut]
  refine ⟨by simp [phase?], ?_, rfl, rfl, rfl, rfl⟩
  have hline := h.line
  simp only [List.map_nil, List.nil_append, List.append_nil] at hline
  exact {
    line := congrArg (fun line => line ++ [Actor.call n]) hline
    barred := by simp
    shut := fun _ => rfl
    watched := fun _ => .inr rfl
    cleared := fun _ => rfl }

/-- A call that shuts the throttle waits for the keeper to end, and nothing else does. -/
theorem shutting (h : t.Ordered [] []) (hclosed : t.isClosed = false) (hcalls : t.calls = []) (n : Nat) :
    (t.close n).phase? n = some .draining ∧ (t.close n).Ordered [] [] ∧ (t.close n).isFlushing = t.isFlushing ∧
      (t.close n).pending = none := by
  have hshut : t.close n = { t.shut with calls := [(n, .draining)] } := by
    unfold close
    rw [if_neg (by simp [hclosed]), hcalls]
    rfl
  rw [hshut]
  refine ⟨by simp [phase?], ?_, rfl, rfl⟩
  exact {
    line := h.line
    barred := h.barred
    shut := by simp
    watched := fun _ => .inr rfl
    cleared := fun _ => rfl }

/-- The last call with the lock is ahead of the keeper. -/
theorem holds_call (h : t.Ordered [] [n]) (hholds : t.holds (.call n) = true) : t.Ordered [n] [] := by
  have hstake : t.stake = [] := by
    have hline := h.line
    cases hstake : t.stake with
    | nil => rfl
    | cons a stake =>
      have ha : a = .keeper := by
        unfold Throttle.stake at hstake
        split at hstake <;> cases hstake <;> rfl
      rw [hstake, ha] at hline
      simp [holds, hline] at hholds
  have hline := h.line
  rw [hstake] at hline
  exact {
    line := by
      rw [hstake]
      exact hline
    barred := fun _ => by
      unfold Throttle.stake at hstake
      unfold isFlushing
      split at hstake <;> simp_all
    shut := by simp
    watched := h.watched
    cleared := h.cleared }

/-- The last call flushes its value, and waits for the keeper behind that. -/
theorem enter_closing (h : t.Ordered [n] []) {value : α} (hcalls : t.calls = [(n, .closing value)]) :
    ∃ t', t.enter (.call n) = (t', some value) ∧ t'.Ordered [n] [] ∧ t'.isFlushing = t.isFlushing ∧
      t'.isClosed = t.isClosed ∧ t'.calls = [(n, .flushing value true)] ∧ t'.pending = t.pending := by
  refine ⟨{ t with calls := [(n, .flushing value true)] }, by simp [enter, phase?, setPhase, hcalls],
    ⟨h.line, h.barred, h.shut, h.watched, h.cleared⟩, rfl, rfl, rfl, rfl⟩

theorem finish_call (h : t.Ordered [n] []) {value : α} {final : Bool}
    (hcalls : t.calls = [(n, .flushing value final)]) :
    (t.finish (.call n)).Ordered [] [] ∧ (t.finish (.call n)).keeper = t.keeper ∧
      (t.finish (.call n)).isClosed = t.isClosed ∧ (t.finish (.call n)).pending = t.pending ∧
      (t.finish (.call n)).calls = if final then [(n, .draining)] else [] := by
  have hline : t.line.tail = t.stake := by
    rw [h.line]
    simp
  have hfinish : t.finish (.call n) =
      { t with line := t.line.tail, calls := if final then [(n, .draining)] else [] } := by
    cases final <;> simp [finish, phase?, release, setPhase, leave, hcalls]
  rw [hfinish]
  refine ⟨?_, rfl, rfl, rfl, rfl⟩
  exact {
    line := by
      rw [hline]
      simp [stake]
    barred := by simp
    shut := by simp
    watched := h.watched
    cleared := h.cleared }

end Ordered

end ReplyStream.Throttle
