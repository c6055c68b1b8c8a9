/-
A throttle that many use at the same time. Any of them may make a call at any
time, and whoever can go on may: the moves of a throttle come in any order
(`Throttle.live`), and flushes and windows take as long as they take.

At every time the lock is in order (`Throttle.Locked`): whoever flushes is the
first in line, so no two flush at the same time (`Locked.flushing_le`), and
those in line want the lock or flush, so that somebody can always go on unless
all is quiet (`Locked.exists_can`).
-/
import Mathlib.Data.List.Nodup
import ReplyStream.Proofs.Throttle

namespace ReplyStream.Throttle

variable {α : Type}

namespace Phase

/-- Whether the call wants the lock. -/
def wants : Phase α → Bool
  | .leading _ | .closing _ => true
  | .flushing .. | .draining => false

def flushes : Phase α → Bool
  | .flushing .. => true
  | .leading _ | .closing _ | .draining => false

def drains : Phase α → Bool
  | .draining => true
  | .leading _ | .closing _ | .flushing .. => false

/-- The value of a call that is to lead a window. -/
def leads? : Phase α → Option α
  | .leading value => some value
  | .closing _ | .flushing .. | .draining => none

@[simp] theorem leads?_leading (value : α) : (leading value).leads? = some value := rfl
@[simp] theorem leads?_closing (value : α) : (closing value).leads? = none := rfl
@[simp] theorem leads?_flushing (value : α) (final : Bool) : (flushing value final).leads? = none := rfl
@[simp] theorem leads?_draining : (draining : Phase α).leads? = none := rfl

end Phase

/-! ## Moves -/

/-- A move of a throttle. A call has a number of its own while it lasts. -/
inductive Move (α : Type) where
  | schedule (n : Nat) (value : α)
  | flushNow (n : Nat) (value : α)
  | close (n : Nat)
  | join (n : Nat)
  | enter (a : Actor)
  | finish (a : Actor)
  | leave (n : Nat)
  | rest (now : Nat)
  | rise (now : Nat)
  | notice

/-- Whether a new call is made. -/
def Move.isCall : Move α → Bool
  | .schedule .. | .flushNow .. | .close _ => true
  | .join _ | .enter _ | .finish _ | .leave _ | .rest _ | .rise _ | .notice => false

/-- Whether an actor wants the lock. -/
def wants (t : Throttle α) : Actor → Bool
  | .call n => (t.phase? n).any (·.wants)
  | .keeper =>
    match t.keeper with
    | some .rising => true
    | _ => false

def flushes (t : Throttle α) : Actor → Bool
  | .call n => (t.phase? n).any (·.flushes)
  | .keeper => t.isFlushing

/-- Whether a move may be made. The keeper may sleep through a window that
takes no time, though the throttle is shut. A call that drains may return at
any time: what it waits for plays no part here. -/
def can (t : Throttle α) : Move α → Bool
  | .schedule n _ | .flushNow n _ | .close n => (t.phase? n).isNone
  | .join n => t.wants (.call n) && !t.line.contains (.call n)
  | .enter a => t.holds a && t.wants a
  | .finish a => t.flushes a
  | .leave n => (t.phase? n).any (·.drains)
  | .rest _ =>
    match t.keeper with
    | some .starting => true
    | _ => false
  | .rise now =>
    match t.keeper with
    | some .starting => t.window = 0
    | some (.asleep deadline) => deadline ≤ now
    | _ => false
  | .notice =>
    match t.keeper with
    | some (.asleep _) => t.isClosed
    | _ => false

/-- Whether a move may be made by one who also waits as long as a call has
to: a call that drains returns when the keeper has ended. -/
def may (t : Throttle α) (m : Move α) : Bool :=
  t.can m && match m with
    | .leave _ => t.keeper.isNone
    | _ => true

def make (t : Throttle α) : Move α → Throttle α
  | .schedule n value => t.schedule n value
  | .flushNow n value => t.flushNow n value
  | .close n => t.close n
  | .join n => t.join (.call n)
  | .enter a => (t.enter a).1
  | .finish a => t.finish a
  | .leave n => t.leave n
  | .rest now => t.rest now
  | .rise _ => t.rise
  | .notice => t.notice

theorem can_of_may {t : Throttle α} {m : Move α} (h : t.may m = true) : t.can m = true := (Bool.and_eq_true_iff.1 h).1

/-- What stands behind a move that may be made. -/
inductive Allowed (t : Throttle α) : Move α → Prop
  | schedule {n value} (hfresh : t.phase? n = none) : Allowed t (.schedule n value)
  | flushNow {n value} (hfresh : t.phase? n = none) : Allowed t (.flushNow n value)
  | close {n} (hfresh : t.phase? n = none) : Allowed t (.close n)
  | join {n phase} (hphase : t.phase? n = some phase) (hwants : phase.wants = true) (hline : .call n ∉ t.line) :
      Allowed t (.join n)
  | enterLeading {n value} (hphase : t.phase? n = some (.leading value)) (hhead : t.line.head? = some (.call n)) :
      Allowed t (.enter (.call n))
  | enterClosing {n value} (hphase : t.phase? n = some (.closing value)) (hhead : t.line.head? = some (.call n)) :
      Allowed t (.enter (.call n))
  | enterKeeper (hkeeper : t.keeper = some .rising) (hhead : t.line.head? = some .keeper) : Allowed t (.enter .keeper)
  | finishCall {n value final} (hphase : t.phase? n = some (.flushing value final)) : Allowed t (.finish (.call n))
  | finishKeeper (hflushing : t.isFlushing = true) : Allowed t (.finish .keeper)
  | leave {n} (hphase : t.phase? n = some .draining) : Allowed t (.leave n)
  | rest {now} (hkeeper : t.keeper = some .starting) : Allowed t (.rest now)
  | riseAtOnce {now} (hkeeper : t.keeper = some .starting) (hwindow : t.window = 0) : Allowed t (.rise now)
  | rise {now deadline} (hkeeper : t.keeper = some (.asleep deadline)) (hdue : deadline ≤ now) : Allowed t (.rise now)
  | notice {deadline} (hkeeper : t.keeper = some (.asleep deadline)) (hclosed : t.isClosed = true) : Allowed t .notice

theorem allowed_of_can {t : Throttle α} {m : Move α} (hcan : t.can m = true) : t.Allowed m := by
  cases m with
  | schedule n value => exact .schedule (by simpa [can] using hcan)
  | flushNow n value => exact .flushNow (by simpa [can] using hcan)
  | close n => exact .close (by simpa [can] using hcan)
  | join n =>
    simp only [can, wants, Bool.and_eq_true, Option.any_eq_true] at hcan
    obtain ⟨⟨phase, hphase, hwants⟩, hline⟩ := hcan
    exact .join hphase hwants (by simpa using hline)
  | enter a =>
    simp only [can, holds, Bool.and_eq_true, decide_eq_true_eq] at hcan
    obtain ⟨hhead, hwants⟩ := hcan
    cases a with
    | call n =>
      simp only [wants, Option.any_eq_true] at hwants
      obtain ⟨phase, hphase, hwants⟩ := hwants
      cases phase with
      | leading value => exact .enterLeading hphase hhead
      | closing value => exact .enterClosing hphase hhead
      | flushing value final => cases hwants
      | draining => cases hwants
    | keeper =>
      simp only [wants] at hwants
      split at hwants
      next hkeeper => exact .enterKeeper hkeeper hhead
      next => cases hwants
  | finish a =>
    cases a with
    | call n =>
      simp only [can, flushes, Option.any_eq_true] at hcan
      obtain ⟨phase, hphase, hflushes⟩ := hcan
      cases phase with
      | flushing value final => exact .finishCall hphase
      | leading value => cases hflushes
      | closing value => cases hflushes
      | draining => cases hflushes
    | keeper => exact .finishKeeper hcan
  | leave n =>
    simp only [can, Option.any_eq_true] at hcan
    obtain ⟨phase, hphase, hdrains⟩ := hcan
    cases phase with
    | draining => exact .leave hphase
    | leading value => cases hdrains
    | closing value => cases hdrains
    | flushing value final => cases hdrains
  | rest now =>
    simp only [can] at hcan
    split at hcan
    next hkeeper => exact .rest hkeeper
    next => cases hcan
  | rise now =>
    simp only [can] at hcan
    split at hcan
    next hkeeper => exact .riseAtOnce hkeeper (by simpa using hcan)
    next deadline hkeeper => exact .rise hkeeper (by simpa using hcan)
    next => cases hcan
  | notice =>
    simp only [can] at hcan
    split at hcan
    next deadline hkeeper => exact .notice hkeeper hcan
    next => cases hcan

/-! ## The lock -/

/-- Those who flush. -/
def flushing (t : Throttle α) : List Actor :=
  (t.calls.filter (·.2.flushes)).map (.call ·.1) ++ if t.isFlushing then [.keeper] else []

/-- Calls have numbers of their own. In line are those who want the lock or
flush, each once, and among them the keeper if it does; who flushes is first. -/
structure Locked (t : Throttle α) : Prop where
  keys : (t.calls.map (·.1)).Nodup
  line : t.line.Nodup
  queued : ∀ n, .call n ∈ t.line → ∃ phase, (n, phase) ∈ t.calls ∧ (phase.wants = true ∨ phase.flushes = true)
  staked : .keeper ∈ t.line ↔ t.stake ≠ []
  busy : ∀ c ∈ t.calls, c.2.flushes = true → t.line.head? = some (.call c.1)
  busyKeeper : t.isFlushing = true → t.line.head? = some .keeper

variable {t t' : Throttle α} {n : Nat} {phase : Phase α}

theorem locked_new (window : Nat) : (new window : Throttle α).Locked where
  keys := List.nodup_nil
  line := List.nodup_nil
  queued := by simp [new]
  staked := by simp [new, stake]
  busy := by simp [new]
  busyKeeper := by simp [new, isFlushing]

theorem stake_ne_nil (h : t.isFlushing = true) : t.stake ≠ [] := by
  unfold isFlushing at h
  unfold stake
  split at h <;> simp_all

theorem isFlushing_of_stake (h : t.stake = []) : t.isFlushing = false := by
  cases hflushing : t.isFlushing with
  | true => exact absurd h (stake_ne_nil hflushing)
  | false => rfl

theorem stake_congr (h : t'.keeper = t.keeper) : t'.stake = t.stake := by simp only [stake, h]

theorem isFlushing_congr (h : t'.keeper = t.keeper) : t'.isFlushing = t.isFlushing := by simp only [isFlushing, h]

theorem first_append {a : Actor} {line more : List Actor} (h : line.head? = some a) :
    (line ++ more).head? = some a := by
  rw [List.head?_append, h]
  rfl

theorem fresh_of_phase (h : t.phase? n = none) : n ∉ t.calls.map (·.1) := by
  intro hmem
  obtain ⟨c, hc, rfl⟩ := List.mem_map.1 hmem
  simp only [phase?, Option.map_eq_none_iff, List.find?_eq_none] at h
  simpa using h c hc

theorem mem_of_phase (h : t.phase? n = some phase) : (n, phase) ∈ t.calls := by
  obtain ⟨c, hc, rfl⟩ := Option.map_eq_some_iff.1 h
  have hn : c.1 = n := by simpa using List.find?_some hc
  subst hn
  exact List.mem_of_find?_eq_some hc

theorem phase_of_mem {c : Nat × Phase α} (hkeys : (t.calls.map (·.1)).Nodup) (hc : c ∈ t.calls) :
    t.phase? c.1 = some c.2 := by
  obtain ⟨c', hfind⟩ : ∃ c', t.calls.find? (·.1 = c.1) = some c' := by
    refine Option.isSome_iff_exists.1 ?_
    rw [List.find?_isSome]
    exact ⟨c, hc, by simp⟩
  have hkey : c'.1 = c.1 := by simpa using List.find?_some hfind
  rw [phase?, hfind, List.inj_on_of_nodup_map hkeys (List.mem_of_find?_eq_some hfind) hc hkey]
  rfl

/-! ## Calls -/

/-- A call that stands somewhere, and all the others. -/
structure Entry (t : Throttle α) (n : Nat) (phase : Phase α) (front back : List (Nat × Phase α)) : Prop where
  phase_eq : t.phase? n = some phase
  calls : t.calls = front ++ (n, phase) :: back
  others : ∀ c ∈ front ++ back, c.1 ≠ n

theorem Locked.entry (h : t.Locked) (hphase : t.phase? n = some phase) : ∃ front back, t.Entry n phase front back := by
  obtain ⟨front, back, hcalls⟩ := List.append_of_mem (mem_of_phase hphase)
  have hkeys := h.keys
  rw [hcalls, List.map_append, List.map_cons, List.nodup_middle, ← List.map_append] at hkeys
  refine ⟨front, back, hphase, hcalls, ?_⟩
  intro c hc hn
  have hmem : c.1 ∈ (front ++ back).map (·.1) := List.mem_map_of_mem hc
  rw [hn] at hmem
  exact (List.nodup_cons.1 hkeys).1 hmem

namespace Entry

variable {front back : List (Nat × Phase α)}

theorem release (h : t.Entry n phase front back) : t.release.Entry n phase front back := ⟨h.phase_eq, h.calls, h.others⟩

theorem setPhase (h : t.Entry n phase front back) (phase' : Phase α) :
    t.setPhase n phase' = { t with calls := front ++ (n, phase') :: back } := by
  have hsame : ∀ l : List (Nat × Phase α), (∀ c ∈ l, c.1 ≠ n) →
      l.map (fun c => if c.1 = n then (n, phase') else c) = l := by
    intro l hl
    refine (List.map_congr_left fun c hc => ?_).trans (List.map_id l)
    rw [if_neg (hl c hc)]
    rfl
  rw [Throttle.setPhase, h.calls, List.map_append, List.map_cons, if_pos rfl,
    hsame front fun c hc => h.others c (List.mem_append_left _ hc),
    hsame back fun c hc => h.others c (List.mem_append_right _ hc)]

theorem leave (h : t.Entry n phase front back) : t.leave n = { t with calls := front ++ back } := by
  have hsame : ∀ l : List (Nat × Phase α), (∀ c ∈ l, c.1 ≠ n) → l.filter (·.1 ≠ n) = l := by
    intro l hl
    exact List.filter_eq_self.2 fun c hc => by simpa using hl c hc
  rw [Throttle.leave, h.calls, List.filter_append, List.filter_cons_of_neg (by simp),
    hsame front fun c hc => h.others c (List.mem_append_left _ hc),
    hsame back fun c hc => h.others c (List.mem_append_right _ hc)]

/-- With the lock, a call that is to lead a window sets a keeper on it. -/
theorem enter_open {value : α} (h : t.Entry n (.leading value) front back) (hclosed : t.isClosed = false) :
    t.enter (.call n) =
      ({ t with calls := front ++ (n, .flushing value false) :: back, keeper := some .starting }, some value) := by
  simp [Throttle.enter, h.phase_eq, hclosed, h.setPhase]

theorem enter_shut {value : α} (h : t.Entry n (.leading value) front back) (hclosed : t.isClosed = true) :
    t.enter (.call n) = ({ t with line := t.line.tail, calls := front ++ back }, none) := by
  simp only [Throttle.enter, h.phase_eq]
  rw [if_pos hclosed, h.release.leave]
  rfl

theorem enter_closing {value : α} (h : t.Entry n (.closing value) front back) :
    t.enter (.call n) = ({ t with calls := front ++ (n, .flushing value true) :: back }, some value) := by
  simp only [Throttle.enter, h.phase_eq, h.setPhase]

theorem finish {value : α} {final : Bool} (h : t.Entry n (.flushing value final) front back) :
    t.finish (.call n) =
      { t with
        line := t.line.tail
        calls := front ++ (if final then [(n, .draining)] else []) ++ back } := by
  cases final with
  | true =>
    simp only [Throttle.finish, h.phase_eq, h.release.setPhase, if_true, List.append_assoc, List.singleton_append]
    rfl
  | false =>
    simp only [Throttle.finish, h.phase_eq, h.release.leave, Bool.false_eq_true, if_false, List.append_nil]
    rfl

end Entry

namespace Locked

/-- A call comes in. -/
theorem add (h : t.Locked) (phase : Phase α) (hfresh : t.phase? n = none) (hphase : phase.flushes = false)
    (hline : t'.line = t.line) (hcalls : t'.calls = t.calls ++ [(n, phase)]) (hkeeper : t'.keeper = t.keeper) :
    t'.Locked where
  keys := by
    rw [hcalls, List.map_append, List.nodup_append]
    refine ⟨h.keys, by simp, ?_⟩
    intro m hm m' hm' heq
    obtain rfl : m' = n := by simpa using hm'
    exact fresh_of_phase hfresh (heq ▸ hm)
  line := by
    rw [hline]
    exact h.line
  queued := by
    intro m hm
    rw [hline] at hm
    obtain ⟨phase', hmem, hwants⟩ := h.queued m hm
    exact ⟨phase', by rw [hcalls]; exact List.mem_append_left _ hmem, hwants⟩
  staked := by
    rw [hline, stake_congr hkeeper]
    exact h.staked
  busy := by
    intro c hc hflushes
    rw [hcalls] at hc
    rw [hline]
    rcases List.mem_append.1 hc with hc | hc
    · exact h.busy c hc hflushes
    · obtain rfl := List.mem_singleton.1 hc
      rw [hphase] at hflushes
      cases hflushes
  busyKeeper := by
    rw [hline, isFlushing_congr hkeeper]
    exact h.busyKeeper

theorem join (h : t.Locked) (hphase : t.phase? n = some phase) (hwants : phase.wants = true)
    (hline : .call n ∉ t.line) : (t.join (.call n)).Locked where
  keys := h.keys
  line := by
    refine List.nodup_append.2 ⟨h.line, by simp, ?_⟩
    intro a ha b hb heq
    obtain rfl := List.mem_singleton.1 hb
    exact hline (heq ▸ ha)
  queued := by
    intro m hm
    rcases List.mem_append.1 hm with hm | hm
    · exact h.queued m hm
    · obtain rfl : m = n := by simpa using hm
      exact ⟨phase, mem_of_phase hphase, .inl hwants⟩
  staked := by
    have : Actor.keeper ∈ (t.join (.call n)).line ↔ .keeper ∈ t.line := by simp [Throttle.join]
    rw [this]
    exact h.staked
  busy c hc hflushes := first_append (h.busy c hc hflushes)
  busyKeeper hflushing := first_append (h.busyKeeper hflushing)

variable {front back : List (Nat × Phase α)}

theorem begin {phase' : Phase α} (h : t.Locked) (he : t.Entry n phase front back)
    (hhead : t.line.head? = some (.call n)) (hflushes : phase'.flushes = true)
    (hcalls' : t'.calls = front ++ (n, phase') :: back) (hline : t'.line = t.line) (hstake : t'.stake = t.stake)
    (hflushing : t'.isFlushing = t.isFlushing) : t'.Locked where
  keys := by
    have hkeys := h.keys
    rw [he.calls] at hkeys
    rw [hcalls']
    simpa using hkeys
  line := by
    rw [hline]
    exact h.line
  queued := by
    intro m hm
    rw [hline] at hm
    by_cases hmn : m = n
    · subst hmn
      exact ⟨phase', by simp [hcalls'], .inr hflushes⟩
    · obtain ⟨phase'', hmem, hwants⟩ := h.queued m hm
      refine ⟨phase'', ?_, hwants⟩
      rw [he.calls] at hmem
      rw [hcalls']
      simpa [hmn] using hmem
  staked := by
    rw [hline, hstake]
    exact h.staked
  busy := by
    intro c hc hflushes'
    rw [hline]
    rw [hcalls'] at hc
    by_cases hcn : c = (n, phase')
    · rw [hcn]
      exact hhead
    · refine h.busy c ?_ hflushes'
      rw [he.calls]
      simp only [List.mem_append, List.mem_cons] at hc ⊢
      tauto
  busyKeeper := by
    rw [hline, hflushing]
    exact h.busyKeeper

/-- The call that holds the lock gives it up, and returns or drains. -/
theorem pass {rest : List (Nat × Phase α)} (h : t.Locked) (he : t.Entry n phase front back)
    (hhead : t.line.head? = some (.call n))
    (hrest : rest = [] ∨ rest = [(n, .draining)]) (hcalls' : t'.calls = front ++ rest ++ back)
    (hline : t'.line = t.line.tail) (hkeeper : t'.keeper = t.keeper) : t'.Locked := by
  obtain ⟨line, hcons⟩ := List.head?_eq_some_iff.1 hhead
  have hnodup := h.line
  rw [hcons] at hnodup hline
  have hmem : ∀ c ∈ t'.calls, c ∈ front ++ back ∨ c = (n, .draining) := by
    intro c hc
    rw [hcalls'] at hc
    rcases hrest with rfl | rfl
    · exact .inl (by simpa using hc)
    · simp only [List.mem_append, List.mem_singleton] at hc ⊢
      tauto
  exact {
    keys := by
      have hkeys := h.keys
      rw [he.calls] at hkeys
      rw [hcalls']
      rcases hrest with rfl | rfl
      · refine hkeys.sublist ?_
        simp
      · simpa using hkeys
    line := by
      rw [hline]
      exact (List.nodup_cons.1 hnodup).2
    queued := by
      intro m hm
      rw [hline, List.tail_cons] at hm
      have hmn : m ≠ n := by
        rintro rfl
        exact (List.nodup_cons.1 hnodup).1 hm
      obtain ⟨phase', hmem', hwants⟩ := h.queued m (by rw [hcons]; exact List.mem_cons_of_mem _ hm)
      refine ⟨phase', ?_, hwants⟩
      rw [he.calls] at hmem'
      rw [hcalls']
      simp only [List.mem_append, List.mem_cons, Prod.mk.injEq] at hmem' ⊢
      tauto
    staked := by
      have hstaked := h.staked
      rw [hcons] at hstaked
      rw [hline, stake_congr hkeeper]
      simpa using hstaked
    busy := by
      intro c hc hflushes
      rcases hmem c hc with hc | rfl
      · have hfirst := h.busy c (by rw [he.calls]; simp at hc ⊢; tauto) hflushes
        rw [hhead] at hfirst
        cases hfirst
        exact absurd rfl (he.others c hc)
      · cases hflushes
    busyKeeper := by
      intro hflushing
      rw [isFlushing_congr hkeeper] at hflushing
      have hfirst := h.busyKeeper hflushing
      rw [hhead] at hfirst
      cases hfirst }

theorem leave (h : t.Locked) (he : t.Entry n .draining front back) (hcalls' : t'.calls = front ++ back)
    (hline : t'.line = t.line) (hkeeper : t'.keeper = t.keeper) : t'.Locked where
  keys := by
    have hkeys := h.keys
    rw [he.calls] at hkeys
    rw [hcalls']
    refine hkeys.sublist ?_
    simp
  line := by
    rw [hline]
    exact h.line
  queued := by
    intro m hm
    rw [hline] at hm
    obtain ⟨phase', hmem, hwants⟩ := h.queued m hm
    refine ⟨phase', ?_, hwants⟩
    rw [he.calls] at hmem
    rw [hcalls']
    simp only [List.mem_append, List.mem_cons, Prod.mk.injEq] at hmem ⊢
    rcases hmem with hmem | ⟨-, rfl⟩ | hmem
    · exact .inl hmem
    · rcases hwants with hwants | hwants <;> cases hwants
    · exact .inr hmem
  staked := by
    rw [hline, stake_congr hkeeper]
    exact h.staked
  busy := by
    intro c hc hflushes
    rw [hline]
    refine h.busy c ?_ hflushes
    rw [hcalls'] at hc
    rw [he.calls]
    simp at hc ⊢
    tauto
  busyKeeper := by
    rw [hline, isFlushing_congr hkeeper]
    exact h.busyKeeper

/-! ### The keeper -/

/-- The keeper moves without a place in line, before and after. -/
theorem set_keeper (h : t.Locked) {keeper : Option (Watch α)} (hstake : t.stake = [])
    (hstake' : ({ t with keeper } : Throttle α).stake = []) : ({ t with keeper } : Throttle α).Locked where
  keys := h.keys
  line := h.line
  queued := h.queued
  staked := by
    have hstaked := h.staked
    rw [hstake] at hstaked
    rw [hstake']
    exact hstaked
  busy := h.busy
  busyKeeper hflushing := by
    rw [isFlushing_of_stake hstake'] at hflushing
    cases hflushing

theorem rise (h : t.Locked) (hstake : t.stake = []) : t.rise.Locked where
  keys := h.keys
  line := by
    refine List.nodup_append.2 ⟨h.line, by simp, ?_⟩
    intro a ha b hb heq
    obtain rfl := List.mem_singleton.1 hb
    exact h.staked.1 (heq ▸ ha) hstake
  queued := by
    intro m hm
    refine h.queued m ?_
    simpa [Throttle.rise, Throttle.join] using hm
  staked := by simp [Throttle.rise, Throttle.join, stake]
  busy c hc hflushes := first_append (h.busy c hc hflushes)
  busyKeeper hflushing := by cases hflushing

theorem begin_keeper (h : t.Locked) (hkeeper : t.keeper = some .rising) (hhead : t.line.head? = some .keeper)
    (value : α) : ({ t with pending := none, keeper := some (.flushing value) } : Throttle α).Locked where
  keys := h.keys
  line := h.line
  queued := h.queued
  staked := by
    have hstaked := h.staked
    simp only [stake, hkeeper] at hstaked ⊢
    exact hstaked
  busy := h.busy
  busyKeeper _ := hhead

theorem pass_keeper (h : t.Locked) (hhead : t.line.head? = some .keeper) (hcalls : t'.calls = t.calls)
    (hline : t'.line = t.line.tail) (hstake : t'.stake = []) : t'.Locked := by
  obtain ⟨line, hcons⟩ := List.head?_eq_some_iff.1 hhead
  have hnodup := h.line
  rw [hcons] at hnodup hline
  exact {
    keys := by
      rw [hcalls]
      exact h.keys
    line := by
      rw [hline]
      exact (List.nodup_cons.1 hnodup).2
    queued := by
      intro m hm
      rw [hline, List.tail_cons] at hm
      rw [hcalls]
      exact h.queued m (by rw [hcons]; exact List.mem_cons_of_mem _ hm)
    staked := by
      rw [hline, hstake]
      simpa using (List.nodup_cons.1 hnodup).1
    busy := by
      intro c hc hflushes
      rw [hcalls] at hc
      have hfirst := h.busy c hc hflushes
      rw [hhead] at hfirst
      cases hfirst
    busyKeeper := by
      intro hflushing
      rw [isFlushing_of_stake hstake] at hflushing
      cases hflushing }

/-! ### What follows -/

/-- No two flush at the same time. -/
theorem flushing_le (h : t.Locked) : t.flushing.length ≤ 1 := by
  have hfirst : ∀ a ∈ t.flushing, t.line.head? = some a := by
    intro a ha
    rcases List.mem_append.1 ha with ha | ha
    · obtain ⟨c, hc, rfl⟩ := List.mem_map.1 ha
      obtain ⟨hc, hflushes⟩ := List.mem_filter.1 hc
      exact h.busy c hc hflushes
    · split at ha
      next hflushing =>
        obtain rfl := List.mem_singleton.1 ha
        exact h.busyKeeper hflushing
      next => cases ha
  have hnodup : t.flushing.Nodup := by
    refine List.nodup_append.2 ⟨?_, by split <;> simp, ?_⟩
    · have hkeys : ((t.calls.filter (·.2.flushes)).map (·.1)).Nodup :=
        h.keys.sublist (List.filter_sublist.map _)
      have := hkeys.map (f := Actor.call) (fun a b heq => Actor.call.inj heq)
      rwa [List.map_map] at this
    · intro a ha b hb heq
      obtain ⟨c, -, rfl⟩ := List.mem_map.1 ha
      split at hb
      · obtain rfl := List.mem_singleton.1 hb
        cases heq
      · cases hb
  match hlist : t.flushing, hfirst, hnodup with
  | [], _, _ => simp
  | [a], _, _ => simp
  | a :: b :: rest, hfirst, hnodup =>
    have ha := hfirst a (by simp)
    rw [hfirst b (by simp)] at ha
    cases ha
    simp at hnodup

/-- Unless all is quiet somebody can go on, and has waited long enough. -/
theorem exists_may (h : t.Locked) (hbusy : t.calls ≠ [] ∨ t.keeper ≠ none) :
    ∃ m : Move α, m.isCall = false ∧ t.may m = true := by
  cases hline : t.line with
  | cons a line =>
    have hholds : t.holds a = true := by simp [holds, hline]
    cases a with
    | call n =>
      obtain ⟨phase, hmem, hwants | hflushes⟩ := h.queued n (by simp [hline])
      · exact ⟨.enter (.call n), rfl, by simp [may, can, hholds, wants, phase_of_mem h.keys hmem, hwants]⟩
      · exact ⟨.finish (.call n), rfl, by simp [may, can, flushes, phase_of_mem h.keys hmem, hflushes]⟩
    | keeper =>
      have hstake := h.staked.1 (by simp [hline])
      cases hkeeper : t.keeper with
      | none => exact absurd (stake_eq_nil hkeeper) hstake
      | some watch =>
        cases watch with
        | starting | asleep => simp [stake, hkeeper] at hstake
        | rising => exact ⟨.enter .keeper, rfl, by simp [may, can, hholds, wants, hkeeper]⟩
        | flushing value => exact ⟨.finish .keeper, rfl, by simp [may, can, flushes, isFlushing, hkeeper]⟩
  | nil =>
    have hstake : t.stake = [] := by
      have := h.staked
      simpa [hline] using this
    cases hkeeper : t.keeper with
    | some watch =>
      cases watch with
      | starting => exact ⟨.rest 0, rfl, by simp [may, can, hkeeper]⟩
      | asleep deadline => exact ⟨.rise deadline, rfl, by simp [may, can, hkeeper]⟩
      | rising | flushing => simp [stake, hkeeper] at hstake
    | none =>
      obtain ⟨c, calls, hcalls⟩ := List.exists_cons_of_ne_nil (hbusy.resolve_right (by simp [hkeeper]))
      have hmem : c ∈ t.calls := by simp [hcalls]
      have hphase := phase_of_mem h.keys hmem
      obtain ⟨n, phase⟩ := c
      cases phase with
      | leading value | closing value => exact ⟨.join n, rfl, by simp [may, can, wants, hphase, Phase.wants, hline]⟩
      | flushing value final =>
        have := h.busy _ hmem rfl
        simp [hline] at this
      | draining => exact ⟨.leave n, rfl, by simp [may, can, hphase, Phase.drains, hkeeper]⟩

theorem exists_can (h : t.Locked) (hbusy : t.calls ≠ [] ∨ t.keeper ≠ none) :
    ∃ m : Move α, m.isCall = false ∧ t.can m = true := by
  obtain ⟨m, hcall, hmay⟩ := h.exists_may hbusy
  exact ⟨m, hcall, can_of_may hmay⟩

end Locked

end ReplyStream.Throttle
