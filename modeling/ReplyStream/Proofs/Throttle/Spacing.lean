/-
A throttle in the course of time (`Throttle.timed`). Moves come in any order,
time may pass between any two of them, and flushes take as long as they take.

At every time there is a time before which no flush can begin, but the last of
all (`Throttle.soonest`). A flush that begins moves it a window ahead, and no
move brings it back (`Throttle.Pace`); so from one flush to the next at least a
window passes (`Throttle.flushes_spaced`).
-/
import Mathlib.Data.List.Chain
import ReplyStream.Proofs.Throttle.Fates

namespace ReplyStream.Throttle

variable {α : Type}

/-! ## Time -/

/-- What a move begins to flush, unless it is the last value of all. -/
def begins? (t : Throttle α) : Move α → Option α
  | .enter (.call n) =>
    match t.phase? n with
    | some (.leading _) => (t.enter (.call n)).2
    | none | some (.closing _) | some (.flushing ..) | some .draining => none
  | .enter .keeper => (t.enter .keeper).2
  | .schedule .. | .flushNow .. | .close _ | .join _ | .finish _ | .leave _ | .rest _ | .rise _ | .notice => none

/-- A move, or that time passes. -/
inductive Beat (α : Type) where
  | move (m : Move α)
  | pass (time : Nat)

/-- Whether the keeper goes to sleep or wakes by the right time. -/
def Move.onTime (now : Nat) : Move α → Bool
  | .rest time | .rise time => time = now
  | .schedule .. | .flushNow .. | .close _ | .join _ | .enter _ | .finish _ | .leave _ | .notice => true

/-- A throttle, the time, and when it was begun to flush what, but for the last value of all. -/
structure Timed (α : Type) where
  throttle : Throttle α
  now : Nat
  begun : List (Nat × α)

/-- Makes a move, if it may be made, or lets time pass, also if somebody could go on. -/
def Timed.step (s : Timed α) : Beat α → Timed α
  | .move m =>
    if s.throttle.can m && m.onTime s.now then
      { s with
        throttle := s.throttle.make m
        begun := s.begun ++ (s.throttle.begins? m).toList.map (s.now, ·) }
    else s
  | .pass time => { s with now := s.now + time }

def timed (window : Nat) (beats : List (Beat α)) : Timed α := beats.foldl Timed.step ⟨new window, 0, []⟩

/-- Before this time no flush begins but the last of all. -/
def soonest (t : Throttle α) (now : Nat) : Nat :=
  match t.keeper with
  | none | some .rising => now
  | some (.asleep deadline) => deadline
  | some .starting | some (.flushing _) => now + t.window

variable {t t' : Throttle α} {f : Fates α} {n now : Nat}

/-- What moves begin to flush is what becomes of values that are flushed. -/
theorem Fates.after_flushed (f : Fates α) (t : Throttle α) (m : Move α) :
    (f.after t m).flushed = f.flushed ++ (t.begins? m).toList := by
  cases m with
  | enter a =>
    cases a with
    | keeper => rfl
    | call n =>
      simp only [Fates.after, begins?]
      cases t.phase? n with
      | none => simp
      | some phase => cases phase <;> cases (t.enter (.call n)).2 <;> simp
  | schedule | flushNow | close => simp only [Fates.after]; split <;> simp [begins?]
  | join | finish | leave | rest | rise | notice => simp [Fates.after, begins?]

theorem soonest_mono (t : Throttle α) (now time : Nat) : t.soonest now ≤ t.soonest (now + time) := by
  unfold soonest
  split <;> omega

/-! ## Moves -/

/-- What a move does in time: it begins no flush and brings none nearer, or it
begins one, whose time has come, and puts the next a window off. -/
inductive Pace (t t' : Throttle α) (now : Nat) : Option α → Prop
  | waits (hwindow : t'.window = t.window)
      (hlater : t'.isClosed = false → t.isClosed = false ∧ t.soonest now ≤ t'.soonest now) : Pace t t' now none
  | begins {value} (hwindow : t'.window = t.window) (hopen : t.isClosed = false) (hready : t.soonest now = now)
      (hlater : now + t.window ≤ t'.soonest now) : Pace t t' now (some value)

namespace Pace

theorem width {value? : Option α} (h : Pace t t' now value?) : t'.window = t.window := by
  cases h with
  | waits hwindow | begins hwindow => exact hwindow

theorem still (hwindow : t'.window = t.window) (hkeeper : t'.keeper = t.keeper)
    (hclosed : t'.isClosed = false → t.isClosed = false) : Pace t t' now none := by
  refine .waits hwindow fun hopen => ⟨hclosed hopen, ?_⟩
  rw [soonest, soonest, hkeeper, hwindow]

/-- When the throttle is shut no flush begins but the last. -/
theorem shut (hwindow : t'.window = t.window) (hclosed : t'.isClosed = true) : Pace t t' now none := by
  refine .waits hwindow fun hopen => ?_
  rw [hclosed] at hopen
  cases hopen

theorem schedule (n : Nat) (value : α) : Pace t (t.schedule n value) now none := by
  unfold Throttle.schedule
  split
  · exact still rfl rfl id
  · split <;> exact still rfl rfl id

theorem flushNow (n : Nat) (value : α) : Pace t (t.flushNow n value) now none := by
  unfold Throttle.flushNow
  split
  · exact still rfl rfl id
  · exact shut rfl rfl

theorem close (n : Nat) : Pace t (t.close n) now none := by
  unfold Throttle.close
  split
  · exact still rfl rfl id
  · exact shut rfl rfl

/-- A call that leads a window is alone with it, without a keeper. -/
theorem enter_leading (h : Sound t f) {value : α} (hphase : t.phase? n = some (.leading value)) :
    Pace t (t.enter (.call n)).1 now (t.begins? (.enter (.call n))) := by
  obtain ⟨front, back, he⟩ := h.locked.entry hphase
  simp only [begins?, hphase]
  cases hclosed : t.isClosed with
  | true =>
    rw [he.enter_shut hclosed]
    exact shut rfl hclosed
  | false =>
    have hmem : value ∈ t.leaders := by simp [leaders, he.calls]
    obtain ⟨-, hkeeper, -⟩ := h.watched.alone hclosed hmem
    rw [he.enter_open hclosed]
    exact .begins rfl hclosed (by simp only [soonest, hkeeper]) (Nat.le_refl _)

theorem enter_keeper (hkeeper : t.keeper = some .rising) :
    Pace t (t.enter .keeper).1 now (t.begins? (.enter .keeper)) := by
  have hready : t.soonest now = now := by simp only [soonest, hkeeper]
  simp only [begins?, enter]
  cases hclosed : t.isClosed with
  | true => exact shut rfl hclosed
  | false =>
    cases hpending : t.pending with
    | none => exact .waits rfl fun _ => ⟨hclosed, Nat.le_of_eq hready⟩
    | some value => exact .begins rfl hclosed hready (Nat.le_refl _)

/-- The window begins when the keeper goes to sleep. -/
theorem rest (hkeeper : t.keeper = some .starting) : Pace t (t.rest now) now none := by
  unfold Throttle.rest
  split
  next hclosed => exact shut rfl hclosed
  next hopen =>
    refine .waits rfl fun _ => ⟨by simpa using hopen, ?_⟩
    simp only [soonest, hkeeper]
    exact Nat.le_refl _

/-- **One move.** -/
theorem make (h : Sound t f) {m : Move α} (hcan : t.can m = true) (htime : m.onTime now = true) :
    Pace t (t.make m) now (t.begins? m) := by
  cases allowed_of_can hcan with
  | schedule => exact schedule _ _
  | flushNow => exact flushNow _ _
  | close => exact close _
  | join => exact still rfl rfl id
  | enterLeading hphase => exact enter_leading h hphase
  | enterClosing hphase =>
    obtain ⟨front, back, he⟩ := h.locked.entry hphase
    simp only [begins?, hphase, Throttle.make, he.enter_closing]
    exact still rfl rfl id
  | enterKeeper hkeeper => exact enter_keeper hkeeper
  | finishCall hphase =>
    obtain ⟨front, back, he⟩ := h.locked.entry hphase
    simp only [begins?, Throttle.make, he.finish]
    exact still rfl rfl id
  | finishKeeper hflushing =>
    obtain ⟨value, hkeeper⟩ := exists_of_isFlushing hflushing
    refine .waits rfl fun hopen => ⟨hopen, ?_⟩
    simp only [soonest, hkeeper]
    exact Nat.le_refl _
  | leave => exact still rfl rfl id
  | rest hkeeper =>
    obtain rfl : _ = now := by simpa [Move.onTime] using htime
    exact rest hkeeper
  | riseAtOnce hkeeper hwindow =>
    refine .waits rfl fun hopen => ⟨hopen, ?_⟩
    simp only [soonest, hkeeper, hwindow]
    exact Nat.le_refl _
  | rise hkeeper hdue =>
    obtain rfl : _ = now := by simpa [Move.onTime] using htime
    refine .waits rfl fun hopen => ⟨hopen, ?_⟩
    simp only [soonest, hkeeper]
    exact hdue
  | notice _ hclosed => exact shut rfl hclosed

end Pace

/-! ## Runs -/

/-- How a throttle stands in time: the flushes that have begun are a window
apart, and so is the next one. -/
structure Spaced (window : Nat) (s : Timed α) : Prop where
  width : s.throttle.window = window
  lived : ∃ moves f, live window moves = (s.throttle, f) ∧ f.flushed = s.begun.map (·.2)
  apart : (s.begun.map (·.1)).IsChain (· + window ≤ ·)
  next : s.throttle.isClosed = false → ∀ last ∈ (s.begun.map (·.1)).getLast?, last + window ≤ s.throttle.soonest s.now

namespace Spaced

variable {window : Nat} {s : Timed α}

theorem new (window : Nat) : Spaced window (⟨.new window, 0, []⟩ : Timed α) where
  width := rfl
  lived := ⟨[], _, rfl, rfl⟩
  apart := List.isChain_nil
  next _ := by simp

/-- What begins now is a window behind what began last, and a window ahead of what begins next. -/
theorem begun_append (h : Spaced window s) {value? : Option α} (hpace : Pace s.throttle t' s.now value?) :
    ((s.begun ++ value?.toList.map (s.now, ·)).map (·.1)).IsChain (· + window ≤ ·) ∧
      (t'.isClosed = false → ∀ last ∈ ((s.begun ++ value?.toList.map (s.now, ·)).map (·.1)).getLast?,
        last + window ≤ t'.soonest s.now) := by
  cases hpace with
  | waits _ hlater =>
    rw [Option.toList_none, List.map_nil, List.append_nil]
    refine ⟨h.apart, fun hopen' last hlast => ?_⟩
    obtain ⟨hopen, hle⟩ := hlater hopen'
    exact Nat.le_trans (h.next hopen last hlast) hle
  | begins _ hopen hready hlater =>
    rw [Option.toList_some, List.map_singleton, List.map_append, List.map_singleton]
    refine ⟨List.isChain_append.2 ⟨h.apart, List.isChain_singleton _, ?_⟩, ?_⟩
    · intro last hlast time htime
      obtain rfl : s.now = time := by simpa using htime
      rw [← hready]
      exact h.next hopen last hlast
    · intro _ last hlast
      obtain rfl : s.now = last := by simpa using hlast
      rw [← h.width]
      exact hlater

/-- **One move.** -/
theorem move (h : Spaced window s) {m : Move α} (hcan : s.throttle.can m = true) (htime : m.onTime s.now = true) :
    Spaced window { s with
      throttle := s.throttle.make m
      begun := s.begun ++ (s.throttle.begins? m).toList.map (s.now, ·) } := by
  obtain ⟨moves, f, hlive, hflushed⟩ := h.lived
  have hsound : Sound s.throttle f := by
    have hsound := Sound.live window moves
    rwa [hlive] at hsound
  have hpace := Pace.make hsound hcan htime
  obtain ⟨hapart, hnext⟩ := h.begun_append hpace
  refine ⟨hpace.width.trans h.width, ⟨moves ++ [m], f.after s.throttle m, ?_, ?_⟩, hapart, hnext⟩
  · have hsnoc : live window (moves ++ [m]) = Throttle.step (live window moves) m := by simp [live]
    rw [hsnoc, hlive, Throttle.step, if_pos hcan]
  · have hvalues : ((s.throttle.begins? m).toList.map (s.now, ·)).map (·.2) = (s.throttle.begins? m).toList := by
      rw [List.map_map]
      exact List.map_id _
    rw [f.after_flushed, hflushed, List.map_append, hvalues]

theorem pass (h : Spaced window s) (time : Nat) : Spaced window { s with now := s.now + time } where
  width := h.width
  lived := h.lived
  apart := h.apart
  next hopen last hlast := Nat.le_trans (h.next hopen last hlast) (soonest_mono _ _ _)

theorem step (h : Spaced window s) (beat : Beat α) : Spaced window (s.step beat) := by
  cases beat with
  | pass time => exact h.pass time
  | move m =>
    rw [Timed.step]
    split
    next hmay =>
      obtain ⟨hcan, htime⟩ := Bool.and_eq_true_iff.1 hmay
      exact h.move hcan htime
    next => exact h

/-- **A run.** -/
theorem foldl (h : Spaced window s) (beats : List (Beat α)) : Spaced window (beats.foldl Timed.step s) := by
  induction beats generalizing s with
  | nil => exact h
  | cons beat beats ih => exact ih (h.step beat)

theorem timed (window : Nat) (beats : List (Beat α)) : Spaced window (timed window beats) := foldl (.new window) beats

end Spaced

/-! ## Spans -/

/-- Times a window apart, one behind the other, take up a window for each but the last. -/
theorem span_of_apart {window first : Nat} {times : List Nat}
    (hapart : (first :: times).IsChain (· + window ≤ ·)) :
    ∃ last ∈ first :: times, first + window * times.length ≤ last := by
  induction times generalizing first with
  | nil => exact ⟨first, List.mem_singleton_self _, by simp⟩
  | cons time times ih =>
    obtain ⟨hle, hrest⟩ := List.isChain_cons_cons.1 hapart
    obtain ⟨last, hlast, hspan⟩ := ih hrest
    refine ⟨last, List.mem_cons_of_mem _ hlast, ?_⟩
    rw [List.length_cons, Nat.mul_add_one]
    omega

/-- A span holds one of them more than windows. -/
theorem length_le_of_apart {window start length : Nat} (hwindow : 0 < window) {times : List Nat}
    (hapart : times.IsChain (· + window ≤ ·)) (hspan : ∀ time ∈ times, start ≤ time ∧ time ≤ start + length) :
    times.length ≤ length / window + 1 := by
  cases times with
  | nil => exact Nat.zero_le _
  | cons first times =>
    obtain ⟨last, hlast, hle⟩ := span_of_apart hapart
    have hfirst := (hspan first List.mem_cons_self).1
    have hend := (hspan last hlast).2
    rw [List.length_cons]
    refine Nat.succ_le_succ ((Nat.le_div_iff_mul_le hwindow).2 ?_)
    rw [Nat.mul_comm]
    omega

theorem apart_filter {window : Nat} {times : List Nat} (hapart : times.IsChain (· + window ≤ ·)) (p : Nat → Bool) :
    (times.filter p).IsChain (· + window ≤ ·) := by
  have htrans : Trans (fun a b : Nat => a + window ≤ b) (fun a b => a + window ≤ b) (fun a b => a + window ≤ b) :=
    ⟨fun hab hbc => by omega⟩
  exact (List.Pairwise.filter p (List.isChain_iff_pairwise.1 hapart)).isChain

/-- **Flushes are a window apart.** Whatever moves are made of a throttle, in
whatever order and whenever, and however long flushes take: from the beginning
of one flush to that of the next at least a window passes, and so no span of
time holds more of them than whole windows and one. Left out is the flush of
the last value of all, and no other. -/
theorem flushes_spaced (window : Nat) (hwindow : 0 < window) (beats : List (Beat α)) :
    let s := timed window beats
    let times := s.begun.map (·.1)
    (∃ moves f, live window moves = (s.throttle, f) ∧ f.flushed = s.begun.map (·.2)) ∧
      times.IsChain (· + window ≤ ·) ∧
      ∀ start length, (times.filter fun time => start ≤ time ∧ time ≤ start + length).length ≤ length / window + 1 := by
  intro s times
  have h : Spaced window s := .timed window beats
  refine ⟨h.lived, h.apart, fun start length => ?_⟩
  have hspan : ∀ time ∈ times.filter fun time => start ≤ time ∧ time ≤ start + length,
      start ≤ time ∧ time ≤ start + length := by
    intro time htime
    simpa using (List.mem_filter.1 htime).2
  exact length_le_of_apart hwindow (apart_filter h.apart _) hspan

/-- A window ends with a value that waits, which takes longer to flush than the
window, and the next window without one; a value that comes then is flushed at once. -/
theorem flushes_spaced_long :
    let beats : List (Beat Nat) := [.move (.schedule 0 1), .move (.join 0), .move (.enter (.call 0)), .move (.rest 0),
      .pass 30, .move (.finish (.call 0)), .move (.schedule 1 2), .pass 70, .move (.rise 100), .move (.enter .keeper),
      .pass 150, .move (.finish .keeper), .move (.rest 250), .pass 100, .move (.rise 350), .move (.enter .keeper),
      .move (.schedule 2 3), .move (.join 2), .move (.enter (.call 2))]
    (timed 100 beats).begun = [(0, 1), (100, 2), (350, 3)] ∧
      ((timed 100 beats).begun.map (·.1)).IsChain (· + 100 ≤ ·) ∧
      (((timed 100 beats).begun.map (·.1)).filter fun time => 100 ≤ time ∧ time ≤ 100 + 250).length ≤ 250 / 100 + 1 := by
  intro beats
  obtain ⟨-, hapart, hspan⟩ := flushes_spaced 100 (by decide) beats
  exact ⟨by decide +kernel, hapart, hspan 100 250⟩

end ReplyStream.Throttle
