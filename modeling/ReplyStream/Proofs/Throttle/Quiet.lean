/-
A throttle that a call has shut without a last value, once that call has
returned. Nothing more begins to be flushed, and the keeper, for which the call
waits, has ended with its flush. A call that leads a window flushes on its own,
from when it has seen that the throttle is open, and nobody waits for it: it may
still be at it (`Throttle.close_quiet_iff`, `Throttle.close_leaves_flush`).
-/
import Mathlib.Data.List.Induction
import ReplyStream.Proofs.Throttle.Shut
import ReplyStream.Throttle.Session

namespace ReplyStream.Throttle

variable {α : Type} {t : Throttle α} {n : Nat}

/-! ## The shut in a log -/

theorem marks_of_shut {m : Move α} {last : Option α} (h : .shut n last ∈ t.marks m) :
    t.marks m = [.shut n last] := by
  cases m with
  | flushNow | close =>
    simp only [marks] at h ⊢
    split at h
    · simp at h
    next hopen =>
      rw [if_neg hopen]
      simpa [eq_comm] using h
  | schedule =>
    simp only [marks] at h
    split at h
    · simp at h
    · split at h <;> simp at h
  | enter a =>
    cases a with
    | call => simp only [marks] at h; split at h <;> simp at h
    | keeper => simp [marks] at h
  | finish a =>
    cases a with
    | call =>
      simp only [marks] at h
      split at h
      next final _ => cases final <;> simp at h
      · cases h
    | keeper => simp only [marks] at h; split at h <;> simp at h
  | leave => simp [marks] at h
  | join | rest | rise | notice => cases h

/-- What was seen before the shut was seen of the moves before it. -/
theorem exists_before_shut {window : Nat} {moves : List (Move α)} {before after : List (Mark α)} {last : Option α}
    (hlog : (observed window moves).2 = before ++ .shut n last :: after) :
    ∃ front, front <+: moves ∧ (observed window front).2 = before := by
  induction moves using List.reverseRecOn generalizing after with
  | nil => simp [observed] at hlog
  | append_singleton moves m ih =>
    have hearlier : ∀ {after : List (Mark α)}, (observed window moves).2 = before ++ .shut n last :: after →
        ∃ front, front <+: moves ++ [m] ∧ (observed window front).2 = before := by
      intro after hlog
      obtain ⟨front, hfront, hbefore⟩ := ih hlog
      exact ⟨front, hfront.trans (List.prefix_append _ _), hbefore⟩
    have hstep : observed window (moves ++ [m]) = watch (observed window moves) m := by simp [observed]
    rw [hstep, watch] at hlog
    split at hlog
    · rcases List.append_eq_append_iff.1 hlog with ⟨seen, hbefore, hmarks⟩ | ⟨seen, hseen, hrest⟩
      · -- The move shuts the throttle.
        have hmem : .shut n last ∈ (observed window moves).1.marks m := by simp [hmarks]
        rw [marks_of_shut hmem] at hmarks
        obtain ⟨rfl, -, -⟩ := eq_of_append_cons hmarks
        exact ⟨moves, List.prefix_append _ _, by rw [hbefore, List.append_nil]⟩
      · cases seen with
        | nil => exact ⟨moves, List.prefix_append _ _, by rw [hseen, List.append_nil]⟩
        | cons mark seen =>
          obtain ⟨rfl, -⟩ := List.cons.inj hrest
          exact hearlier hseen
    · exact hearlier hlog

theorem shut_unique {before before' after after' : List (Mark α)} {n' : Nat} {last last' : Option α}
    (honce : ∀ mark ∈ before' ++ after', mark.isShut = false)
    (h : before ++ .shut n last :: after = before' ++ .shut n' last' :: after') :
    before = before' ∧ n = n' ∧ last = last' ∧ after = after' := by
  have hshut : Mark.shut n last ∉ before' ++ after' := fun hmem => Bool.noConfusion (honce _ hmem)
  rw [List.mem_append, not_or] at hshut
  obtain ⟨hbefore, hmark, hafter⟩ := (List.append_cons_inj_of_notMem hshut.1 hshut.2).1 h.symm
  obtain ⟨rfl, rfl⟩ := Mark.shut.inj hmark
  exact ⟨hbefore.symm, rfl, rfl, hafter.symm⟩

/-- At every time at most one flush is under way. -/
theorem underWay_le {window : Nat} {moves : List (Move α)} {before after : List (Mark α)} {last : Option α}
    (hlog : (observed window moves).2 = before ++ .shut n last :: after) : (underWay before).length ≤ 1 := by
  obtain ⟨front, -, rfl⟩ := exists_before_shut hlog
  have h : Overseen (observed window front).1 (observed window front).2 := .observed window front
  obtain ⟨f, hsound⟩ := h.sound
  rw [h.underWay, ← List.length_map (f := (·.1)), map_inHand]
  exact hsound.locked.flushing_le

/-! ## Quiet -/

/-- How a throttle stands that was shut without a last value, by what was seen
`before` and `after` that, once the call has returned. -/
structure Left (t : Throttle α) (before after : List (Mark α)) : Prop where
  /-- Nobody has begun to flush, -/
  still : ∀ a value, .began a value ∉ after
  /-- there is no keeper, -/
  keeper : t.keeper = none
  /-- and who flushes is a call that leads a window and was at it before. -/
  lead : ∀ a ∈ t.flushing, ∃ m value,
    a = .call m ∧ t.phase? m = some (.flushing value false) ∧ (.call m, value) ∈ underWay before
  /-- Nobody flushes once that call has ended its flush. -/
  quiet : t.flushing = [] ↔ ∀ m value, (.call m, value) ∈ underWay before → .ended (.call m) value ∈ after

/-- Without a keeper, and when no call that shut the throttle lasts, only a
call that leads a window can flush. -/
theorem leads_of_flushing (hkeys : (t.calls.map (·.1)).Nodup) (henders : t.enders = []) (hkeeper : t.keeper = none)
    {flush : Actor × α} (hflush : flush ∈ t.inHand) :
    ∃ m, flush.1 = .call m ∧ t.phase? m = some (.flushing flush.2 false) := by
  rw [inHand, hkeeper] at hflush
  simp only [keeperInHand, List.append_nil, callsInHand, List.mem_flatMap, List.mem_map] at hflush
  obtain ⟨⟨m, phase⟩, hc, value, hvalue, rfl⟩ := hflush
  cases phase with
  | flushing value' final =>
    obtain rfl : value = value' := by simpa [Phase.inHand?] using hvalue
    cases final with
    | false => exact ⟨m, rfl, phase_of_mem hkeys hc⟩
    | true =>
      have hender : (m, .flushing value true) ∈ t.enders := List.mem_filter.2 ⟨hc, rfl⟩
      rw [henders] at hender
      cases hender
  | leading | closing | draining => simp [Phase.inHand?] at hvalue

theorem Behind.left {f : Fates α} {before after : List (Mark α)} (h : t.Behind before n none after)
    (hsound : Sound t f) (hdone : Done n after) (hone : (underWay before).length ≤ 1) : t.Left before after := by
  obtain ⟨henders, hkeeper⟩ : t.enders = [] ∧ t.keeper = none := by
    rcases h.stands with ⟨phase, -, hlasts, -⟩ | ⟨henders, -, hkeeper, -⟩
    · exact absurd hlasts hdone.not_lasts
    · exact ⟨henders, hkeeper⟩
  have hflushes : flushMarks after ++ endsOf t.inHand = endsOf (underWay before) := by
    have hall := h.flushes
    rw [due, henders] at hall
    simpa [lastFlush] using hall
  have hlead : ∀ a ∈ t.flushing, ∃ m value,
      a = .call m ∧ t.phase? m = some (.flushing value false) ∧ (.call m, value) ∈ underWay before := by
    intro a ha
    rw [← map_inHand] at ha
    obtain ⟨⟨a, value⟩, hflush, rfl⟩ := List.mem_map.1 ha
    obtain ⟨m, rfl, hphase⟩ := leads_of_flushing hsound.locked.keys henders hkeeper hflush
    have hend : .ended (.call m) value ∈ endsOf (underWay before) := by
      rw [← hflushes]
      exact List.mem_append_right _ (List.mem_map.2 ⟨_, hflush, rfl⟩)
    obtain ⟨⟨a, value'⟩, hmem, heq⟩ := List.mem_map.1 hend
    obtain ⟨rfl, rfl⟩ := Mark.ended.inj heq
    exact ⟨m, value', rfl, hphase, hmem⟩
  refine ⟨?_, hkeeper, hlead, ?_, ?_⟩
  · intro a value hbegan
    cases ((h.final hsound).only a value hbegan).2
  · intro hnone m value hmem
    have hhand : t.inHand = [] := List.map_eq_nil_iff.1 ((map_inHand t).trans hnone)
    rw [hhand, endsOf, List.map_nil, List.append_nil] at hflushes
    have hend : .ended (.call m) value ∈ flushMarks after := by
      rw [hflushes]
      exact List.mem_map.2 ⟨_, hmem, rfl⟩
    exact (List.mem_filter.1 hend).1
  · intro hends
    cases hflushing : t.flushing with
    | nil => rfl
    | cons a rest =>
      -- One flush was under way: it cannot have ended and still go on.
      obtain ⟨m, value, rfl, -, hmem⟩ := hlead a (by rw [hflushing]; exact List.mem_cons_self)
      have hseen : .ended (.call m) value ∈ flushMarks after := List.mem_filter.2 ⟨hends m value hmem, rfl⟩
      have hlengths := congrArg List.length hflushes
      have hhand : t.inHand.length = rest.length + 1 := by
        rw [← List.length_map (f := (·.1)), map_inHand, hflushing, List.length_cons]
      have hpos := List.length_pos_of_mem hseen
      simp only [List.length_append, endsOf, List.length_map] at hlengths
      omega

/-- **When a throttle is shut without a last value.** Whatever moves are made
of a throttle, in whatever order: once the call that shut it without a last
value has returned, nobody begins to flush any more, and there is no keeper. A
call that was flushing the first value of a window may still be, and it alone:
all is quiet if and only if that flush has ended. -/
theorem close_quiet_iff (window : Nat) (moves : List (Move α)) {before after : List (Mark α)}
    (hlog : (observed window moves).2 = before ++ .shut n none :: after) (hdone : Done n after) :
    (observed window moves).1.Left before after := by
  have h : Overseen (observed window moves).1 (observed window moves).2 := .observed window moves
  obtain ⟨f, hsound⟩ := h.sound
  rcases h.stands with ⟨-, -, hunshut⟩ | ⟨before', n', last', after', hlog', hbehind⟩
  · have hfalse := hunshut (.shut n none) (by simp [hlog])
    cases hfalse
  · obtain ⟨rfl, rfl, rfl, rfl⟩ := shut_unique hbehind.once (hlog.symm.trans hlog')
    exact hbehind.left hsound hdone (underWay_le hlog)

/-- The keeper flushes when the throttle is shut: the call waits for it. -/
theorem close_quiet_iff_kept :
    let moves : List (Move Nat) := [.schedule 0 1, .join 0, .enter (.call 0), .rest 0, .schedule 1 2,
      .finish (.call 0), .rise 100, .enter .keeper, .close 2, .finish .keeper, .rest 130, .leave 2]
    (observed 100 moves).1.Left
      [.began (.call 0) 1, .returned 1 true, .ended (.call 0) 1, .returned 0 true, .began .keeper 2]
      [.ended .keeper 2, .returned 2 true] :=
  close_quiet_iff 100 _ (by decide +kernel) ⟨[.ended .keeper 2], [], rfl, by simp [Lasts]⟩

/-- A call flushes the first value of a window when the throttle is shut, and
the call that shut it returns all the same. So it does in a run: the flush
takes 50 ms, the call comes after 10 ms and returns at once. -/
theorem close_leaves_flush :
    let moves : List (Move Nat) := [.schedule 0 1, .join 0, .enter (.call 0), .rest 0, .close 1, .notice, .leave 1]
    let s : Session Nat := (((Session.new 100 50).spawn (.schedule 1)).sleep 10).close
    ((observed 100 moves).2 = [.began (.call 0) 1] ++ .shut 1 none :: [.returned 1 true] ∧
        (observed 100 moves).1.flushing = [.call 0]) ∧
      (s.now = 10 ∧ s.throttle.isClosed = true ∧ s.throttle.flushing = [.call 0] ∧ s.sights = [(0, .began 1)]) ∧
      (s.sleep 100).sights = [(0, .began 1), (50, .ended 1), (50, .returned (.schedule 1) true)] :=
  ⟨by decide +kernel, ⟨by decide +kernel, by decide +kernel, by decide +kernel, rfl⟩, rfl⟩

end ReplyStream.Throttle
