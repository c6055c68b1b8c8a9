/-
A throttle that is shut, seen from outside: who began to flush what and ended,
which calls returned, and which of them shut the throttle (`Throttle.observed`).

Every move does one of few things to the flush that is under way and to the
calls that shut the throttle (`Throttle.Effect`). Behind the shut nothing is
flushed but what was under way, to its end, and then the last value, if the
throttle was shut with one (`Throttle.Behind`, `Throttle.flushNow_final`).
-/
import ReplyStream.Proofs.Throttle.Fates

namespace ReplyStream.Throttle

variable {α : Type}

/-! ## What is seen -/

/-- What is seen of a throttle. -/
inductive Mark (α : Type) where
  /-- A call has shut the throttle, with the last value if it brings one. -/
  | shut (n : Nat) (last : Option α)
  /-- Who has the lock has found a value to flush. -/
  | began (a : Actor) (value : α)
  | ended (a : Actor) (value : α)
  /-- A call has returned; `done` is false for one that came too late. -/
  | returned (n : Nat) (done : Bool)
deriving DecidableEq, Repr

namespace Mark

def isShut : Mark α → Bool
  | .shut .. => true
  | .began .. | .ended .. | .returned .. => false

def isFlush : Mark α → Bool
  | .began .. | .ended .. => true
  | .shut .. | .returned .. => false

/-- Keeps the list of flushes under way. -/
def tally (underWay : List (Actor × α)) : Mark α → List (Actor × α)
  | .began a value => underWay ++ [(a, value)]
  | .ended a _ => underWay.filter (·.1 ≠ a)
  | .shut .. | .returned .. => underWay

end Mark

/-- What is seen of a move. -/
def marks (t : Throttle α) : Move α → List (Mark α)
  | .schedule n _ => if t.isClosed then [.returned n false] else if t.isOpen then [.returned n true] else []
  | .flushNow n value => if t.isClosed then [.returned n false] else [.shut n (some value)]
  | .close n => if t.isClosed then [.returned n false] else [.shut n none]
  | .enter (.call n) =>
    match (t.enter (.call n)).2 with
    | some value => [.began (.call n) value]
    | none => [.returned n true]
  | .enter .keeper => (t.enter .keeper).2.toList.map (.began .keeper)
  | .finish (.call n) =>
    match t.phase? n with
    | some (.flushing value final) => .ended (.call n) value :: if final then [] else [.returned n true]
    | _ => []
  | .finish .keeper =>
    match t.keeper with
    | some (.flushing value) => [.ended .keeper value]
    | _ => []
  | .leave n => [.returned n true]
  | .join _ | .rest _ | .rise _ | .notice => []

/-- Makes a move, if it may be made, and notes what is seen of it. -/
def watch (s : Throttle α × List (Mark α)) (m : Move α) : Throttle α × List (Mark α) :=
  if s.1.may m then (s.1.make m, s.2 ++ s.1.marks m) else s

/-- A throttle that is used, and what was seen of it. -/
def observed (window : Nat) (moves : List (Move α)) : Throttle α × List (Mark α) :=
  moves.foldl watch (new window, [])

/-- Moves that may be made one after the other. -/
def Follows (t : Throttle α) : List (Move α) → Prop
  | [] => True
  | m :: moves => t.may m = true ∧ (t.make m).Follows moves

/-- What is seen of flushes. -/
def flushMarks (log : List (Mark α)) : List (Mark α) := log.filter (·.isFlush)

/-- The flushes that have begun and not ended. -/
def underWay (log : List (Mark α)) : List (Actor × α) := log.foldl Mark.tally []

/-- The flush of the last value, by the call that shut the throttle. -/
def lastFlush (n : Nat) : Option α → List (Mark α)
  | some value => [.began (.call n) value, .ended (.call n) value]
  | none => []

/-- Call `n` has not returned. -/
def Lasts (n : Nat) (log : List (Mark α)) : Prop := ∀ done, .returned n done ∉ log

/-- Call `n` has returned, and came in time. -/
def Done (n : Nat) (log : List (Mark α)) : Prop :=
  ∃ front back, log = front ++ .returned n true :: back ∧ Lasts n front

/-- The ends of flushes. -/
def endsOf (underWay : List (Actor × α)) : List (Mark α) := underWay.map fun f => .ended f.1 f.2

@[simp] theorem flushMarks_append (log more : List (Mark α)) :
    flushMarks (log ++ more) = flushMarks log ++ flushMarks more := List.filter_append log more

theorem lasts_nil (n : Nat) : Lasts n ([] : List (Mark α)) := fun _ => List.not_mem_nil

theorem Lasts.append {n : Nat} {log more : List (Mark α)} (h : Lasts n log) (hmore : Lasts n more) :
    Lasts n (log ++ more) := by
  intro done hmem
  rcases List.mem_append.1 hmem with hmem | hmem
  · exact h done hmem
  · exact hmore done hmem

theorem lasts_of_isFlush {n : Nat} {log : List (Mark α)} (h : ∀ mark ∈ log, mark.isFlush = true) : Lasts n log :=
  fun _ hmem => by cases h _ hmem

theorem Done.append {n : Nat} {log : List (Mark α)} (h : Done n log) (more : List (Mark α)) : Done n (log ++ more) := by
  obtain ⟨front, back, rfl, hfront⟩ := h
  exact ⟨front, back ++ more, by rw [List.append_assoc, List.cons_append], hfront⟩

theorem Done.not_lasts {n : Nat} {log : List (Mark α)} (h : Done n log) : ¬ Lasts n log := by
  obtain ⟨front, back, rfl, -⟩ := h
  exact fun hlasts => hlasts true (List.mem_append_right _ List.mem_cons_self)

theorem underWay_append (log more : List (Mark α)) : underWay (log ++ more) = more.foldl Mark.tally (underWay log) :=
  List.foldl_append

/-! ## The flush under way -/

/-- What a call flushes. -/
def Phase.inHand? : Phase α → Option α
  | .flushing value _ => some value
  | .leading _ | .closing _ | .draining => none

def callsInHand (calls : List (Nat × Phase α)) : List (Actor × α) :=
  calls.flatMap fun c => c.2.inHand?.toList.map (Actor.call c.1, ·)

def keeperInHand (keeper : Option (Watch α)) : List (Actor × α) :=
  match keeper with
  | some (.flushing value) => [(.keeper, value)]
  | none | some .starting | some (.asleep _) | some .rising => []

/-- Who flushes, and what. -/
def inHand (t : Throttle α) : List (Actor × α) := callsInHand t.calls ++ keeperInHand t.keeper

@[simp] theorem callsInHand_nil : callsInHand ([] : List (Nat × Phase α)) = [] := rfl

@[simp] theorem callsInHand_cons (c : Nat × Phase α) (calls : List (Nat × Phase α)) :
    callsInHand (c :: calls) = c.2.inHand?.toList.map (Actor.call c.1, ·) ++ callsInHand calls := rfl

@[simp] theorem callsInHand_append (calls more : List (Nat × Phase α)) :
    callsInHand (calls ++ more) = callsInHand calls ++ callsInHand more := List.flatMap_append

theorem callsInHand_eq_nil {calls : List (Nat × Phase α)} (h : ∀ c ∈ calls, c.2.flushes = false) :
    callsInHand calls = [] := by
  refine List.flatMap_eq_nil_iff.2 fun c hc => ?_
  have hidle := h c hc
  cases hphase : c.2 with
  | flushing value final => rw [hphase] at hidle; cases hidle
  | leading value | closing value | draining => rfl

theorem keeperInHand_eq_nil {t : Throttle α} (h : t.isFlushing = false) : keeperInHand t.keeper = [] := by
  unfold isFlushing at h
  unfold keeperInHand
  split at h <;> simp_all

theorem map_inHand (t : Throttle α) : t.inHand.map (·.1) = t.flushing := by
  have hcalls : ∀ calls : List (Nat × Phase α),
      (callsInHand calls).map (·.1) = (calls.filter (·.2.flushes)).map (.call ·.1) := by
    intro calls
    induction calls with
    | nil => rfl
    | cons c calls ih =>
      rw [callsInHand_cons, List.map_append, ih]
      cases hphase : c.2 with
      | flushing value final => rw [List.filter_cons_of_pos (by rw [hphase]; rfl)]; rfl
      | leading value | closing value | draining =>
        rw [List.filter_cons_of_neg (by rw [hphase]; exact Bool.false_ne_true)]; rfl
  rw [inHand, flushing, List.map_append, hcalls]
  congr 1
  unfold keeperInHand isFlushing
  cases t.keeper with
  | none => rfl
  | some watch => cases watch <;> rfl

namespace Locked

variable {t : Throttle α} {n : Nat}

/-- Nobody flushes but who holds the lock. -/
theorem inHand_eq_nil (h : t.Locked) {a : Actor} (hhead : t.line.head? = some a) (hidle : t.flushes a = false) :
    t.inHand = [] := by
  have hcalls : ∀ c ∈ t.calls, c.2.flushes = false := by
    intro c hc
    cases hflushes : c.2.flushes with
    | false => rfl
    | true =>
      have hfirst := h.busy c hc hflushes
      rw [hhead] at hfirst
      cases hfirst
      simp [flushes, phase_of_mem h.keys hc, hflushes] at hidle
  have hkeeper : t.isFlushing = false := by
    cases hflushing : t.isFlushing with
    | false => rfl
    | true =>
      have hfirst := h.busyKeeper hflushing
      rw [hhead] at hfirst
      cases hfirst
      exact hflushing.symm.trans hidle
  rw [inHand, callsInHand_eq_nil hcalls, keeperInHand_eq_nil hkeeper, List.append_nil]

/-- A call that flushes is the only one to. -/
theorem inHand_call (h : t.Locked) {value : α} {final : Bool} {front back : List (Nat × Phase α)}
    (he : t.Entry n (.flushing value final) front back) :
    callsInHand front = [] ∧ callsInHand back = [] ∧ keeperInHand t.keeper = [] := by
  have hhead : t.line.head? = some (.call n) := h.busy _ (mem_of_phase he.phase_eq) rfl
  have hothers : ∀ c ∈ front ++ back, c.2.flushes = false := by
    intro c hc
    cases hflushes : c.2.flushes with
    | false => rfl
    | true =>
      have hfirst := h.busy c (by rw [he.calls]; simp at hc ⊢; tauto) hflushes
      rw [hhead] at hfirst
      cases hfirst
      exact absurd rfl (he.others c hc)
  refine ⟨callsInHand_eq_nil fun c hc => hothers c (List.mem_append_left _ hc),
    callsInHand_eq_nil fun c hc => hothers c (List.mem_append_right _ hc), keeperInHand_eq_nil ?_⟩
  cases hflushing : t.isFlushing with
  | false => rfl
  | true =>
    have hfirst := h.busyKeeper hflushing
    rw [hhead] at hfirst
    cases hfirst

theorem inHand_keeper (h : t.Locked) (hflushing : t.isFlushing = true) : callsInHand t.calls = [] := by
  refine callsInHand_eq_nil fun c hc => ?_
  cases hflushes : c.2.flushes with
  | false => rfl
  | true =>
    have hfirst := h.busy c hc hflushes
    rw [h.busyKeeper hflushing] at hfirst
    cases hfirst

end Locked

/-! ## The calls that end a throttle -/

/-- Whether a call has shut the throttle. -/
def Phase.ends : Phase α → Bool
  | .closing _ | .flushing _ true | .draining => true
  | .leading _ | .flushing _ false => false

/-- The calls that have shut the throttle and not returned. -/
def enders (t : Throttle α) : List (Nat × Phase α) := t.calls.filter (·.2.ends)

/-- What is still to be flushed when a throttle has been shut. -/
def due (t : Throttle α) : List (Mark α) :=
  endsOf t.inHand ++ t.enders.flatMap fun c =>
    match c.2 with
    | .closing value => lastFlush c.1 (some value)
    | .leading _ | .flushing .. | .draining => []

theorem Entry.enders_eq {t : Throttle α} {n : Nat} {phase : Phase α} {front back : List (Nat × Phase α)}
    (he : t.Entry n phase front back) :
    t.enders = front.filter (·.2.ends) ++ (if phase.ends then [(n, phase)] else []) ++ back.filter (·.2.ends) := by
  rw [enders, he.calls, List.filter_append, List.filter_cons]
  cases phase.ends <;> simp

theorem Entry.not_ender {t : Throttle α} {n : Nat} {phase : Phase α} {front back : List (Nat × Phase α)}
    (he : t.Entry n phase front back) (hphase : phase.ends = false) : ∀ c ∈ t.enders, c.1 ≠ n := by
  intro c hc
  rw [he.enders_eq, hphase] at hc
  refine he.others c ?_
  simp only [Bool.false_eq_true, if_false, List.append_nil, List.mem_append, List.mem_filter] at hc ⊢
  exact hc.imp And.left And.left

/-! ## Moves -/

/-- Nothing is seen, or that a call returns which has not shut the throttle. -/
def Returns (t : Throttle α) (marks : List (Mark α)) : Prop :=
  marks = [] ∨ ∃ n done, marks = [.returned n done] ∧ ∀ c ∈ t.enders, c.1 ≠ n

/-- What a move does to the flush under way and to the calls that shut the
throttle, and what is seen of that. -/
inductive Effect (t t' : Throttle α) : List (Mark α) → Prop
  | quiet {marks} (hmarks : t.Returns marks) (hclosed : t'.isClosed = t.isClosed) (hhand : t'.inHand = t.inHand)
      (henders : t'.enders = t.enders) : Effect t t' marks
  | begins {a value} (hopen : t.isClosed = false) (hclosed : t'.isClosed = false) (hidle : t.inHand = [])
      (hhand : t'.inHand = [(a, value)]) (henders : t'.enders = t.enders) : Effect t t' [.began a value]
  | ends {a value marks} (hmarks : t.Returns marks) (hclosed : t'.isClosed = t.isClosed)
      (hhand : t.inHand = [(a, value)]) (hidle : t'.inHand = []) (henders : t'.enders = t.enders) :
      Effect t t' (.ended a value :: marks)
  | shuts {n phase last} (hopen : t.isClosed = false) (hclosed : t'.isClosed = true) (hhand : t'.inHand = t.inHand)
      (hphase : (∃ value, phase = .closing value ∧ last = some value) ∨ phase = .draining ∧ last = none)
      (henders : t'.enders = t.enders ++ [(n, phase)]) : Effect t t' [.shut n last]
  | beginsLast {n value front back} (hclosed : t'.isClosed = t.isClosed) (hidle : t.inHand = [])
      (hhand : t'.inHand = [(.call n, value)]) (henders : t.enders = front ++ (n, .closing value) :: back)
      (henders' : t'.enders = front ++ (n, .flushing value true) :: back) : Effect t t' [.began (.call n) value]
  | endsLast {n value front back} (hclosed : t'.isClosed = t.isClosed) (hhand : t.inHand = [(.call n, value)])
      (hidle : t'.inHand = []) (henders : t.enders = front ++ (n, .flushing value true) :: back)
      (henders' : t'.enders = front ++ (n, .draining) :: back) : Effect t t' [.ended (.call n) value]
  | returns {n front back} (hclosed : t'.isClosed = t.isClosed) (hkeeper : t.keeper = none)
      (hhand : t'.inHand = t.inHand) (henders : t.enders = front ++ (n, .draining) :: back)
      (henders' : t'.enders = front ++ back) : Effect t t' [.returned n true]

variable {t t' : Throttle α} {n : Nat}

theorem not_ender_of_fresh (hfresh : t.phase? n = none) : ∀ c ∈ t.enders, c.1 ≠ n := by
  rintro c hc rfl
  exact fresh_of_phase hfresh (List.mem_map_of_mem (List.mem_filter.1 hc).1)

theorem flushes_of_phase {phase : Phase α} (hphase : t.phase? n = some phase) :
    t.flushes (.call n) = phase.flushes := by
  simp [flushes, hphase]

namespace Effect

/-- The keeper moves and does not flush, before and after. -/
theorem set_keeper (hcalls : t'.calls = t.calls) (hclosed : t'.isClosed = t.isClosed)
    (hbefore : keeperInHand t.keeper = []) (hafter : keeperInHand t'.keeper = []) : Effect t t' [] := by
  refine .quiet (.inl rfl) hclosed ?_ (congrArg (List.filter _) hcalls)
  rw [inHand, inHand, hcalls, hbefore, hafter]

/-! ### Calls -/

theorem schedule (hfresh : t.phase? n = none) (value : α) :
    Effect t (t.schedule n value) (t.marks (.schedule n value)) := by
  have hothers := not_ender_of_fresh hfresh
  unfold Throttle.schedule marks
  split
  · exact .quiet (.inr ⟨n, false, rfl, hothers⟩) rfl rfl rfl
  · split
    · exact .quiet (.inr ⟨n, true, rfl, hothers⟩) rfl rfl rfl
    · refine .quiet (.inl rfl) rfl ?_ ?_
      · simp [inHand, Phase.inHand?]
      · simp [enders, Phase.ends]

/-- A call that is made when the throttle has been shut does nothing, another shuts it. -/
theorem shut {phase : Phase α} {last : Option α} (hopen : t.isClosed = false) (hends : phase.ends = true)
    (hidle : phase.inHand? = none)
    (hphase : (∃ value, phase = .closing value ∧ last = some value) ∨ phase = .draining ∧ last = none) :
    Effect t { t.shut with calls := t.calls ++ [(n, phase)] } [.shut n last] := by
  refine .shuts hopen rfl ?_ hphase ?_
  · simp [inHand, hidle, Throttle.shut]
  · simp [enders, hends]

theorem flushNow (hfresh : t.phase? n = none) (value : α) :
    Effect t (t.flushNow n value) (t.marks (.flushNow n value)) := by
  unfold Throttle.flushNow marks
  cases hclosed : t.isClosed with
  | true => exact .quiet (.inr ⟨n, false, rfl, not_ender_of_fresh hfresh⟩) rfl rfl rfl
  | false => exact .shut hclosed rfl rfl (.inl ⟨value, rfl, rfl⟩)

theorem close (hfresh : t.phase? n = none) : Effect t (t.close n) (t.marks (.close n)) := by
  unfold Throttle.close marks
  cases hclosed : t.isClosed with
  | true => exact .quiet (.inr ⟨n, false, rfl, not_ender_of_fresh hfresh⟩) rfl rfl rfl
  | false => exact .shut hclosed rfl rfl (.inr ⟨rfl, rfl⟩)

/-! ### The lock -/

theorem enter_leading (h : t.Locked) {value : α} (hphase : t.phase? n = some (.leading value))
    (hhead : t.line.head? = some (.call n)) :
    Effect t (t.enter (.call n)).1 (t.marks (.enter (.call n))) := by
  obtain ⟨front, back, he⟩ := h.entry hphase
  have henders : t.enders = front.filter (·.2.ends) ++ back.filter (·.2.ends) := by
    rw [he.enders_eq]
    simp [Phase.ends]
  cases hclosed : t.isClosed with
  | true =>
    have hmarks : t.marks (.enter (.call n)) = [.returned n true] := by simp [marks, he.enter_shut hclosed]
    rw [hmarks, he.enter_shut hclosed]
    refine .quiet (.inr ⟨n, true, rfl, he.not_ender rfl⟩) rfl ?_ ?_
    · simp [inHand, he.calls, Phase.inHand?]
    · rw [henders, enders, List.filter_append]
  | false =>
    have hidle := h.inHand_eq_nil hhead (flushes_of_phase hphase)
    have hmarks : t.marks (.enter (.call n)) = [.began (.call n) value] := by simp [marks, he.enter_open hclosed]
    rw [hmarks, he.enter_open hclosed]
    refine .begins hclosed hclosed hidle ?_ ?_
    · rw [inHand, he.calls] at hidle
      simp only [callsInHand_append, callsInHand_cons, List.append_eq_nil_iff] at hidle
      obtain ⟨⟨hfront, -, hback⟩, -⟩ := hidle
      simp [inHand, hfront, hback, Phase.inHand?, keeperInHand]
    · rw [henders]
      simp [enders, Phase.ends]

theorem enter_closing (h : t.Locked) {value : α} (hphase : t.phase? n = some (.closing value))
    (hhead : t.line.head? = some (.call n)) :
    Effect t (t.enter (.call n)).1 (t.marks (.enter (.call n))) := by
  obtain ⟨front, back, he⟩ := h.entry hphase
  have hidle := h.inHand_eq_nil hhead (flushes_of_phase hphase)
  have hmarks : t.marks (.enter (.call n)) = [.began (.call n) value] := by simp [marks, he.enter_closing]
  have henders : t.enders = front.filter (·.2.ends) ++ (n, .closing value) :: back.filter (·.2.ends) := by
    rw [he.enders_eq]
    simp [Phase.ends]
  rw [hmarks, he.enter_closing]
  refine .beginsLast rfl hidle ?_ henders ?_
  · rw [inHand, he.calls] at hidle
    simp only [callsInHand_append, callsInHand_cons, List.append_eq_nil_iff] at hidle
    obtain ⟨⟨hfront, -, hback⟩, hkeeper⟩ := hidle
    simp [inHand, hfront, hback, hkeeper, Phase.inHand?]
  · simp [enders, Phase.ends]

theorem enter_keeper (h : t.Locked) (hkeeper : t.keeper = some .rising) (hhead : t.line.head? = some .keeper) :
    Effect t (t.enter .keeper).1 (t.marks (.enter .keeper)) := by
  have hstill : t.isFlushing = false := by simp [isFlushing, hkeeper]
  have hidle := h.inHand_eq_nil hhead hstill
  have hnothing : keeperInHand t.keeper = [] := by rw [hkeeper]; rfl
  cases hclosed : t.isClosed with
  | true =>
    have henter : t.enter .keeper = ({ t with line := t.line.tail, keeper := none }, none) := by
      simp [Throttle.enter, hclosed, release]
    have hmarks : t.marks (.enter .keeper) = [] := by simp [marks, henter]
    rw [hmarks, henter]
    exact set_keeper rfl rfl hnothing rfl
  | false =>
    cases hpending : t.pending with
    | none =>
      have henter : t.enter .keeper = ({ t with line := t.line.tail, keeper := none, isOpen := false }, none) := by
        simp [Throttle.enter, hclosed, hpending, release]
      have hmarks : t.marks (.enter .keeper) = [] := by simp [marks, henter]
      rw [hmarks, henter]
      exact set_keeper rfl rfl hnothing rfl
    | some value =>
      have henter : t.enter .keeper =
          ({ t with pending := none, keeper := some (.flushing value) }, some value) := by
        simp [Throttle.enter, hclosed, hpending]
      have hmarks : t.marks (.enter .keeper) = [.began .keeper value] := by simp [marks, henter]
      rw [hmarks, henter]
      refine .begins hclosed hclosed hidle ?_ rfl
      have hcalls : callsInHand t.calls = [] := (List.append_eq_nil_iff.1 hidle).1
      simp [inHand, hcalls, keeperInHand]

theorem finish_call (h : t.Locked) {value : α} {final : Bool} (hphase : t.phase? n = some (.flushing value final)) :
    Effect t (t.finish (.call n)) (t.marks (.finish (.call n))) := by
  obtain ⟨front, back, he⟩ := h.entry hphase
  obtain ⟨hfront, hback, hkeeper⟩ := h.inHand_call he
  have hhand : t.inHand = [(.call n, value)] := by
    simp [inHand, he.calls, hfront, hback, hkeeper, Phase.inHand?]
  simp only [marks, hphase]
  rw [he.finish]
  cases final with
  | true =>
    have henders : t.enders = front.filter (·.2.ends) ++ (n, .flushing value true) :: back.filter (·.2.ends) := by
      rw [he.enders_eq]
      simp [Phase.ends]
    refine .endsLast rfl hhand ?_ henders ?_
    · simp [inHand, hfront, hback, hkeeper, Phase.inHand?]
    · simp [enders, Phase.ends]
  | false =>
    refine .ends (.inr ⟨n, true, rfl, he.not_ender rfl⟩) rfl hhand ?_ ?_
    · simp [inHand, hfront, hback, hkeeper]
    · rw [he.enders_eq]
      simp [enders, Phase.ends]

theorem finish_keeper (h : t.Locked) (hflushing : t.isFlushing = true) :
    Effect t (t.finish .keeper) (t.marks (.finish .keeper)) := by
  obtain ⟨value, hkeeper⟩ := exists_of_isFlushing hflushing
  have hcalls := h.inHand_keeper hflushing
  simp only [marks, hkeeper]
  refine .ends (.inl rfl) rfl ?_ ?_ rfl
  · simp [inHand, hcalls, hkeeper, keeperInHand]
  · simp [inHand, finish, release, hcalls, keeperInHand]

theorem leave (h : t.Locked) (hphase : t.phase? n = some .draining) (hkeeper : t.keeper = none) :
    Effect t (t.leave n) (t.marks (.leave n)) := by
  obtain ⟨front, back, he⟩ := h.entry hphase
  have henders : t.enders = front.filter (·.2.ends) ++ (n, .draining) :: back.filter (·.2.ends) := by
    rw [he.enders_eq]
    simp [Phase.ends]
  rw [he.leave]
  refine .returns rfl hkeeper ?_ henders ?_
  · simp [inHand, he.calls, Phase.inHand?]
  · exact List.filter_append _ _

/-! ### The keeper -/

theorem rest (hkeeper : t.keeper = some .starting) (now : Nat) : Effect t (t.rest now) [] := by
  unfold Throttle.rest
  split
  · exact set_keeper rfl rfl (by rw [hkeeper]; rfl) rfl
  · exact set_keeper rfl rfl (by rw [hkeeper]; rfl) rfl

/-- **One move.** -/
theorem make (h : t.Locked) {m : Move α} (hmay : t.may m = true) : Effect t (t.make m) (t.marks m) := by
  cases allowed_of_can (can_of_may hmay) with
  | schedule hfresh => exact schedule hfresh _
  | flushNow hfresh => exact flushNow hfresh _
  | close hfresh => exact close hfresh
  | join => exact .quiet (.inl rfl) rfl rfl rfl
  | enterLeading hphase hhead => exact enter_leading h hphase hhead
  | enterClosing hphase hhead => exact enter_closing h hphase hhead
  | enterKeeper hkeeper hhead => exact enter_keeper h hkeeper hhead
  | finishCall hphase => exact finish_call h hphase
  | finishKeeper hflushing => exact finish_keeper h hflushing
  | leave hphase => exact leave h hphase (by simpa [may] using (Bool.and_eq_true_iff.1 hmay).2)
  | rest hkeeper => exact rest hkeeper _
  | riseAtOnce hkeeper | rise hkeeper => exact set_keeper rfl rfl (by rw [hkeeper]; rfl) rfl
  | notice hkeeper => exact set_keeper rfl rfl (by rw [hkeeper]; rfl) rfl

end Effect

/-! ## Behind the shut -/

theorem flushMarks_of_returns {marks : List (Mark α)} (h : t.Returns marks) : flushMarks marks = [] := by
  rcases h with rfl | ⟨n, done, rfl, -⟩ <;> rfl

theorem tally_of_returns {marks : List (Mark α)} (h : t.Returns marks) (flushes : List (Actor × α)) :
    marks.foldl Mark.tally flushes = flushes := by
  rcases h with rfl | ⟨n, done, rfl, -⟩ <;> rfl

theorem isShut_of_returns {marks : List (Mark α)} (h : t.Returns marks) : ∀ mark ∈ marks, mark.isShut = false := by
  rcases h with rfl | ⟨n, done, rfl, -⟩ <;> simp [Mark.isShut]

/-- What is under way is known from what was seen. -/
theorem Effect.tally {marks : List (Mark α)} (h : Effect t t' marks) :
    marks.foldl Mark.tally t.inHand = t'.inHand := by
  cases h with
  | quiet hmarks _ hhand => rw [tally_of_returns hmarks, hhand]
  | begins _ _ hidle hhand | beginsLast _ hidle hhand => rw [hidle, hhand]; rfl
  | ends hmarks _ hhand hidle =>
    rw [List.foldl_cons, tally_of_returns hmarks, hhand, hidle]
    simp [Mark.tally]
  | shuts _ _ hhand | returns _ _ hhand => rw [hhand]; rfl
  | endsLast _ hhand hidle =>
    rw [hhand, hidle]
    simp [Mark.tally]

theorem Effect.isClosed {marks : List (Mark α)} (h : Effect t t' marks) (hclosed : t.isClosed = true) :
    t'.isClosed = true := by
  cases h with
  | quiet _ hsame | ends _ hsame | beginsLast hsame | endsLast hsame | returns hsame => exact hsame.trans hclosed
  | begins hopen => rw [hclosed] at hopen; cases hopen
  | shuts _ hclosed' => exact hclosed'

/-- How a throttle stands that call `n` has shut: what has been flushed since
and what is due are the ends of what was under way, and then the last value.
The call lasts until nothing is due and there is no keeper. -/
structure Behind (t : Throttle α) (before : List (Mark α)) (n : Nat) (last : Option α) (after : List (Mark α)) :
    Prop where
  closed : t.isClosed = true
  once : ∀ mark ∈ before ++ after, mark.isShut = false
  flushes : flushMarks after ++ t.due = endsOf (underWay before) ++ lastFlush n last
  stands :
    (∃ phase, t.enders = [(n, phase)] ∧ Lasts n after ∧ (phase = .draining → last ≠ none → t.due = [])) ∨
      (t.enders = [] ∧ Done n after ∧ t.keeper = none ∧ (last ≠ none → t.due = []))

theorem due_congr (hhand : t'.inHand = t.inHand) (henders : t'.enders = t.enders) : t'.due = t.due := by
  rw [due, due, hhand, henders]

theorem eq_of_append_cons {β : Type} {front back : List β} {a b : β} (h : [b] = front ++ a :: back) :
    front = [] ∧ back = [] ∧ b = a := by
  cases front with
  | nil =>
    obtain ⟨rfl, rfl⟩ := List.cons.inj h
    exact ⟨rfl, rfl, rfl⟩
  | cons c front =>
    have hnil := (List.cons.inj h).2
    simp at hnil

namespace Behind

variable {before after : List (Mark α)} {last : Option α} {marks : List (Mark α)}

/-- No mark that is not one shuts the throttle again. -/
theorem once_append (h : t.Behind before n last after) (hmarks : ∀ mark ∈ marks, mark.isShut = false) :
    ∀ mark ∈ before ++ (after ++ marks), mark.isShut = false := by
  rw [← List.append_assoc]
  intro mark hmark
  rcases List.mem_append.1 hmark with hmark | hmark
  · exact h.once mark hmark
  · exact hmarks mark hmark

theorem flushes_append (h : t.Behind before n last after) (hdue : flushMarks marks ++ t'.due = t.due) :
    flushMarks (after ++ marks) ++ t'.due = endsOf (underWay before) ++ lastFlush n last := by
  rw [flushMarks_append, List.append_assoc, hdue]
  exact h.flushes

theorem note (h : t.Behind before n last after) (hmarks : t.Returns marks) :
    t.Behind before n last (after ++ marks) where
  closed := h.closed
  once := h.once_append (isShut_of_returns hmarks)
  flushes := h.flushes_append (by rw [flushMarks_of_returns hmarks]; rfl)
  stands := by
    rcases h.stands with ⟨phase, hphase, hlasts, hdraining⟩ | ⟨hnone, hreturned, hkeeper, hdone⟩
    · refine .inl ⟨phase, hphase, hlasts.append fun done hmem => ?_, hdraining⟩
      rcases hmarks with rfl | ⟨k, done', rfl, hothers⟩
      · cases hmem
      · obtain ⟨rfl, -⟩ : n = k ∧ done = done' := by simpa using hmem
        exact hothers _ (by rw [hphase]; exact List.mem_singleton_self _) rfl
    · exact .inr ⟨hnone, hreturned.append marks, hkeeper, hdone⟩

/-- A flush ends, or nothing that is seen of flushes. -/
theorem move (h : t.Behind before n last after) (hflush : ∀ mark ∈ marks, mark.isFlush = true)
    (hdue : flushMarks marks ++ t'.due = t.due) (hclosed : t'.isClosed = t.isClosed) (henders : t'.enders = t.enders)
    (hkeeper : t.keeper = none → t'.keeper = none) : t'.Behind before n last (after ++ marks) := by
  have hdone : t.due = [] → t'.due = [] := fun hnil => (List.append_eq_nil_iff.1 (hdue.trans hnil)).2
  have hunshut : ∀ mark ∈ marks, mark.isShut = false := by
    intro mark hmark
    have hkind := hflush mark hmark
    cases mark with
    | began | ended => rfl
    | shut | returned => cases hkind
  exact {
    closed := hclosed.trans h.closed
    once := h.once_append hunshut
    flushes := h.flushes_append hdue
    stands := by
      rw [henders]
      rcases h.stands with ⟨phase, hphase, hlasts, hdraining⟩ | ⟨hnone, hreturned, hnokeeper, hnothing⟩
      · refine .inl ⟨phase, hphase, hlasts.append (lasts_of_isFlush hflush), fun heq hlast => ?_⟩
        exact hdone (hdraining heq hlast)
      · exact .inr ⟨hnone, hreturned.append marks, hkeeper hnokeeper, fun hlast => hdone (hnothing hlast)⟩ }

/-- **One move** behind the shut. -/
theorem step (h : t.Behind before n last after) (he : Effect t t' marks)
    (hkeeper : t.keeper = none → t'.keeper = none) : t'.Behind before n last (after ++ marks) := by
  have hender : ∀ {k phase front back}, t.enders = front ++ (k, phase) :: back →
      front = [] ∧ back = [] ∧ k = n ∧ Lasts n after ∧ (phase = .draining → last ≠ none → t.due = []) := by
    intro k phase front back henders
    rcases h.stands with ⟨phase', hphase, hlasts, hdraining⟩ | ⟨hnone, -⟩
    · obtain ⟨hfront, hback, heq⟩ := eq_of_append_cons (hphase.symm.trans henders)
      obtain ⟨rfl, rfl⟩ := Prod.mk.inj heq
      exact ⟨hfront, hback, rfl, hlasts, hdraining⟩
    · rw [hnone] at henders
      simp at henders
  cases he with
  | quiet hmarks hclosed hhand henders =>
    have hsame : t'.Behind before n last (after ++ []) :=
      h.move (by simp) (due_congr hhand henders) hclosed henders hkeeper
    rw [List.append_nil] at hsame
    exact hsame.note (by rw [Returns, henders]; exact hmarks)
  | begins hopen => rw [h.closed] at hopen; cases hopen
  | @ends a value marks hmarks hclosed hhand hidle henders =>
    have hended : t'.Behind before n last (after ++ [.ended a value]) := by
      refine h.move (by simp [Mark.isFlush]) ?_ hclosed henders hkeeper
      rw [due, due, hhand, hidle, henders]
      rfl
    have hreturns : t'.Returns marks := by
      rw [Returns, henders]
      exact hmarks
    have hboth := hended.note hreturns
    rwa [List.append_assoc] at hboth
  | shuts hopen => rw [h.closed] at hopen; cases hopen
  | beginsLast hclosed hidle hhand henders henders' =>
    obtain ⟨rfl, rfl, rfl, hlasts, -⟩ := hender henders
    exact {
      closed := hclosed.trans h.closed
      once := h.once_append (by simp [Mark.isShut])
      flushes := h.flushes_append (by rw [due, due, hidle, hhand, henders, henders']; rfl)
      stands := .inl ⟨_, henders', hlasts.append (lasts_of_isFlush (by simp [Mark.isFlush])), fun heq => by cases heq⟩ }
  | endsLast hclosed hhand hidle henders henders' =>
    obtain ⟨rfl, rfl, rfl, hlasts, -⟩ := hender henders
    have hdue : t'.due = [] := by rw [due, hidle, henders']; rfl
    exact {
      closed := hclosed.trans h.closed
      once := h.once_append (by simp [Mark.isShut])
      flushes := h.flushes_append (by rw [hdue, due, hhand, henders]; rfl)
      stands := .inl ⟨_, henders', hlasts.append (lasts_of_isFlush (by simp [Mark.isFlush])), fun _ _ => hdue⟩ }
  | returns hclosed hnokeeper hhand henders henders' =>
    obtain ⟨rfl, rfl, rfl, hlasts, hdraining⟩ := hender henders
    have hdue : t'.due = t.due := by rw [due, due, hhand, henders, henders']; rfl
    exact {
      closed := hclosed.trans h.closed
      once := h.once_append (by simp [Mark.isShut])
      flushes := h.flushes_append (by rw [hdue]; rfl)
      stands := .inr ⟨henders', ⟨after, [], rfl, hlasts⟩, hkeeper hnokeeper,
        fun hlast => hdue.trans (hdraining rfl hlast)⟩ }

end Behind

theorem keeper_of_closed (h : t.Locked) (hclosed : t.isClosed = true) {m : Move α} (hcan : t.can m = true)
    (hkeeper : t.keeper = none) : (t.make m).keeper = none := by
  cases allowed_of_can hcan with
  | schedule => simpa [make, schedule, hclosed] using hkeeper
  | flushNow => simpa [make, flushNow, hclosed] using hkeeper
  | close => simpa [make, close, hclosed] using hkeeper
  | join => exact hkeeper
  | @enterLeading n value hphase =>
    obtain ⟨front, back, he⟩ := h.entry hphase
    rw [make, he.enter_shut hclosed]
    exact hkeeper
  | @enterClosing n value hphase =>
    obtain ⟨front, back, he⟩ := h.entry hphase
    rw [make, he.enter_closing]
    exact hkeeper
  | @finishCall n value final hphase =>
    obtain ⟨front, back, he⟩ := h.entry hphase
    rw [make, he.finish]
    exact hkeeper
  | @leave n hphase => exact hkeeper
  | finishKeeper hflushing => rw [isFlushing_eq_false hkeeper] at hflushing; cases hflushing
  | enterKeeper hwatch | rest hwatch | riseAtOnce hwatch | rise hwatch | notice hwatch =>
    rw [hkeeper] at hwatch
    cases hwatch

/-- A throttle and what was seen of it: it is not shut and no call has shut
it, or one has, and it stands as it has to behind that. -/
structure Overseen (t : Throttle α) (log : List (Mark α)) : Prop where
  sound : ∃ f, Sound t f
  underWay : underWay log = t.inHand
  stands :
    (t.isClosed = false ∧ t.enders = [] ∧ ∀ mark ∈ log, mark.isShut = false) ∨
      ∃ before n last after, log = before ++ .shut n last :: after ∧ t.Behind before n last after

namespace Overseen

variable {log : List (Mark α)}

theorem new (window : Nat) : Overseen (new window : Throttle α) [] where
  sound := ⟨_, .live window []⟩
  underWay := rfl
  stands := .inl ⟨rfl, rfl, by simp⟩

/-- **One move** of a throttle that is not shut, which may shut it. -/
theorem stands_of_open {marks : List (Mark α)} (hopen : t.isClosed = false) (hnone : t.enders = [])
    (hunshut : ∀ mark ∈ log, mark.isShut = false) (hunderWay : Throttle.underWay log = t.inHand)
    (he : Effect t t' marks) :
    (t'.isClosed = false ∧ t'.enders = [] ∧ ∀ mark ∈ log ++ marks, mark.isShut = false) ∨
      ∃ before n last after, log ++ marks = before ++ .shut n last :: after ∧ t'.Behind before n last after := by
  have happend : (∀ mark ∈ marks, mark.isShut = false) → ∀ mark ∈ log ++ marks, mark.isShut = false := by
    intro hmarks mark hmark
    rcases List.mem_append.1 hmark with hmark | hmark
    · exact hunshut mark hmark
    · exact hmarks mark hmark
  cases he with
  | quiet hmarks hclosed _ henders =>
    exact .inl ⟨hclosed.trans hopen, henders.trans hnone, happend (isShut_of_returns hmarks)⟩
  | begins _ hclosed _ _ henders => exact .inl ⟨hclosed, henders.trans hnone, happend (by simp [Mark.isShut])⟩
  | ends hmarks hclosed _ _ henders =>
    refine .inl ⟨hclosed.trans hopen, henders.trans hnone, happend ?_⟩
    exact List.forall_mem_cons.2 ⟨rfl, isShut_of_returns hmarks⟩
  | @shuts n phase last _ hclosed hhand hphase henders =>
    rw [hnone, List.nil_append] at henders
    refine .inr ⟨log, n, last, [], rfl, ?_⟩
    exact {
      closed := hclosed
      once := by simpa using hunshut
      flushes := by
        rw [due, hhand, henders, ← hunderWay]
        rcases hphase with ⟨value, rfl, rfl⟩ | ⟨rfl, rfl⟩ <;> rfl
      stands := by
        refine .inl ⟨phase, henders, lasts_nil n, fun hdraining hlast => ?_⟩
        rcases hphase with ⟨value, rfl, rfl⟩ | ⟨rfl, rfl⟩
        · cases hdraining
        · exact absurd rfl hlast }
  | beginsLast _ _ _ henders | endsLast _ _ _ henders | returns _ _ _ henders =>
    rw [hnone] at henders
    simp at henders

theorem make (h : Overseen t log) {m : Move α} (hmay : t.may m = true) :
    Overseen (t.make m) (log ++ t.marks m) := by
  obtain ⟨f, hsound⟩ := h.sound
  have heffect := Effect.make hsound.locked hmay
  refine ⟨⟨_, hsound.make (can_of_may hmay)⟩, ?_, ?_⟩
  · rw [underWay_append, h.underWay, heffect.tally]
  · rcases h.stands with ⟨hopen, hnone, hunshut⟩ | ⟨before, n, last, after, rfl, hbehind⟩
    · exact stands_of_open hopen hnone hunshut h.underWay heffect
    · have hkeeper := keeper_of_closed hsound.locked hbehind.closed (can_of_may hmay)
      exact .inr ⟨before, n, last, after ++ t.marks m, by simp, hbehind.step heffect hkeeper⟩

theorem watch {s : Throttle α × List (Mark α)} (h : Overseen s.1 s.2) (m : Move α) :
    Overseen (watch s m).1 (watch s m).2 := by
  unfold Throttle.watch
  by_cases hmay : s.1.may m = true
  · rw [if_pos hmay]
    exact h.make hmay
  · rw [if_neg hmay]
    exact h

/-- **A run of moves.** -/
theorem foldl {s : Throttle α × List (Mark α)} (h : Overseen s.1 s.2) (moves : List (Move α)) :
    Overseen (moves.foldl Throttle.watch s).1 (moves.foldl Throttle.watch s).2 := by
  induction moves generalizing s with
  | nil => exact h
  | cons m moves ih => exact ih (h.watch m)

theorem observed (window : Nat) (moves : List (Move α)) :
    Overseen (observed window moves).1 (observed window moves).2 :=
  foldl (s := (Throttle.new window, [])) (.new window) moves

end Overseen

theorem make_of_closed (hclosed : t.isClosed = true) {m : Move α} (hcall : m.isCall = true) : t.make m = t := by
  cases m with
  | schedule => simp [make, schedule, hclosed]
  | flushNow => simp [make, flushNow, hclosed]
  | close => simp [make, close, hclosed]
  | join | enter | finish | leave | rest | rise | notice => cases hcall

/-- Behind the shut the throttle comes to rest, whatever new calls are made. -/
theorem Sound.moves_le_effort {f : Fates α} (h : Sound t f) (hclosed : t.isClosed = true) {moves : List (Move α)}
    (hfollows : t.Follows moves) : (moves.filter (!·.isCall)).length ≤ t.effort := by
  induction moves generalizing t f with
  | nil => exact Nat.zero_le _
  | cons m moves ih =>
    obtain ⟨hmay, hrest⟩ := hfollows
    have hcan := can_of_may hmay
    cases hcall : m.isCall with
    | true =>
      rw [List.filter_cons_of_neg (by simp [hcall])]
      rw [make_of_closed hclosed hcall] at hrest
      exact ih h hclosed hrest
    | false =>
      have hlt := h.locked.effort_lt hcan hcall
      have hclosed' := (Effect.make h.locked hmay).isClosed hclosed
      have hle := ih (h.make hcan) hclosed' hrest
      rw [List.filter_cons_of_pos (by simp [hcall]), List.length_cons]
      omega

/-! ## The last call -/

/-- What is known of a throttle that call `n` has shut, with a last value or
without, by what was seen `before` and `after` that. -/
structure Final (t : Throttle α) (before : List (Mark α)) (n : Nat) (last : Option α) (after : List (Mark α)) :
    Prop where
  /-- No other call has shut it. -/
  once : ∀ mark ∈ before ++ after, mark.isShut = false
  /-- One that comes now is too late, and does nothing. -/
  late : ∀ k value, t.make (.flushNow k value) = t ∧ t.marks (.flushNow k value) = [.returned k false]
  lateClose : ∀ k, t.make (.close k) = t ∧ t.marks (.close k) = [.returned k false]
  /-- What was under way has ended before the last value is flushed, once. -/
  flushes : flushMarks after <+: endsOf (underWay before) ++ lastFlush n last
  /-- No other flush has begun, of a value that waited or of any. -/
  only : ∀ a value, .began a value ∈ after → a = .call n ∧ last = some value
  /-- The call has not returned, or it has and came in time. -/
  answer : Lasts n after ∨ Done n after
  /-- When it has returned, the last value has been flushed, and nobody flushes
  and no keeper is there. -/
  done : last ≠ none → Done n after →
    flushMarks after = endsOf (underWay before) ++ lastFlush n last ∧ t.flushing = [] ∧ t.keeper = none
  /-- Until then somebody can go on, -/
  live : Lasts n after → ∃ m : Move α, m.isCall = false ∧ t.may m = true
  /-- and that only so often, whatever calls are made. -/
  rests : ∀ moves, t.Follows moves → (moves.filter (!·.isCall)).length ≤ t.effort

theorem Behind.final {f : Fates α} {before after : List (Mark α)} {last : Option α}
    (h : t.Behind before n last after) (hsound : Sound t f) : t.Final before n last after where
  once := h.once
  late k value := by simp [make, marks, flushNow, h.closed]
  lateClose k := by simp [make, marks, close, h.closed]
  flushes := ⟨t.due, h.flushes⟩
  only a value hbegan := by
    have hflush : .began a value ∈ endsOf (underWay before) ++ lastFlush n last := by
      rw [← h.flushes]
      exact List.mem_append_left _ (List.mem_filter.2 ⟨hbegan, rfl⟩)
    rcases List.mem_append.1 hflush with hmem | hmem
    · obtain ⟨flush, -, heq⟩ := List.mem_map.1 hmem
      cases heq
    · cases last with
      | none => cases hmem
      | some value' =>
        obtain ⟨rfl, rfl⟩ : a = .call n ∧ value = value' := by simpa [lastFlush] using hmem
        exact ⟨rfl, rfl⟩
  answer := h.stands.imp (fun ⟨_, _, hlasts, _⟩ => hlasts) fun ⟨_, hreturned, _⟩ => hreturned
  done hlast hreturned := by
    rcases h.stands with ⟨phase, -, hlasts, -⟩ | ⟨-, -, hkeeper, hdone⟩
    · exact absurd hlasts hreturned.not_lasts
    · have hdue := hdone hlast
      have hflushes := h.flushes
      rw [hdue, List.append_nil] at hflushes
      refine ⟨hflushes, ?_, hkeeper⟩
      have hhand : t.inHand = [] := List.map_eq_nil_iff.1 (List.append_eq_nil_iff.1 hdue).1
      rw [← map_inHand, hhand]
      rfl
  live hlasts := by
    rcases h.stands with ⟨phase, hphase, -, -⟩ | ⟨-, hreturned, -, -⟩
    · refine hsound.locked.exists_may (.inl fun hcalls => ?_)
      rw [enders, hcalls] at hphase
      cases hphase
    · exact absurd hlasts hreturned.not_lasts
  rests _ := hsound.moves_le_effort h.closed

/-- **The last call is the last.** Whatever moves are made of a throttle, in
whatever order: either no call has shut it, and a last call that comes now
does, or exactly one has, and all others come too late (`Final`). Behind the
shut nothing is flushed but what was under way, to its end, and then the last
value, once: not what waited, nor what was to lead a window. When the call
returns the last value has been flushed, nobody flushes and there is no keeper;
and it returns, if those who can go on do. -/
theorem flushNow_final (window : Nat) (moves : List (Move α)) :
    let t := (observed window moves).1
    let log := (observed window moves).2
    (t.isClosed = false ∧ (∀ mark ∈ log, mark.isShut = false) ∧
        (∀ k value, t.marks (.flushNow k value) = [.shut k (some value)]) ∧
        ∀ k, t.marks (.close k) = [.shut k none]) ∨
      ∃ before n last after, log = before ++ .shut n last :: after ∧ t.Final before n last after := by
  intro t log
  have h : Overseen t log := .observed window moves
  obtain ⟨f, hsound⟩ := h.sound
  rcases h.stands with ⟨hopen, -, hunshut⟩ | ⟨before, n, last, after, hlog, hbehind⟩
  · exact .inl ⟨hopen, hunshut, by simp [marks, hopen], by simp [marks, hopen]⟩
  · exact .inr ⟨before, n, last, after, hlog, hbehind.final hsound⟩

/-- A value is being flushed and another waits when the last one comes: the
first flush ends, the value that waits is not flushed, and one more last call
is too late. -/
example :
    let moves : List (Move Nat) := [.schedule 0 1, .join 0, .enter (.call 0), .schedule 1 2, .flushNow 2 9, .join 2,
      .flushNow 3 10, .finish (.call 0), .enter (.call 2), .rest 0, .finish (.call 2), .leave 2]
    (observed 100 moves).2 = [.began (.call 0) 1, .returned 1 true, .shut 2 (some 9), .returned 3 false,
      .ended (.call 0) 1, .returned 0 true, .began (.call 2) 9, .ended (.call 2) 9, .returned 2 true] := by decide

end ReplyStream.Throttle
