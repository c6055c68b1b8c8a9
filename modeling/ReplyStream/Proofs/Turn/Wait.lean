/-
What goes on while the caller waits. It is made of moves of the office and of
the keeper, so what both keep is kept while time passes (`Invariant.passTo`).
Each such move also lowers the effort that is left, so a wait ends as soon as
what it waits for has happened, when something is due until then
(`Invariant.await`).
-/
import ReplyStream.Proofs.Chain.Service
import ReplyStream.Turn.Basic

namespace ReplyStream.Turn

variable {I : Turn → Prop} {t : Turn}

/-- What holds on while the caller waits: the passing of time keeps it, and
so does every move, which brings the wait nearer to its end. -/
structure Invariant (I : Turn → Prop) : Prop where
  later : ∀ {t}, I t → ∀ now, I { t with now }
  served : ∀ {t}, I t → (t.office.due t.now).isSome = true → I t.serve ∧ t.serve.effort < t.effort
  kept : ∀ {t}, I t → t.keeperDue = some t.now → I t.keep ∧ t.keep.effort < t.effort

/-! ## The keeper goes on -/

theorem keepOn_go_kept (hkept : ∀ {t}, I t → t.keeperDue = some t.now → I t.keep ∧ t.keep.effort < t.effort)
    (limit : Nat) (h : I t) : I (keepOn.go limit t) ∧ (keepOn.go limit t).effort ≤ t.effort := by
  induction limit generalizing t with
  | zero => exact ⟨h, Nat.le_refl _⟩
  | succ limit ih =>
    simp only [keepOn.go]
    split
    next hdue =>
      obtain ⟨hkeep, hlt⟩ := hkept h hdue
      obtain ⟨hgo, hle⟩ := ih hkeep
      exact ⟨hgo, by omega⟩
    · exact ⟨h, Nat.le_refl _⟩

theorem keepOn_kept (hkept : ∀ {t}, I t → t.keeperDue = some t.now → I t.keep ∧ t.keep.effort < t.effort)
    (h : I t) : I t.keepOn ∧ t.keepOn.effort ≤ t.effort :=
  keepOn_go_kept hkept t.keeperEffort h

theorem keeperEffort_pos (h : t.keeperDue.isSome = true) : 0 < t.keeperEffort := by
  unfold keeperDue at h
  unfold keeperEffort
  split at h
  · cases h
  · cases h
  next hkeeper => simp only [hkeeper]; omega
  next hkeeper => simp only [hkeeper]; omega
  next hkeeper => simp only [hkeeper]; omega

theorem Invariant.keepOn_lt (hI : Invariant I) (h : I t) (hdue : t.keeperDue = some t.now) :
    I t.keepOn ∧ t.keepOn.effort < t.effort := by
  have hpos : 0 < t.keeperEffort := keeperEffort_pos (by rw [hdue]; rfl)
  obtain ⟨limit, hlimit⟩ := Nat.exists_eq_succ_of_ne_zero (Nat.pos_iff_ne_zero.1 hpos)
  obtain ⟨hkeep, hlt⟩ := hI.kept h hdue
  obtain ⟨hgo, hle⟩ := keepOn_go_kept hI.kept limit hkeep
  have heq : t.keepOn = keepOn.go limit t.keep := by
    rw [keepOn, hlimit, Nat.succ_eq_add_one, keepOn.go, if_pos hdue]
  rw [heq]
  exact ⟨hgo, by omega⟩

/-! ## Steps -/

theorem keeperDue_later {time : Nat} (h : t.keeperDue = some time) :
    ({ t with now := time } : Turn).keeperDue = some time := by
  unfold keeperDue at h ⊢
  match hkeeper : t.throttle.keeper with
  | none => rw [hkeeper] at h; cases h
  | some (.flushing _) => rw [hkeeper] at h; cases h
  | some .starting => rfl
  | some (.asleep deadline) =>
    rw [hkeeper] at h
    dsimp only at h ⊢
    split at h
    next hclosed => rw [if_pos hclosed]
    next hclosed =>
      cases h
      rw [if_neg hclosed, Nat.max_eq_right (Nat.le_max_left ..)]
  | some .rising =>
    rw [hkeeper] at h
    dsimp only at h ⊢
    split at h
    next hholds => rw [if_pos hholds]
    next hholds => cases h

theorem due_later {κ : Type} (o : Office κ) {now time : Nat} (h : (o.due now).isSome = true) :
    (o.due time).isSome = true := by
  unfold Office.due at h ⊢
  split
  · rfl
  next hsending =>
    rw [hsending] at h
    dsimp only at h
    split
    next hempty => rw [if_pos hempty] at h; cases h
    · rfl

/-- A step that is due keeps the invariant and comes nearer to the end. -/
theorem Invariant.step (hI : Invariant I) (h : I t) (hnext : t.next.isSome = true) :
    I t.step ∧ t.step.effort < t.effort := by
  have hserve : ∀ {time}, t.office.due t.now = some time →
      I ({ t with now := time } : Turn).serve ∧ ({ t with now := time } : Turn).serve.effort < t.effort := by
    intro time hdue
    exact hI.served (hI.later h time) (due_later t.office (by rw [hdue]; rfl))
  have hkeep : ∀ {time}, t.keeperDue = some time →
      I ({ t with now := time } : Turn).keepOn ∧ ({ t with now := time } : Turn).keepOn.effort < t.effort := by
    intro time hdue
    exact hI.keepOn_lt (hI.later h time) (keeperDue_later hdue)
  unfold next at hnext
  unfold Turn.step
  cases hoffice : t.office.due t.now with
  | none =>
    cases hkeeper : t.keeperDue with
    | none => rw [hoffice, hkeeper] at hnext; cases hnext
    | some b => exact hkeep hkeeper
  | some a =>
    cases hkeeper : t.keeperDue with
    | none => exact hserve hoffice
    | some b =>
      dsimp only
      split
      · exact hserve hoffice
      · exact hkeep hkeeper

/-! ## Waits -/

theorem Invariant.passTo (hI : Invariant I) (h : I t) (time : Nat) : I (t.passTo time) := by
  have hgo : ∀ limit t, I t → I (passTo.go time limit t) := by
    intro limit
    induction limit with
    | zero => exact fun t h => hI.later h _
    | succ limit ih =>
      intro t h
      simp only [passTo.go]
      split
      next hdue =>
        have hnext : t.next.isSome = true := by
          cases hnext : t.next with
          | none => rw [hnext] at hdue; cases hdue
          | some _ => rfl
        exact ih _ (hI.step h hnext).1
      · exact hI.later h _
  exact hgo t.effort t h

/-- A wait ends with what it waits for, if something is due until then. -/
theorem Invariant.await (hI : Invariant I) (done : Turn → Bool)
    (hdue : ∀ {t}, I t → done t = false → t.next.isSome = true) (h : I t) :
    I (t.await done) ∧ done (t.await done) = true := by
  have hgo : ∀ limit t, I t → t.effort ≤ limit → I (await.go done limit t) ∧ done (await.go done limit t) = true := by
    intro limit
    induction limit with
    | zero =>
      intro t h heffort
      refine ⟨h, ?_⟩
      cases hdone : done t with
      | true => exact hdone
      | false =>
        have := (hI.step h (hdue h hdone)).2
        omega
    | succ limit ih =>
      intro t h heffort
      simp only [await.go]
      split
      next hdone => exact ⟨h, hdone⟩
      next hdone =>
        obtain ⟨hstep, hlt⟩ := hI.step h (hdue h (by simpa using hdone))
        exact ih _ hstep (by omega)
  exact hgo t.effort t h (Nat.le_refl _)

theorem await_of_done {done : Turn → Bool} (h : done t = true) : t.await done = t := by
  unfold Turn.await
  cases t.effort with
  | zero => rfl
  | succ limit => rw [await.go, if_pos h]

end ReplyStream.Turn
