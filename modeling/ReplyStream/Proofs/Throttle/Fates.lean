/-
What becomes of the values that a throttle has taken (`Throttle.Fates`),
whatever moves are made in whatever order. Each is flushed, or gives way to a
later one, or is discarded when the throttle is shut, or still waits; what is
flushed is flushed in the order in which it was taken, and nothing twice
(`Throttle.nothing_lost`).

While the throttle is not shut, a window is open exactly as long as there is a
call to lead it or a keeper to watch it, and never both (`Throttle.Watched`): a
value that waits is waited for. What is flushed and what waits, one behind the
other, is then in the order in which it was taken and ends with the value that
was taken last (`Throttle.Told`).
-/
import ReplyStream.Proofs.Throttle.Rest

namespace ReplyStream.Throttle

variable {α : Type}

/-! ## Fates -/

/-- What has become of the values that were taken. -/
structure Fates (α : Type) where
  accepted : List α
  /-- Those that a call led a window with, or the keeper found waiting. -/
  flushed : List α
  /-- Those that gave way, each with the one that took its place. -/
  replaced : List (α × α)
  discarded : List α

/-- The fates behind a move. -/
def Fates.after (f : Fates α) (t : Throttle α) : Move α → Fates α
  | .schedule _ value =>
    if t.isClosed then f
    else { f with
      accepted := f.accepted ++ [value]
      replaced := f.replaced ++ if t.isOpen then t.pending.toList.map (·, value) else [] }
  | .flushNow .. | .close _ => if t.isClosed then f else { f with discarded := f.discarded ++ t.pending.toList }
  | .enter (.call n) =>
    match t.phase? n, (t.enter (.call n)).2 with
    | some (.leading _), some value => { f with flushed := f.flushed ++ [value] }
    | some (.leading value), none => { f with discarded := f.discarded ++ [value] }
    | _, _ => f
  | .enter .keeper => { f with flushed := f.flushed ++ (t.enter .keeper).2.toList }
  | .join _ | .finish _ | .leave _ | .rest _ | .rise _ | .notice => f

/-- Makes a move, if it may be made. -/
def step (s : Throttle α × Fates α) (m : Move α) : Throttle α × Fates α :=
  if s.1.can m then (s.1.make m, s.2.after s.1 m) else s

/-- A throttle that is used, and what has become of the values behind some moves. -/
def live (window : Nat) (moves : List (Move α)) : Throttle α × Fates α :=
  moves.foldl step (new window, ⟨[], [], [], []⟩)

/-- Moves that can be made one after the other, with no new call among them. -/
def GoesOn (t : Throttle α) : List (Move α) → Prop
  | [] => True
  | m :: moves => t.can m = true ∧ m.isCall = false ∧ (t.make m).GoesOn moves

/-- The values of calls that are to lead a window. -/
def leads (calls : List (Nat × Phase α)) : List α := calls.flatMap (·.2.leads?.toList)

def leaders (t : Throttle α) : List α := leads t.calls

/-- The values that are still to be flushed. -/
def waiting (t : Throttle α) : List α := t.leaders ++ t.pending.toList

@[simp] theorem leads_nil : leads ([] : List (Nat × Phase α)) = [] := rfl

@[simp] theorem leads_cons (c : Nat × Phase α) (calls : List (Nat × Phase α)) :
    leads (c :: calls) = c.2.leads?.toList ++ leads calls := rfl

@[simp] theorem leads_append (calls more : List (Nat × Phase α)) : leads (calls ++ more) = leads calls ++ leads more :=
  List.flatMap_append

/-! ## Windows -/

/-- While the throttle is not shut, an open window has a call that leads it
or a keeper, and without a window nothing waits. -/
structure Watched (t : Throttle α) : Prop where
  shut : t.isClosed = true → t.pending = none
  idle : t.isClosed = false → t.isOpen = false → t.leaders = [] ∧ t.pending = none ∧ t.keeper = none
  watched : t.isClosed = false → t.isOpen = true →
    (t.keeper = none ∧ ∃ value, t.leaders = [value]) ∨ (t.keeper.isSome = true ∧ t.leaders = [])

/-- What became of the values is right. -/
structure Told (t : Throttle α) (f : Fates α) : Prop where
  order : (f.flushed ++ t.waiting).Sublist f.accepted
  last : t.isClosed = false → (f.flushed ++ t.waiting).getLast? = f.accepted.getLast?
  fates : f.accepted.Perm (f.flushed ++ f.replaced.map (·.1) ++ f.discarded ++ t.waiting)
  counted : t.coalesced = f.replaced.length
  later : ∀ r ∈ f.replaced, [r.1, r.2].Sublist f.accepted
  shut : f.discarded ≠ [] → t.isClosed = true

variable {t t' : Throttle α} {f : Fates α} {n : Nat} {phase : Phase α}

theorem watched_new (window : Nat) : (new window : Throttle α).Watched where
  shut _ := rfl
  idle _ _ := ⟨rfl, rfl, rfl⟩
  watched _ hopen := by cases hopen

theorem told_new (window : Nat) : (new window : Throttle α).Told ⟨[], [], [], []⟩ where
  order := List.Sublist.refl []
  last _ := rfl
  fates := List.Perm.refl []
  counted := rfl
  later := by simp
  shut := by simp

/-- Only who leads a window plays a part among the calls, and of the keeper
only whether there is one. -/
theorem Watched.congr (h : t.Watched) (hclosed : t'.isClosed = t.isClosed) (hopen : t'.isOpen = t.isOpen)
    (hpending : t'.pending = t.pending) (hleaders : t'.leaders = t.leaders)
    (hkeeper : t'.keeper.isSome = t.keeper.isSome) : t'.Watched := by
  have hnone : t'.keeper = none ↔ t.keeper = none := by
    rw [← Option.isNone_iff_eq_none, ← Option.isNone_iff_eq_none, ← Option.not_isSome, ← Option.not_isSome, hkeeper]
  exact {
    shut := by
      rw [hclosed, hpending]
      exact h.shut
    idle := by
      rw [hclosed, hopen, hleaders, hpending, hnone]
      exact h.idle
    watched := by
      rw [hclosed, hopen, hleaders, hkeeper, hnone]
      exact h.watched }

theorem watched_of_closed (hclosed : t.isClosed = true) (hpending : t.pending = none) : t.Watched where
  shut _ := hpending
  idle hopen := by
    rw [hclosed] at hopen
    cases hopen
  watched hopen := by
    rw [hclosed] at hopen
    cases hopen

/-- Who is to lead a window is alone, and no keeper is there yet. -/
theorem Watched.alone (h : t.Watched) (hclosed : t.isClosed = false) {value : α} (hmem : value ∈ t.leaders) :
    t.isOpen = true ∧ t.keeper = none ∧ t.leaders = [value] := by
  cases hopen : t.isOpen with
  | false =>
    rw [(h.idle hclosed hopen).1] at hmem
    cases hmem
  | true =>
    rcases h.watched hclosed hopen with ⟨hkeeper, value', hleaders⟩ | ⟨-, hleaders⟩
    · rw [hleaders] at hmem ⊢
      obtain rfl := List.mem_singleton.1 hmem
      exact ⟨rfl, hkeeper, rfl⟩
    · rw [hleaders] at hmem
      cases hmem

theorem Watched.kept (h : t.Watched) (hclosed : t.isClosed = false) (hkeeper : t.keeper ≠ none) :
    t.isOpen = true ∧ t.leaders = [] := by
  cases hopen : t.isOpen with
  | false => exact absurd (h.idle hclosed hopen).2.2 hkeeper
  | true =>
    rcases h.watched hclosed hopen with ⟨hnone, -⟩ | ⟨-, hleaders⟩
    · exact absurd hnone hkeeper
    · exact ⟨rfl, hleaders⟩

theorem Told.congr (h : t.Told f) (hclosed : t'.isClosed = t.isClosed) (hwaiting : t'.waiting = t.waiting)
    (hcoalesced : t'.coalesced = t.coalesced) : t'.Told f where
  order := by
    rw [hwaiting]
    exact h.order
  last := by
    rw [hclosed, hwaiting]
    exact h.last
  fates := by
    rw [hwaiting]
    exact h.fates
  counted := by
    rw [hcoalesced]
    exact h.counted
  later := h.later
  shut := by
    rw [hclosed]
    exact h.shut

/-- All that holds of a throttle and of what became of its values. -/
structure Sound (t : Throttle α) (f : Fates α) : Prop where
  locked : t.Locked
  watched : t.Watched
  told : t.Told f

/-! ## Calls that come in -/

/-- A value that is taken while no window is open leads one. -/
theorem Told.lead (h : t.Told f) (hwaiting : t.waiting = []) (value : α) (hwaiting' : t'.waiting = [value])
    (hclosed : t'.isClosed = t.isClosed) (hcoalesced : t'.coalesced = t.coalesced) :
    t'.Told { f with accepted := f.accepted ++ [value] } where
  order := by
    have horder := h.order
    rw [hwaiting, List.append_nil] at horder
    rw [hwaiting']
    exact horder.append_right [value]
  last _ := by simp [hwaiting']
  fates := by
    have hfates := h.fates
    rw [hwaiting, List.append_nil] at hfates
    rw [hwaiting']
    exact hfates.append_right [value]
  counted := by
    rw [hcoalesced]
    exact h.counted
  later r hr := (h.later r hr).trans (List.sublist_append_left _ _)
  shut := by
    rw [hclosed]
    exact h.shut

/-- A value that is taken while a window is open waits in place of another. -/
theorem Told.wait (h : t.Told f) (value : α) (hleaders : t'.leaders = t.leaders) (hpending : t'.pending = some value)
    (hclosed : t'.isClosed = t.isClosed) (hcoalesced : t'.coalesced = t.coalesced + t.pending.toList.length) :
    t'.Told { f with
      accepted := f.accepted ++ [value]
      replaced := f.replaced ++ t.pending.toList.map (·, value) } := by
  have hwaiting : t'.waiting = t.leaders ++ [value] := by simp [waiting, hleaders, hpending]
  exact {
    order := by
      rw [hwaiting, ← List.append_assoc]
      refine List.Sublist.append ?_ (List.Sublist.refl _)
      exact (List.Sublist.append_left (List.sublist_append_left _ _) _).trans h.order
    last := by
      intro _
      simp [hwaiting]
    fates := by
      classical
      have hold : (t.pending.toList.map (·, value)).map (·.1) = t.pending.toList := by
        simp [List.map_map, Function.comp_def]
      refine List.perm_iff_count.2 fun a => ?_
      have ha := List.perm_iff_count.1 h.fates a
      rw [waiting] at ha
      rw [hwaiting, List.map_append, hold]
      simp only [List.count_append] at ha ⊢
      omega
    counted := by
      rw [hcoalesced, h.counted]
      simp
    later := by
      intro r hr
      rcases List.mem_append.1 hr with hr | hr
      · exact (h.later r hr).trans (List.sublist_append_left _ _)
      · obtain ⟨old, hold, rfl⟩ := List.mem_map.1 hr
        have hmem : [old].Sublist f.accepted := by
          refine List.Sublist.trans ?_ h.order
          rw [List.singleton_sublist]
          simp [waiting, hold]
        exact hmem.append (List.Sublist.refl [value])
    shut := by
      rw [hclosed]
      exact h.shut }

theorem Told.flush (h : t.Told f) {value : α} (hwaiting : t.waiting = value :: t'.waiting)
    (hclosed : t'.isClosed = t.isClosed) (hcoalesced : t'.coalesced = t.coalesced) :
    t'.Told { f with flushed := f.flushed ++ [value] } := by
  have hsame : f.flushed ++ [value] ++ t'.waiting = f.flushed ++ t.waiting := by simp [hwaiting]
  exact {
    order := by
      rw [hsame]
      exact h.order
    last := by
      rw [hsame, hclosed]
      exact h.last
    fates := by
      classical
      refine List.perm_iff_count.2 fun a => ?_
      have ha := List.perm_iff_count.1 h.fates a
      rw [hwaiting] at ha
      simp only [List.count_append, List.count_cons, List.count_nil] at ha ⊢
      omega
    counted := by
      rw [hcoalesced]
      exact h.counted
    later := h.later
    shut := by
      rw [hclosed]
      exact h.shut }

/-- Behind the end, values that wait are discarded. -/
theorem Told.discard (h : t.Told f) {values : List α} (hwaiting : t.waiting.Perm (values ++ t'.waiting))
    (hrest : t'.waiting.Sublist t.waiting) (hclosed : t'.isClosed = true) (hcoalesced : t'.coalesced = t.coalesced) :
    t'.Told { f with discarded := f.discarded ++ values } where
  order := (List.Sublist.append_left hrest _).trans h.order
  last hopen := by
    rw [hclosed] at hopen
    cases hopen
  fates := by
    classical
    refine List.perm_iff_count.2 fun a => ?_
    have ha := List.perm_iff_count.1 h.fates a
    have hcount := List.perm_iff_count.1 hwaiting a
    simp only [List.count_append] at ha hcount ⊢
    omega
  counted := by
    rw [hcoalesced]
    exact h.counted
  later := h.later
  shut _ := hclosed

namespace Sound

/-! ## Calls that come in -/

theorem schedule (h : Sound t f) (hfresh : t.phase? n = none) (value : α) :
    Sound (t.schedule n value) (f.after t (.schedule n value)) := by
  cases hclosed : t.isClosed with
  | true => simpa [Throttle.schedule, Fates.after, hclosed] using h
  | false =>
    cases hopen : t.isOpen with
    | true =>
      have hwait : t.schedule n value =
          { t with pending := some value, coalesced := t.coalesced + t.pending.toList.length } := by
        cases hpending : t.pending <;> simp [Throttle.schedule, hclosed, hopen, hpending]
      have hafter : f.after t (.schedule n value) = { f with
          accepted := f.accepted ++ [value]
          replaced := f.replaced ++ t.pending.toList.map (·, value) } := by
        simp [Fates.after, hclosed, hopen]
      rw [hwait, hafter]
      refine ⟨⟨h.locked.keys, h.locked.line, h.locked.queued, h.locked.staked, h.locked.busy, h.locked.busyKeeper⟩,
        ⟨?_, ?_, h.watched.watched⟩, h.told.wait value rfl rfl rfl rfl⟩
      · intro hshut
        exact absurd (hclosed.symm.trans hshut) (by simp)
      · intro _ hidle
        exact absurd (hopen.symm.trans hidle) (by simp)
    | false =>
      obtain ⟨hleaders, hpending, hkeeper⟩ := h.watched.idle hclosed hopen
      have hlead : t.schedule n value = { t with isOpen := true, calls := t.calls ++ [(n, .leading value)] } := by
        simp [Throttle.schedule, hclosed, hopen]
      have hafter : f.after t (.schedule n value) = { f with accepted := f.accepted ++ [value] } := by
        simp [Fates.after, hclosed, hopen]
      have hleaders' : ({ t with isOpen := true, calls := t.calls ++ [(n, .leading value)] } : Throttle α).leaders =
          [value] := by
        rw [leaders] at hleaders ⊢
        simp [hleaders]
      rw [hlead, hafter]
      refine ⟨h.locked.add (.leading value) hfresh rfl rfl rfl rfl, ⟨?_, ?_, ?_⟩, ?_⟩
      · exact h.watched.shut
      · intro _ hidle
        cases hidle
      · exact fun _ _ => .inl ⟨hkeeper, value, hleaders'⟩
      · refine h.told.lead ?_ value ?_ rfl rfl
        · simp [waiting, hleaders, hpending]
        · rw [waiting, hleaders']
          simp [hpending]

theorem shut (h : Sound t f) (phase : Phase α) (hfresh : t.phase? n = none) (hflushes : phase.flushes = false)
    (hleads : phase.leads? = none) :
    Sound { t.shut with calls := t.calls ++ [(n, phase)] } { f with discarded := f.discarded ++ t.pending.toList } := by
  have hleaders : ({ t.shut with calls := t.calls ++ [(n, phase)] } : Throttle α).leaders = t.leaders := by
    simp [leaders, hleads]
  have hwaiting : ({ t.shut with calls := t.calls ++ [(n, phase)] } : Throttle α).waiting = t.leaders := by
    rw [waiting, hleaders]
    simp [Throttle.shut]
  refine ⟨h.locked.add phase hfresh hflushes rfl rfl rfl, watched_of_closed rfl rfl, h.told.discard ?_ ?_ rfl rfl⟩
  · rw [hwaiting]
    exact List.perm_append_comm
  · rw [hwaiting]
    exact List.sublist_append_left _ _

theorem flushNow (h : Sound t f) (hfresh : t.phase? n = none) (value : α) :
    Sound (t.flushNow n value) (f.after t (.flushNow n value)) := by
  cases hclosed : t.isClosed with
  | true => simpa [Throttle.flushNow, Fates.after, hclosed] using h
  | false =>
    have hshut := h.shut (.closing value) hfresh rfl rfl
    simpa [Throttle.flushNow, Fates.after, hclosed, Throttle.shut] using hshut

theorem close (h : Sound t f) (hfresh : t.phase? n = none) : Sound (t.close n) (f.after t (.close n)) := by
  cases hclosed : t.isClosed with
  | true => simpa [Throttle.close, Fates.after, hclosed] using h
  | false =>
    have hshut := h.shut .draining hfresh rfl rfl
    simpa [Throttle.close, Fates.after, hclosed, Throttle.shut] using hshut

/-! ## The lock -/

/-- Who leads a window stays the same, and so does what waits. -/
theorem congr (h : Sound t f) (hlocked : t'.Locked) (hclosed : t'.isClosed = t.isClosed) (hopen : t'.isOpen = t.isOpen)
    (hpending : t'.pending = t.pending) (hleaders : t'.leaders = t.leaders)
    (hkeeper : t'.keeper.isSome = t.keeper.isSome) (hcoalesced : t'.coalesced = t.coalesced) : Sound t' f :=
  ⟨hlocked, h.watched.congr hclosed hopen hpending hleaders hkeeper,
    h.told.congr hclosed (by rw [waiting, waiting, hleaders, hpending]) hcoalesced⟩

theorem join (h : Sound t f) (hphase : t.phase? n = some phase) (hwants : phase.wants = true)
    (hline : .call n ∉ t.line) : Sound (t.join (.call n)) f :=
  h.congr (h.locked.join hphase hwants hline) rfl rfl rfl rfl rfl rfl

/-- A call with the lock that is to lead a window sets a keeper on it, unless
the throttle has been shut. -/
theorem enter_leading (h : Sound t f) {value : α} (hphase : t.phase? n = some (.leading value))
    (hhead : t.line.head? = some (.call n)) :
    Sound (t.enter (.call n)).1 (f.after t (.enter (.call n))) := by
  obtain ⟨front, back, he⟩ := h.locked.entry hphase
  have hleaders : t.leaders = leads front ++ value :: leads back := by
    rw [leaders, he.calls, leads_append, leads_cons]
    rfl
  cases hclosed : t.isClosed with
  | true =>
    have hafter : f.after t (.enter (.call n)) = { f with discarded := f.discarded ++ [value] } := by
      simp only [Fates.after, hphase, he.enter_shut hclosed]
    rw [hafter, he.enter_shut hclosed]
    have hrest : ({ t with line := t.line.tail, calls := front ++ back } : Throttle α).leaders =
        leads front ++ leads back := leads_append front back
    refine ⟨h.locked.pass he hhead (.inl rfl) (by simp) rfl rfl,
      watched_of_closed hclosed (h.watched.shut hclosed), h.told.discard ?_ ?_ hclosed rfl⟩
    · simp [waiting, hleaders, hrest]
    · simp [waiting, hleaders, hrest]
  | false =>
    have hmem : value ∈ t.leaders := by simp [hleaders]
    obtain ⟨hopen, hkeeper, halone⟩ := h.watched.alone hclosed hmem
    have hafter : f.after t (.enter (.call n)) = { f with flushed := f.flushed ++ [value] } := by
      simp only [Fates.after, hphase, he.enter_open hclosed]
    rw [hafter, he.enter_open hclosed]
    have hnone : leads front = [] ∧ leads back = [] := by
      have hlength := congrArg List.length (hleaders.symm.trans halone)
      simp only [List.length_append, List.length_cons, List.length_nil] at hlength
      exact ⟨List.eq_nil_of_length_eq_zero (by omega), List.eq_nil_of_length_eq_zero (by omega)⟩
    have hrest : ({ t with calls := front ++ (n, .flushing value false) :: back, keeper := some .starting } :
        Throttle α).leaders = [] := by
      simp [leaders, hnone]
    refine ⟨h.locked.begin he hhead rfl rfl rfl ?_ ?_, ⟨?_, ?_, ?_⟩, h.told.flush ?_ rfl rfl⟩
    · rw [stake_eq_nil hkeeper]
      rfl
    · rw [isFlushing_eq_false hkeeper]
      rfl
    · exact h.watched.shut
    · intro _ hidle
      exact absurd (hopen.symm.trans hidle) (by simp)
    · exact fun _ _ => .inr ⟨rfl, hrest⟩
    · simp [waiting, halone, hrest]

/-- A call with the lock flushes the last value of all. -/
theorem enter_closing (h : Sound t f) {value : α} (hphase : t.phase? n = some (.closing value))
    (hhead : t.line.head? = some (.call n)) :
    Sound (t.enter (.call n)).1 (f.after t (.enter (.call n))) := by
  obtain ⟨front, back, he⟩ := h.locked.entry hphase
  have hafter : f.after t (.enter (.call n)) = f := by simp only [Fates.after, hphase]
  rw [hafter, he.enter_closing]
  refine h.congr (h.locked.begin he hhead rfl rfl rfl rfl rfl) rfl rfl rfl ?_ rfl rfl
  simp [leaders, he.calls]

theorem finish_call (h : Sound t f) {value : α} {final : Bool} (hphase : t.phase? n = some (.flushing value final)) :
    Sound (t.finish (.call n)) f := by
  obtain ⟨front, back, he⟩ := h.locked.entry hphase
  have hhead : t.line.head? = some (.call n) := h.locked.busy _ (mem_of_phase hphase) rfl
  rw [he.finish]
  refine h.congr (h.locked.pass he hhead ?_ rfl rfl rfl) rfl rfl rfl ?_ rfl rfl
  · cases final <;> simp
  · cases final <;> simp [leaders, he.calls]

theorem leave (h : Sound t f) (hphase : t.phase? n = some .draining) : Sound (t.leave n) f := by
  obtain ⟨front, back, he⟩ := h.locked.entry hphase
  rw [he.leave]
  refine h.congr (h.locked.leave he rfl rfl rfl) rfl rfl rfl ?_ rfl rfl
  simp [leaders, he.calls]

/-! ## The keeper -/

theorem end_keeper (h : Sound t f) (hclosed : t.isClosed = true) (hstake : t.stake = []) :
    Sound { t with keeper := none } f :=
  ⟨h.locked.set_keeper hstake rfl, watched_of_closed hclosed (h.watched.shut hclosed), h.told.congr rfl rfl rfl⟩

theorem rest (h : Sound t f) (hkeeper : t.keeper = some .starting) (now : Nat) : Sound (t.rest now) f := by
  have hstake : t.stake = [] := by simp only [stake, hkeeper]
  cases hclosed : t.isClosed with
  | true =>
    have hrest : t.rest now = { t with keeper := none } := by simp [Throttle.rest, hclosed]
    rw [hrest]
    exact h.end_keeper hclosed hstake
  | false =>
    have hrest : t.rest now = { t with keeper := some (.asleep (now + t.window)) } := by
      simp [Throttle.rest, hclosed]
    rw [hrest]
    exact h.congr (h.locked.set_keeper hstake rfl) rfl rfl rfl rfl (by simp [hkeeper]) rfl

theorem rise (h : Sound t f) (hstake : t.stake = []) (hkeeper : t.keeper.isSome = true) : Sound t.rise f :=
  h.congr (h.locked.rise hstake) rfl rfl rfl rfl (by simp [Throttle.rise, Throttle.join, hkeeper]) rfl

/-- The keeper with the lock flushes the value that waits, or ends the window. -/
theorem enter_keeper (h : Sound t f) (hkeeper : t.keeper = some .rising) (hhead : t.line.head? = some .keeper) :
    Sound (t.enter .keeper).1 (f.after t (.enter .keeper)) := by
  cases hclosed : t.isClosed with
  | true =>
    have henter : t.enter .keeper = ({ t with line := t.line.tail, keeper := none }, none) := by
      simp [Throttle.enter, hclosed, release]
    have hafter : f.after t (.enter .keeper) = f := by simp [Fates.after, henter]
    rw [hafter, henter]
    exact ⟨h.locked.pass_keeper hhead rfl rfl rfl, watched_of_closed hclosed (h.watched.shut hclosed),
      h.told.congr rfl rfl rfl⟩
  | false =>
    obtain ⟨hopen, hleaders⟩ := h.watched.kept hclosed (by simp [hkeeper])
    cases hpending : t.pending with
    | none =>
      have henter : t.enter .keeper = ({ t with line := t.line.tail, keeper := none, isOpen := false }, none) := by
        simp [Throttle.enter, hclosed, hpending, release]
      have hafter : f.after t (.enter .keeper) = f := by simp [Fates.after, henter]
      rw [hafter, henter]
      refine ⟨h.locked.pass_keeper hhead rfl rfl rfl, ⟨h.watched.shut, ?_, ?_⟩, h.told.congr rfl rfl rfl⟩
      · exact fun _ _ => ⟨hleaders, hpending, rfl⟩
      · intro _ hopen'
        cases hopen'
    | some value =>
      have henter : t.enter .keeper =
          ({ t with pending := none, keeper := some (.flushing value) }, some value) := by
        simp [Throttle.enter, hclosed, hpending]
      have hafter : f.after t (.enter .keeper) = { f with flushed := f.flushed ++ [value] } := by
        simp [Fates.after, henter]
      rw [hafter, henter]
      refine ⟨h.locked.begin_keeper hkeeper hhead value, ⟨fun _ => rfl, ?_, ?_⟩, h.told.flush ?_ rfl rfl⟩
      · intro _ hidle
        exact absurd (hopen.symm.trans hidle) (by simp)
      · exact fun _ _ => .inr ⟨rfl, hleaders⟩
      · have hleaders' : ({ t with pending := none, keeper := some (.flushing value) } : Throttle α).leaders = [] :=
          hleaders
        simp [waiting, hleaders, hleaders', hpending]

theorem finish_keeper (h : Sound t f) (hflushing : t.isFlushing = true) : Sound (t.finish .keeper) f := by
  have hkeeper : t.keeper.isSome = true := by
    cases hkeeper : t.keeper with
    | none =>
      rw [isFlushing_eq_false hkeeper] at hflushing
      cases hflushing
    | some _ => rfl
  refine h.congr ?_ rfl rfl rfl rfl (by simp [Throttle.finish, hkeeper]) rfl
  exact h.locked.pass_keeper (h.locked.busyKeeper hflushing) rfl rfl rfl

/-! ## Moves -/

/-- **One move.** -/
theorem make (h : Sound t f) {m : Move α} (hcan : t.can m = true) : Sound (t.make m) (f.after t m) := by
  cases allowed_of_can hcan with
  | schedule hfresh => exact h.schedule hfresh _
  | flushNow hfresh => exact h.flushNow hfresh _
  | close hfresh => exact h.close hfresh
  | join hphase hwants hline => exact h.join hphase hwants hline
  | enterLeading hphase hhead => exact h.enter_leading hphase hhead
  | enterClosing hphase hhead => exact h.enter_closing hphase hhead
  | enterKeeper hkeeper hhead => exact h.enter_keeper hkeeper hhead
  | finishCall hphase => exact h.finish_call hphase
  | finishKeeper hflushing => exact h.finish_keeper hflushing
  | leave hphase => exact h.leave hphase
  | rest hkeeper => exact h.rest hkeeper _
  | riseAtOnce hkeeper | rise hkeeper => exact h.rise (by simp only [stake, hkeeper]) (by rw [hkeeper]; rfl)
  | notice hkeeper hclosed => exact h.end_keeper hclosed (by simp only [stake, hkeeper])

theorem step {s : Throttle α × Fates α} (h : Sound s.1 s.2) (m : Move α) : Sound (step s m).1 (step s m).2 := by
  unfold Throttle.step
  by_cases hcan : s.1.can m = true
  · rw [if_pos hcan]
    exact h.make hcan
  · rw [if_neg hcan]
    exact h

/-- **A run of moves.** -/
theorem foldl {s : Throttle α × Fates α} (h : Sound s.1 s.2) (moves : List (Move α)) :
    Sound (moves.foldl Throttle.step s).1 (moves.foldl Throttle.step s).2 := by
  induction moves generalizing s with
  | nil => exact h
  | cons m moves ih => exact ih (h.step m)

theorem live (window : Nat) (moves : List (Move α)) : Sound (live window moves).1 (live window moves).2 :=
  foldl (s := (new window, ⟨[], [], [], []⟩)) ⟨locked_new window, watched_new window, told_new window⟩ moves

/-- Without a new call the throttle comes to rest. -/
theorem length_le_effort (h : Sound t f) {moves : List (Move α)} (hgoes : t.GoesOn moves) :
    moves.length ≤ t.effort := by
  induction moves generalizing t f with
  | nil => exact Nat.zero_le _
  | cons m moves ih =>
    obtain ⟨hcan, hcall, hrest⟩ := hgoes
    have hlt := h.locked.effort_lt hcan hcall
    have hle := ih (h.make hcan) hrest
    rw [List.length_cons]
    omega

theorem waiting_eq_nil (h : Sound t f) (hcalls : t.calls = []) (hkeeper : t.keeper = none) :
    t.waiting = [] ∧ (t.isClosed = false → t.isOpen = false) := by
  have hleaders : t.leaders = [] := by rw [leaders, hcalls, leads_nil]
  have hidle : t.isClosed = false → t.isOpen = false := by
    intro hclosed
    cases hopen : t.isOpen with
    | false => rfl
    | true =>
      rcases h.watched.watched hclosed hopen with ⟨-, value, hvalue⟩ | ⟨hsome, -⟩
      · rw [hleaders] at hvalue
        cases hvalue
      · rw [hkeeper] at hsome
        cases hsome
  refine ⟨?_, hidle⟩
  have hpending : t.pending = none := by
    cases hclosed : t.isClosed with
    | true => exact h.watched.shut hclosed
    | false => exact (h.watched.idle hclosed (hidle hclosed)).2.1
  simp [waiting, hleaders, hpending]

end Sound

/-- **Nothing is lost, repeated or flushed out of order.** Whatever moves are
made of a throttle, in whatever order: no two flush at the same time; what is
flushed is flushed in the order in which it was taken, and nothing twice; and
every value that was taken is flushed, or gave way to one that was taken later,
each counted once, or was discarded because the throttle was shut, or still
waits. Nothing waits, and no window is left open, when no call lasts and there
is no keeper, and then, unless the throttle was shut, the value that was taken
last has been flushed. Until then somebody can go on, and without a new call it
takes no more than `Throttle.effort` moves. -/
theorem nothing_lost (window : Nat) (moves : List (Move α)) :
    let t := (live window moves).1
    let f := (live window moves).2
    t.flushing.length ≤ 1 ∧ f.flushed.Sublist f.accepted ∧
      f.accepted.Perm (f.flushed ++ f.replaced.map (·.1) ++ f.discarded ++ t.waiting) ∧
      (t.coalesced = f.replaced.length ∧ ∀ r ∈ f.replaced, [r.1, r.2].Sublist f.accepted) ∧
      (f.discarded ≠ [] → t.isClosed = true) ∧
      (t.calls = [] → t.keeper = none → t.waiting = [] ∧
        (t.isClosed = false → t.isOpen = false ∧ f.flushed.getLast? = f.accepted.getLast?)) ∧
      (t.calls ≠ [] ∨ t.keeper ≠ none → ∃ m : Move α, m.isCall = false ∧ t.can m = true) ∧
      ∀ moves, t.GoesOn moves → moves.length ≤ t.effort := by
  intro t f
  have h : Sound t f := .live window moves
  refine ⟨h.locked.flushing_le, (List.sublist_append_left _ _).trans h.told.order, h.told.fates,
    ⟨h.told.counted, h.told.later⟩, h.told.shut, ?_, h.locked.exists_can, fun _ => h.length_le_effort⟩
  intro hcalls hkeeper
  obtain ⟨hwaiting, hidle⟩ := h.waiting_eq_nil hcalls hkeeper
  refine ⟨hwaiting, fun hclosed => ⟨hidle hclosed, ?_⟩⟩
  have hlast := h.told.last hclosed
  rwa [hwaiting, List.append_nil] at hlast

/-- A value that comes while another is flushed waits, and gives way to the
next; that one is flushed when the window ends. -/
example :
    let moves : List (Move Nat) := [.schedule 0 1, .join 0, .enter (.call 0), .schedule 1 2, .schedule 2 3,
      .finish (.call 0), .rest 0, .rise 100, .enter .keeper]
    (live 100 moves).2.flushed = [1, 3] ∧ (live 100 moves).2.replaced = [(2, 3)] ∧
      (live 100 moves).1.flushing = [.keeper] := by decide

end ReplyStream.Throttle
