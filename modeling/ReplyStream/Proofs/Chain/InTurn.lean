/-
Many may want something of a publisher at the same time, and ask while a send
is on its way. What is then seen of the office, all sends and all answers in
their order, is what is seen when the requests are served one after the other
in the order in which they were asked (`served_in_turn`): the sends of a
request all come before its answer and behind the answer to the request before
it, so those of two requests never mix.

The requests may be asked and the moves made at any times, and sends may take
any time and fail. Between two requests the office stands where serving in
turn stands behind those that are done; in the midst of one, it is on its way
to what that comes to (`Office.Stands`).
-/
import ReplyStream.Proofs.Chain.Service

namespace ReplyStream

namespace Office

variable {κ : Type}

/-! ## What is seen of an office -/

/-- A send for one of those in line, or an answer. -/
inductive Note (κ : Type) where
  | sent (c : κ × Request) (post : Post) (result : Except TransportFault Sent)
  | answered (who : κ) (answer : Request.Answer)

/-- What was sent for `c` between two states of the wire. -/
def sends (c : κ × Request) (w w' : Wire) : List (Note κ) :=
  (w'.records.drop w.records.length).map fun r => .sent c r.post r.result

/-- What is seen of a move. -/
def notes (o : Office κ) (w : Wire) (m : Moved κ) : List (Note κ) :=
  (o.line.head?.map (sends · w m.2.1)).getD [] ++ m.2.2.toList.map fun a => .answered a.1 a.2

/-- What happens at an office. -/
inductive Step (κ : Type) where
  | ask (who : κ) (request : Request)
  | move (now : Nat)

/-- The requests, in the order in which they were asked. -/
def asked : List (Step κ) → List (κ × Request)
  | [] => []
  | .ask who request :: steps => (who, request) :: asked steps
  | .move _ :: steps => asked steps

/-- The office and the wire behind some steps, and what is seen of them. -/
def live : Office κ → Wire → List (Step κ) → Office κ × Wire × List (Note κ)
  | o, w, [] => (o, w, [])
  | o, w, .ask who request :: steps => live (o.ask who request) w steps
  | o, w, .move now :: steps =>
    let m := o.move w now
    let (o', w', more) := live m.1 m.2.1 steps
    (o', w', o.notes w m ++ more)

/-- Serves one request after the other: the wire, the publisher, and what is seen. -/
def inTurn : Wire → Publisher → List (κ × Request) → Wire × Publisher × List (Note κ)
  | w, p, [] => (w, p, [])
  | w, p, c :: line =>
    let (w₁, p₁, answer) := p.respond (Wire.post p.room) w c.2
    let (w₂, p₂, more) := inTurn w₁ p₁ line
    (w₂, p₂, sends c w w₁ ++ .answered c.1 answer :: more)

/-- The opening event has been delivered to one who asked for it. -/
def Note.opens : Note κ → Bool
  | .sent (_, .opening) _ (.ok _) => true
  | _ => false

/-! ## The record of the wire -/

variable {o : Office κ} {w w' w₁ w₂ : Wire} {p : Publisher}

theorem sends_append {c : κ × Request} {more more' : List SendRecord} (h : w₁.records = w.records ++ more)
    (h' : w₂.records = w₁.records ++ more') : sends c w w₁ ++ sends c w₁ w₂ = sends c w w₂ := by
  rw [h] at h'
  simp [sends, h, h']

@[simp] theorem sends_self (c : κ × Request) (w : Wire) : sends c w w = [] := by
  simp [sends]

@[simp] theorem sends_timeless_left (c : κ × Request) (w w' : Wire) : sends c w.timeless w' = sends c w w' := by
  simp [sends, Wire.timeless]

@[simp] theorem sends_timeless_right (c : κ × Request) (w w' : Wire) : sends c w w'.timeless = sends c w w' := by
  simp [sends, Wire.timeless, ← List.map_drop]

theorem timeless_records_append {more : List SendRecord} (h : w'.records = w.records ++ more) :
    w'.timeless.records = w.timeless.records ++ more.map fun r => { r with time := 0 } := by
  simp [Wire.timeless, h]

theorem dispatch_records (o : Office κ) (w : Wire) (now : Nat) (e : Errand) :
    ∃ more, (dispatch o w now e).2.1.records = w.records ++ more := by
  simp only [dispatch]
  split
  next w' duration hbegin => exact ⟨[], by rw [List.append_nil]; exact Wire.begin_ok_records hbegin⟩
  next w' fault hbegin => exact ⟨_, Wire.begin_error_records hbegin⟩

theorem start_records (o : Office κ) (w : Wire) (now : Nat) (q : Request) :
    ∃ more, (start o w now q).2.1.records = w.records ++ more := by
  cases q with
  | opening =>
    simp only [start]
    split
    · exact ⟨[], (List.append_nil _).symm⟩
    · exact dispatch_records ..
  | publish reply => exact dispatch_records ..
  | report text => exact dispatch_records ..
  | links => exact ⟨[], (List.append_nil _).symm⟩

theorem move_records (o : Office κ) (w : Wire) (now : Nat) :
    ∃ more, (o.move w now).2.1.records = w.records ++ more := by
  unfold move
  split
  next e arrival hsending =>
    have hdeliver : ∃ more, (w.deliver now o.publisher.room (o.publisher.post e)).1.records = w.records ++ more :=
      ⟨_, rfl⟩
    obtain ⟨more, hmore⟩ := hdeliver
    simp only
    split
    next q f hheard =>
      obtain ⟨more', hmore'⟩ := dispatch_records { o with publisher := q }
        (w.deliver now o.publisher.room (o.publisher.post e)).1 now f
      exact ⟨more ++ more', by rw [hmore', hmore, List.append_assoc]⟩
    next => exact ⟨more, hmore⟩
  next =>
    split
    · exact ⟨[], (List.append_nil _).symm⟩
    · exact start_records ..

/-! ## Where an office stands -/

theorem inTurn_append (w : Wire) (p : Publisher) (l m : List (κ × Request)) :
    inTurn w p (l ++ m) =
      let (w₁, p₁, seen) := inTurn w p l
      let (w₂, p₂, more) := inTurn w₁ p₁ m
      (w₂, p₂, seen ++ more) := by
  induction l generalizing w p with
  | nil => rfl
  | cons c l ih => simp [inTurn, ih]

/-- Serving in turn from `w` and `p` has come to `wd` and `pd` behind `done`,
and the office is on its way to what the next in line comes to. -/
structure Serving (w : Wire) (p : Publisher) (asked : List (κ × Request)) (seen : List (Note κ)) (o : Office κ)
    (w' : Wire) (done : List (κ × Request)) (c : κ × Request) (wd : Wire) (pd : Publisher) : Prop where
  asked_eq : asked = done ++ o.line
  first : o.line.head? = some c
  outstanding : o.outstanding w' = some (pd.respond (Wire.post pd.room) wd c.2)
  records : ∃ more, w'.timeless.records = wd.records ++ more
  done_eq : ∃ before, inTurn w p done = (wd, pd, before) ∧ seen = before ++ sends c wd w'

/-- The office is between two requests, or serves one. -/
def Stands (w : Wire) (p : Publisher) (asked : List (κ × Request)) (seen : List (Note κ)) (o : Office κ)
    (w' : Wire) : Prop :=
  (o.sending = none ∧ ∃ done, asked = done ++ o.line ∧ inTurn w p done = (w'.timeless, o.publisher, seen)) ∨
    o.sending.isSome = true ∧ ∃ done c wd pd, Serving w p asked seen o w' done c wd pd

theorem stands_new (w : Wire) (p : Publisher) : Stands w.timeless p [] [] (new p : Office κ) w :=
  .inl ⟨rfl, [], rfl, rfl⟩

section Steps

variable {requests : List (κ × Request)} {seen : List (Note κ)}

theorem Stands.ask (h : Stands w p requests seen o w') (who : κ) (q : Request) :
    Stands w p (requests ++ [(who, q)]) seen (o.ask who q) w' := by
  rcases h with ⟨hsending, done, hasked, hdone⟩ | ⟨hsending, done, c, wd, pd, hserving⟩
  · exact .inl ⟨hsending, done, by rw [hasked, List.append_assoc]; rfl, hdone⟩
  · refine .inr ⟨hsending, done, c, wd, pd, ?_⟩
    exact {
      asked_eq := by
        rw [hserving.asked_eq, List.append_assoc]
        rfl
      first := by
        have hfirst := hserving.first
        rw [List.head?_eq_some_iff] at hfirst ⊢
        obtain ⟨rest, hrest⟩ := hfirst
        exact ⟨rest ++ [(who, q)], by simp [Office.ask, hrest]⟩
      outstanding := by
        obtain ⟨sending, hsome⟩ := Option.isSome_iff_exists.1 hsending
        have hpromise := hserving.outstanding
        simp only [Office.outstanding, Office.ask, hsome] at hpromise ⊢
        exact hpromise
      records := hserving.records
      done_eq := hserving.done_eq }

/-- One who serves moves on, or answers and is done with the first in line. -/
theorem Serving.move {done : List (κ × Request)} {c : κ × Request} {wd : Wire} {pd : Publisher}
    (h : Serving w p requests seen o w' done c wd pd) (now : Nat) :
    Stands w p requests (seen ++ o.notes w' (o.move w' now)) (o.move w' now).1 (o.move w' now).2.1 := by
  obtain ⟨rest, hline⟩ := List.head?_eq_some_iff.1 h.first
  obtain ⟨before, hdone, hseen⟩ := h.done_eq
  obtain ⟨more, hmore⟩ := h.records
  obtain ⟨more', hmore'⟩ := move_records o w' now
  have hsends : sends c wd w' ++ sends c w' (o.move w' now).2.1 = sends c wd (o.move w' now).2.1 := by
    have := sends_append (c := c) hmore (timeless_records_append hmore')
    simpa using this
  cases hrespond : pd.respond (Wire.post pd.room) wd c.2 with
  | mk w₁ served =>
    obtain ⟨p₁, answer⟩ := served
    have hkept := move_kept now (h.outstanding.trans (congrArg some hrespond))
    rcases hkept with ⟨o', w'', hmove, hline', hsending, hpromise⟩ | ⟨w'', hmove, hw⟩
    · right
      rw [hmove] at hmore' hsends ⊢
      refine ⟨hsending, done, c, wd, pd, ?_⟩
      exact {
        asked_eq := by rw [h.asked_eq, hline']
        first := by rw [hline', h.first]
        outstanding := by rw [hpromise, hrespond]
        records := by
          rw [timeless_records_append hmore', hmore, List.append_assoc]
          exact ⟨_, rfl⟩
        done_eq := by
          refine ⟨before, hdone, ?_⟩
          rw [← hsends, hseen]
          simp [notes, hline] }
    · left
      rw [hmove] at hsends ⊢
      refine ⟨rfl, done ++ [c], by simp [h.asked_eq, hline], ?_⟩
      rw [inTurn_append, hdone]
      simp only [inTurn, hrespond]
      subst hw
      rw [hseen]
      simp [notes, hline, ← hsends]

/-- **One step.** A move leads on from where the office stands. -/
theorem Stands.move (h : Stands w p requests seen o w') (now : Nat) :
    Stands w p requests (seen ++ o.notes w' (o.move w' now)) (o.move w' now).1 (o.move w' now).2.1 := by
  rcases h with ⟨hsending, done, hasked, hdone⟩ | ⟨-, done, c, wd, pd, hserving⟩
  · cases hline : o.line with
    | nil =>
      have hmove : o.move w' now = (o, w', none) := by simp [Office.move, hsending, hline]
      rw [hmove]
      exact .inl ⟨hsending, done, hasked, by simpa [notes, hline] using hdone⟩
    | cons c rest =>
      have hserving : Serving w p requests seen o w' done c w'.timeless o.publisher := {
        asked_eq := hasked
        first := by simp [hline]
        outstanding := by simp [Office.outstanding, hsending, hline]
        records := ⟨[], (List.append_nil _).symm⟩
        done_eq := ⟨seen, hdone, by simp⟩ }
      exact hserving.move now
  · exact hserving.move now

/-- **A run of steps.** -/
theorem Stands.live (h : Stands w p requests seen o w') (steps : List (Step κ)) :
    Stands w p (requests ++ asked steps) (seen ++ (o.live w' steps).2.2) (o.live w' steps).1
      (o.live w' steps).2.1 := by
  induction steps generalizing o w' requests seen with
  | nil => simpa [Office.live, asked] using h
  | cons step steps ih =>
    cases step with
    | ask who q => simpa [Office.live, asked] using ih (h.ask who q)
    | move now => simpa [Office.live, asked] using ih (h.move now)

theorem Stands.done (h : Stands w p requests seen o w') (hline : o.line = []) :
    inTurn w p requests = (w'.timeless, o.publisher, seen) := by
  rcases h with ⟨-, done, hasked, hdone⟩ | ⟨-, done, c, wd, pd, hserving⟩
  · rw [hline, List.append_nil] at hasked
    rwa [hasked]
  · have hfirst := hserving.first
    rw [hline] at hfirst
    cases hfirst

end Steps

/-! ## All are served -/

@[simp] theorem asked_moves (times : List Nat) : asked (times.map (.move : Nat → Step κ)) = [] := by
  induction times with
  | nil => rfl
  | cons time times ih => simp [asked, ih]

theorem idle_of_due {now : Nat} (h : o.due now = none) : o.sending = none ∧ o.line = [] := by
  unfold due at h
  split at h
  · cases h
  next hsending =>
    split at h
    next hempty => exact ⟨hsending, List.isEmpty_iff.1 hempty⟩
    next => cases h

theorem move_effort_le (o : Office κ) (w : Wire) (now : Nat) : (o.move w now).1.effort ≤ o.effort - 1 := by
  cases hdue : o.due now with
  | none =>
    obtain ⟨hsending, hline⟩ := idle_of_due hdue
    have hmove : o.move w now = (o, w, none) := by simp [move, hsending, hline]
    have heffort : o.effort = 0 := by simp [effort, hsending, hline]
    rw [hmove]
    exact Nat.le_of_eq (by rw [heffort])
  | some time =>
    have hsome : (o.due now).isSome = true := by rw [hdue]; rfl
    have hless := move_effort_lt hsome w now
    omega

theorem live_moves (times : List Nat) (h : o.effort ≤ times.length) :
    (o.live w (times.map .move)).1.line = [] := by
  induction times generalizing o w with
  | nil =>
    cases hdue : o.due 0 with
    | none => exact (idle_of_due hdue).2
    | some time =>
      have hsome : (o.due 0).isSome = true := by rw [hdue]; rfl
      have hless := move_effort_lt hsome w time
      rw [List.length_nil] at h
      omega
  | cons time times ih =>
    have hless := move_effort_le o w time
    rw [List.length_cons] at h
    exact ih (by omega)

/-! ## Opening -/

/-- A request opens a chain that is not open, at most once. -/
theorem opens_respond (c : κ × Request) {answer : Request.Answer} {p₁ : Publisher}
    (h : p.respond (Wire.post p.room) w c.2 = (w₁, p₁, answer)) :
    (sends c w w₁).countP Note.opens + (if p₁.firstId = none then 1 else 0) ≤ if p.firstId = none then 1 else 0 := by
  obtain ⟨who, q⟩ := c
  have halike := (Publisher.respond_appends (Wire.post_logs p.room) h).1
  have hbegins : (if p₁.firstId = none then 1 else 0) ≤ if p.firstId = none then 1 else 0 := by
    by_cases hfirst : p.firstId = none
    · rw [if_pos hfirst]
      split <;> omega
    · obtain ⟨id, hid⟩ := Option.ne_none_iff_exists'.1 hfirst
      simp [hid, halike.begins id hid]
  have hother : q ≠ .opening → (sends (who, q) w w₁).countP Note.opens = 0 := by
    intro hq
    rw [List.countP_eq_zero]
    intro n hn
    obtain ⟨r, -, rfl⟩ := List.mem_map.1 hn
    cases q <;> simp [Note.opens] at hq ⊢
  cases q with
  | opening =>
    cases hfirst : p.firstId with
    | some id =>
      simp only [Publisher.respond, Publisher.openUp, hfirst] at h
      cases h
      simp [hfirst]
    | none =>
      simp only [Publisher.respond, Publisher.openUp, hfirst] at h
      obtain ⟨w', p', ended, hrun⟩ : ∃ w' p' ended, p.run (Wire.post p.room) w .opening = (w', p', ended) :=
        ⟨_, _, _, rfl⟩
      rw [hrun] at h
      cases h
      obtain ⟨w₂, result, hpost, ⟨_, _, hheard, -⟩ | ⟨rfl, hheard⟩⟩ := Publisher.run_cases hrun
      · cases result <;> cases hheard
      · obtain ⟨r, hrecords, -, hresult⟩ := Wire.post_records hpost
        have hsends : sends (who, .opening) w w₂ = [.sent (who, .opening) r.post r.result] := by
          rw [← sends_timeless_left, sends, hrecords, List.drop_left]
          rfl
        rw [hsends, List.countP_singleton]
        cases result with
        | error fault =>
          have hlost : Note.opens (.sent (who, .opening) r.post r.result) = false := by
            cases hr : r.result with
            | error _ => rfl
            | ok _ => rw [hr] at hresult; cases hresult
          rw [hlost]
          simpa [hfirst] using hbegins
        | ok id =>
          cases hheard
          rw [Publisher.firstId_opened]
          split <;> simp
  | publish reply =>
    rw [hother (by simp), Nat.zero_add]
    exact hbegins
  | report text =>
    rw [hother (by simp), Nat.zero_add]
    exact hbegins
  | links =>
    rw [hother (by simp), Nat.zero_add]
    exact hbegins

theorem opens_inTurn (w : Wire) (p : Publisher) (line : List (κ × Request)) :
    (inTurn w p line).2.2.countP Note.opens ≤ if p.firstId = none then 1 else 0 := by
  induction line generalizing w p with
  | nil => simp [inTurn]
  | cons c line ih =>
    cases hrespond : p.respond (Wire.post p.room) w c.2 with
    | mk w₁ served =>
      obtain ⟨p₁, answer⟩ := served
      have hseen : (inTurn w p (c :: line)).2.2 = sends c w w₁ ++ .answered c.1 answer :: (inTurn w₁ p₁ line).2.2 := by
        simp only [inTurn, hrespond]
      rw [hseen, List.countP_append, List.countP_cons_of_neg (by simp [Note.opens])]
      exact Nat.le_trans (Nat.add_le_add_left (ih w₁ p₁) _) (opens_respond c hrespond)

end Office

/-- **Requests are served in turn.** However requests, and moves of the
office, follow on each other, and whatever becomes of the sends: once nobody is
left in line, all that was sent and answered, the publisher and the wire are
what they are when the requests are served one after the other in the order in
which they were asked; before that, what was seen is the front of it. Enough
moves leave nobody in line, and among all sends there is at most one opening
event that was delivered. -/
theorem served_in_turn {κ : Type} (p : Publisher) (w : Wire) (steps : List (Office.Step κ)) :
    let run := (Office.new p).live w steps
    let turn := Office.inTurn w.timeless p (Office.asked steps)
    (run.1.line = [] → turn = (run.2.1.timeless, run.1.publisher, run.2.2)) ∧ run.2.2 <+: turn.2.2 ∧
      (∃ n, ∀ times : List Nat, n ≤ times.length → (run.1.live run.2.1 (times.map .move)).1.line = []) ∧
      turn.2.2.countP Office.Note.opens ≤ 1 := by
  intro run turn
  have hstands : Office.Stands w.timeless p (Office.asked steps) run.2.2 run.1 run.2.1 := by
    simpa using (Office.stands_new w p).live steps
  refine ⟨hstands.done, ?_, ⟨run.1.effort, fun times htimes => Office.live_moves times htimes⟩, ?_⟩
  · have hend := hstands.live ((List.replicate run.1.effort 0).map .move)
    have hline := Office.live_moves (o := run.1) (w := run.2.1) (List.replicate run.1.effort 0) (by simp)
    have hturn := hend.done hline
    rw [Office.asked_moves, List.append_nil] at hturn
    exact ⟨_, (congrArg (·.2.2) hturn).symm⟩
  · have hopens := Office.opens_inTurn w.timeless p (Office.asked steps)
    refine Nat.le_trans hopens ?_
    split <;> omega

end ReplyStream
