/-
An office serves the first in line as if it did so in one go. What serving
it comes to (`Office.outstanding`) stays the same through every move of the
office, up to the one that answers it and leaves it so (`Office.move_kept`);
every move brings the answer nearer (`Office.move_effort_lt`). Times are left
out: what is sent does not depend on when.
-/
import ReplyStream.Proofs.Chain.Run
import ReplyStream.Proofs.Chain.Split
import ReplyStream.Proofs.Room.Timeless

namespace ReplyStream

/-! ## Errands under way -/

namespace Publisher

variable {w w' : Wire} {p : Publisher} {e : Errand} {now : Nat}

@[simp] theorem post_counted (p : Publisher) (post : Post) (e : Errand) : (p.counted post).post e = p.post e := by
  obtain ⟨tally, htally⟩ := counted_eq p post
  rw [htally]
  rfl

@[simp] theorem counted_room (p : Publisher) (post : Post) : (p.counted post).room = p.room := by
  obtain ⟨tally, htally⟩ := counted_eq p post
  rw [htally]

theorem heard_room (p : Publisher) (e : Errand) (result : Except TransportFault String) :
    (p.heard e result).1.room = p.room := by
  unfold heard opened
  split
  · rfl
  · split
    · split <;> rfl
    · rfl
    · rfl
    · rfl

theorem answer_of_heard_next {q : Publisher} {f : Errand} {result : Except TransportFault String}
    (h : p.heard e result = (q, .next f)) (ended : Except TransportFault String) : e.answer ended = f.answer ended := by
  unfold heard at h
  split at h
  · cases h
  · split at h <;> cases h
    rfl

/-- Carries an errand to its end whose next post is on its way. -/
def land (w : Wire) (p : Publisher) (e : Errand) : Wire × Publisher × Except TransportFault String :=
  let (w, result) := Wire.land p.room w (p.post e)
  match p.heard e result with
  | (p, .next e) => p.run (Wire.post p.room) w e
  | (p, .ended result) => (w, p, result)

theorem run_of_begin_ok {duration : Nat} (h : w.begin now (p.post e) = (w', .ok duration)) :
    p.run (Wire.post p.room) w.timeless e = (p.counted (p.post e)).land w'.timeless e := by
  rw [run, Wire.post_of_begin_ok p.room h]
  simp only [land, post_counted, counted_room]
  have hroom := heard_room (p.counted (p.post e)) e (Wire.land p.room w'.timeless (p.post e)).2
  split
  next q f hheard =>
    have hq : q.room = p.room := by
      rw [hheard] at hroom
      exact hroom.trans (counted_room ..)
    rw [hheard]
    simp only [hq]
  next q result hheard => rw [hheard]

theorem run_of_begin_error {fault : TransportFault} (h : w.begin now (p.post e) = (w', .error fault)) :
    p.run (Wire.post p.room) w.timeless e =
      (w'.timeless, ((p.counted (p.post e)).heard e (.error fault)).1, .error fault) := by
  rw [run, Wire.post_of_begin_error p.room h]
  rfl

theorem length_split_le (r : Reply) (ceiling : Nat) (rounds : Nat) (l : Link) :
    (Link.split r ceiling rounds l).1.length ≤ rounds := by
  induction rounds generalizing l with
  | zero => exact Nat.le_refl _
  | succ rounds ih =>
    simp only [Link.split]
    split
    · exact Nat.succ_le_succ (ih _)
    · exact Nat.zero_le _

/-- A reply has no more parts than characters. -/
theorem posts_publishing_lt (p : Publisher) (r : Reply) :
    (p.publishing r).2.posts < (Request.publish r).effort := by
  simp only [publishing, Errand.posts, Request.effort]
  generalize (if p.chain.isEmpty then { p with chain := [.first] } else p : Publisher) = q
  have hsplit := length_split_le r q.ceiling
    ((q.last.remainder r).reasoning.length + (q.last.remainder r).answer.length) q.last
  have hreasoning : (q.last.remainder r).reasoning.length ≤ r.reasoning.length := by
    rw [← String.length_toList]
    exact Text.length_dropBytes_le _ _
  have hanswer : (q.last.remainder r).answer.length ≤ r.answer.length := by
    rw [← String.length_toList]
    exact Text.length_dropBytes_le _ _
  omega

end Publisher

/-! ## The office -/

namespace Office

variable {κ : Type} {o : Office κ} {w w₁ : Wire} {now : Nat} {p₁ : Publisher} {a : Request.Answer}

/-- What serving the first in line comes to: the wire, the publisher and the
answer. -/
def outstanding (o : Office κ) (w : Wire) : Option (Wire × Publisher × Request.Answer) :=
  match o.sending, o.line with
  | some (e, _), _ =>
    let (w, p, result) := o.publisher.land w.timeless e
    some (w, p, e.answer result)
  | none, (_, q) :: _ => some (o.publisher.respond (Wire.post o.publisher.room) w.timeless q)
  | none, [] => none

/-- What a move leads to of which `outstanding` is the promise: it is kept
up, or it has come true and the line moves up. -/
def Kept (line : List (κ × Request)) (w₁ : Wire) (p₁ : Publisher) (a : Request.Answer) (m : Moved κ) : Prop :=
  (∃ o w, m = (o, w, none) ∧ o.line = line ∧ o.sending.isSome = true ∧ o.outstanding w = some (w₁, p₁, a)) ∨
  ∃ w, m = (⟨p₁, line.tail, none⟩, w, line.head?.map fun c => (c.1, a)) ∧ w.timeless = w₁

theorem answered_kept (o : Office κ) (w : Wire) (a : Request.Answer) :
    Kept o.line w.timeless o.publisher a (answered o w a) :=
  .inr ⟨w, rfl, rfl⟩

/-- Putting the next post of an errand on its way begins to carry it out. -/
theorem dispatch_kept {e : Errand} {result : Except TransportFault String}
    (h : o.publisher.run (Wire.post o.publisher.room) w.timeless e = (w₁, p₁, result)) :
    Kept o.line w₁ p₁ (e.answer result) (dispatch o w now e) := by
  simp only [dispatch]
  split
  next w' duration hbegin =>
    rw [Publisher.run_of_begin_ok hbegin] at h
    refine .inl ⟨_, _, rfl, rfl, rfl, ?_⟩
    simp only [outstanding, h]
  next w' fault hbegin =>
    rw [Publisher.run_of_begin_error hbegin] at h
    cases h
    exact .inr ⟨w', rfl, rfl⟩

theorem start_kept (now : Nat) {q : Request}
    (h : o.publisher.respond (Wire.post o.publisher.room) w.timeless q = (w₁, p₁, a)) :
    Kept o.line w₁ p₁ a (start o w now q) := by
  cases q with
  | opening =>
    cases hfirst : o.publisher.firstId with
    | some id =>
      simp only [Publisher.respond, Publisher.openUp, hfirst] at h
      simp only [start, hfirst]
      cases h
      exact answered_kept o w _
    | none =>
      cases hrun : o.publisher.run (Wire.post o.publisher.room) w.timeless .opening
      simp only [Publisher.respond, Publisher.openUp, hfirst, hrun] at h
      simp only [start, hfirst]
      cases h
      exact dispatch_kept hrun
  | publish reply =>
    cases hpublishing : o.publisher.publishing reply with
    | mk p e =>
      have hroom : p.room = o.publisher.room := by
        have := (Publisher.alike_publishing o.publisher reply).room
        rwa [hpublishing] at this
      have he : ∃ parts, e = .publish reply parts := by
        simp only [Publisher.publishing] at hpublishing
        cases hpublishing
        exact ⟨_, rfl⟩
      obtain ⟨parts, rfl⟩ := he
      simp only [Publisher.respond, Publisher.publish, hpublishing] at h
      simp only [start, hpublishing]
      cases hrun : p.run (Wire.post o.publisher.room) w.timeless (.publish reply parts)
      rw [hrun] at h
      cases h
      exact dispatch_kept (o := { o with publisher := p }) (by rw [hroom]; exact hrun)
  | report text =>
    cases hrun : o.publisher.run (Wire.post o.publisher.room) w.timeless (.report text)
    simp only [Publisher.respond, Publisher.report, hrun] at h
    cases h
    exact dispatch_kept hrun
  | links =>
    cases h
    exact answered_kept o w _

/-- **One move.** What serving the first in line comes to stays the same, or
the office answers and that is what has become of it. -/
theorem move_kept (now : Nat) (h : o.outstanding w = some (w₁, p₁, a)) : Kept o.line w₁ p₁ a (o.move w now) := by
  unfold move
  cases hsending : o.sending with
  | some sending =>
    obtain ⟨e, arrival⟩ := sending
    simp only [outstanding, hsending, Publisher.land] at h
    cases hdeliver : w.deliver now o.publisher.room (o.publisher.post e) with
    | mk w' result =>
      rw [Wire.land_of_deliver hdeliver] at h
      simp only [hdeliver]
      cases hheard : o.publisher.heard e result with
      | mk p progress =>
        cases progress with
        | next f =>
          simp only [hheard, Publisher.answer_of_heard_next hheard] at h ⊢
          cases hrun : p.run (Wire.post p.room) w'.timeless f
          rw [hrun] at h
          cases h
          exact dispatch_kept (o := { o with publisher := p }) hrun
        | ended result' =>
          simp only [hheard] at h ⊢
          cases h
          exact answered_kept { o with publisher := p₁ } w' _
  | none =>
    cases hline : o.line with
    | nil => simp only [outstanding, hsending, hline] at h; cases h
    | cons c line =>
      simp only [outstanding, hsending, hline] at h
      have := start_kept (o := o) now (Option.some.inj h)
      rw [hline] at this
      exact this

/-! ## Effort -/

@[simp] theorem lineEffort_nil : lineEffort ([] : List (κ × Request)) = 0 := rfl

@[simp] theorem lineEffort_cons (c : κ × Request) (line : List (κ × Request)) :
    lineEffort (c :: line) = c.2.effort + lineEffort line := rfl

theorem answered_effort (o : Office κ) (w : Wire) (a : Request.Answer) :
    (answered o w a).1.effort = lineEffort o.line.tail := rfl

theorem dispatch_effort_le (o : Office κ) (w : Wire) (now : Nat) (e : Errand) :
    (dispatch o w now e).1.effort ≤ e.posts + lineEffort o.line.tail := by
  simp only [dispatch]
  split
  · exact Nat.le_refl _
  · rw [answered_effort]
    exact Nat.le_add_left _ _

theorem start_effort_lt (o : Office κ) (w : Wire) (now : Nat) (q : Request) :
    (start o w now q).1.effort < q.effort + lineEffort o.line.tail := by
  have hdispatch := fun e => dispatch_effort_le o w now e
  cases q with
  | opening =>
    simp only [start]
    have := hdispatch .opening
    split
    · rw [answered_effort]
      simp only [Request.effort]
      omega
    · simp only [Request.effort, Errand.posts] at this ⊢
      omega
  | publish reply =>
    simp only [start]
    have hposts := Publisher.posts_publishing_lt o.publisher reply
    have := dispatch_effort_le { o with publisher := (o.publisher.publishing reply).1 } w now
      (o.publisher.publishing reply).2
    exact Nat.lt_of_le_of_lt this (Nat.add_lt_add_right hposts _)
  | report text =>
    have := hdispatch (.report text)
    simp only [start, Request.effort, Errand.posts] at this ⊢
    omega
  | links =>
    simp only [start, answered_effort, Request.effort]
    omega

/-- A move that is due brings the office nearer to its rest. -/
theorem move_effort_lt (h : (o.due now).isSome = true) (w : Wire) (time : Nat) :
    (o.move w time).1.effort < o.effort := by
  unfold move
  cases hsending : o.sending with
  | some sending =>
    obtain ⟨e, arrival⟩ := sending
    have heffort : o.effort = e.posts + lineEffort o.line.tail := by
      simp only [effort, hsending]
    rw [heffort]
    simp only
    split
    next p f hheard =>
      have hposts := Publisher.posts_lt_of_heard_next hheard
      have := dispatch_effort_le { o with publisher := p } (w.deliver time o.publisher.room (o.publisher.post e)).1
        time f
      exact Nat.lt_of_le_of_lt this (Nat.add_lt_add_right hposts _)
    next p result hheard =>
      rw [answered_effort]
      have : 0 < e.posts := by cases e <;> simp [Errand.posts]
      exact Nat.lt_add_of_pos_left this
  | none =>
    cases hline : o.line with
    | nil =>
      simp [due, hsending, hline] at h
    | cons c line =>
      have heffort : o.effort = c.2.effort + lineEffort o.line.tail := by
        simp only [effort, hsending, hline, lineEffort_cons, List.tail_cons]
      rw [heffort]
      exact start_effort_lt o w time c.2

theorem outstanding_isSome (o : Office κ) (w : Wire) (now : Nat) :
    (o.outstanding w).isSome = (o.due now).isSome := by
  unfold outstanding due
  cases hsending : o.sending with
  | some sending => rfl
  | none => cases hline : o.line <;> rfl

end Office

end ReplyStream
