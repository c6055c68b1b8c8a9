/-
What readers of a room see of the bot's sends. An edit shows in the event it
replaces, any other message in its own event (`Sent.place`), and an event
shows the message sent last for it (`Sent.shown`).

A way to send logs what it accepts when every accepted post is added to a
record and a refused one leaves it alone (`Logs`). Any way to send can be
made to (`recorded`), and the wire to the backend does, whatever is planned
to go wrong (`Wire.send_logs`). The backend numbers what it accepts, so no
two of its events have the same id (`Backend.Numbered`).
-/
import Mathlib.Data.List.Induction
import ReplyStream.Room.Wire

namespace ReplyStream

namespace Sent

/-- The event a sent message shows in. -/
def place (s : Sent) : String := s.replaces.getD s.eventId

/-- What an event shows: the message sent last for it. -/
def shown (sent : List Sent) (id : String) : Option Message :=
  (sent.reverse.find? (·.place == id)).map (·.message)

theorem shown_concat (sent : List Sent) (s : Sent) (id : String) :
    shown (sent ++ [s]) id = if s.place = id then some s.message else shown sent id := by
  by_cases h : s.place = id <;> simp [shown, h]

theorem shown_concat_self (sent : List Sent) (s : Sent) : shown (sent ++ [s]) s.place = some s.message := by
  rw [shown_concat, if_pos rfl]

theorem shown_concat_other {sent : List Sent} {s : Sent} {id : String} (h : s.place ≠ id) :
    shown (sent ++ [s]) id = shown sent id := by
  rw [shown_concat, if_neg h]

/-- Whether a message tells of a fault. -/
def isReport (s : Sent) : Bool := s.message.errorMessage.isSome

/-- All but the reports of faults. -/
def replies (sent : List Sent) : List Sent := sent.filter (!·.isReport)

theorem replies_append (l m : List Sent) : replies (l ++ m) = replies l ++ replies m :=
  List.filter_append ..

theorem replies_eq_self {sent : List Sent} (h : ∀ s ∈ sent, s.isReport = false) : replies sent = sent :=
  List.filter_eq_self.2 fun s hs => by rw [h s hs]; rfl

theorem replies_concat {sent : List Sent} {s : Sent} (h : s.isReport = false) :
    replies (sent ++ [s]) = replies sent ++ [s] := by
  simp [replies, h]

theorem replies_concat_report {sent : List Sent} {s : Sent} (h : s.isReport = true) :
    replies (sent ++ [s]) = replies sent := by
  simp [replies, h]

theorem mem_of_mem_replies {sent : List Sent} {s : Sent} (h : s ∈ replies sent) : s ∈ sent :=
  (List.mem_filter.1 h).1

/-- A report stands where the event showed a reply. -/
def Hidden (sent : List Sent) (id : String) : Prop :=
  ∃ m, shown sent id = some m ∧ m.errorMessage.isSome = true

theorem Hidden.exists_report {sent : List Sent} {id : String} (h : Hidden sent id) :
    ∃ s ∈ sent, s.isReport = true ∧ s.place = id := by
  obtain ⟨m, hm, hreport⟩ := h
  obtain ⟨s, hs, rfl⟩ := Option.map_eq_some_iff.1 hm
  refine ⟨s, List.mem_reverse.1 (List.mem_of_find?_eq_some hs), hreport, ?_⟩
  simpa using List.find?_some hs

/-- An event that no report hides shows what it would if there were none. -/
theorem hidden_or_shown (sent : List Sent) (id : String) :
    Hidden sent id ∨ shown (replies sent) id = shown sent id := by
  induction sent using List.reverseRecOn with
  | nil => exact .inr rfl
  | append_singleton sent s ih =>
    rw [Hidden, shown_concat]
    by_cases hplace : s.place = id
    · rw [if_pos hplace]
      cases hreport : s.isReport with
      | true => exact .inl ⟨s.message, rfl, hreport⟩
      | false => right; rw [replies_concat hreport, shown_concat, if_pos hplace]
    · rw [if_neg hplace]
      refine ih.imp_right fun h => ?_
      cases hreport : s.isReport with
      | true => rw [replies_concat_report hreport]; exact h
      | false => rw [replies_concat hreport, shown_concat_other hplace]; exact h

theorem not_hidden_concat {sent : List Sent} {s : Sent} (h : s.isReport = false) :
    ¬Hidden (sent ++ [s]) s.place := by
  rintro ⟨m, hm, hreport⟩
  rw [shown_concat_self] at hm
  cases hm
  rw [isReport, hreport] at h
  cases h

/-- Whether another event continues the message. -/
def isContinued (s : Sent) : Bool := s.message.hasContinuation == some true

/-- No report came behind a message that is continued. -/
def Timely (sent : List Sent) : Prop :=
  sent.Pairwise fun a b => a.isContinued = true → b.isReport = false

instance (sent : List Sent) : Decidable (Timely sent) := inferInstanceAs (Decidable (List.Pairwise ..))

theorem timely_concat {sent : List Sent} {s : Sent} :
    Timely (sent ++ [s]) ↔ Timely sent ∧ ∀ a ∈ sent, a.isContinued = true → s.isReport = false := by
  simp [Timely, List.pairwise_append]

theorem timely_of_uncut {sent : List Sent} (h : ∀ s ∈ sent, s.isContinued = false) : Timely sent := by
  refine List.pairwise_of_forall_mem_list ?_
  intro a ha b _ hcontinued
  rw [h a ha] at hcontinued
  cases hcontinued

/-- No two new events have the same id. -/
def DistinctIds (sent : List Sent) : Prop :=
  ((sent.filter (·.replaces.isNone)).map (·.eventId)).Nodup

theorem DistinctIds.of_append {l m : List Sent} (h : DistinctIds (l ++ m)) : DistinctIds l := by
  simp only [DistinctIds, List.filter_append, List.map_append] at h
  exact (List.nodup_append.1 h).1

theorem DistinctIds.fresh {l : List Sent} {s : Sent} (h : DistinctIds (l ++ [s])) (hs : s.replaces = none) :
    ∀ t ∈ l, t.replaces = none → t.eventId ≠ s.eventId := by
  intro t ht hnew heq
  simp only [DistinctIds, List.filter_append, List.map_append] at h
  refine (List.nodup_append.1 h).2.2 t.eventId ?_ s.eventId ?_ heq
  · exact List.mem_map_of_mem (List.mem_filter.2 ⟨ht, by rw [hnew]; rfl⟩)
  · exact List.mem_map_of_mem (List.mem_filter.2 ⟨List.mem_singleton_self s, by rw [hs]; rfl⟩)

end Sent

/-! ## Records of what was accepted -/

section Record

variable {σ : Type}

/-- An accepted post is added to the record, a refused one leaves no trace. -/
structure Logs (room : String) (send : σ → Post → σ × Except TransportFault String) (sent : σ → List Sent) :
    Prop where
  accepted : ∀ {s s' : σ} {p : Post} {id : String}, send s p = (s', .ok id) →
    sent s' = sent s ++ [⟨id, room, p.addressed, p.target⟩]
  refused : ∀ {s s' : σ} {p : Post} {fault : TransportFault}, send s p = (s', .error fault) → sent s' = sent s

/-- The same way to send, with a record of what it has accepted. -/
def recorded (room : String) (send : σ → Post → σ × Except TransportFault String) (s : σ × List Sent)
    (p : Post) : (σ × List Sent) × Except TransportFault String :=
  match send s.1 p with
  | (s', .ok id) => ((s', s.2 ++ [⟨id, room, p.addressed, p.target⟩]), .ok id)
  | (s', .error fault) => ((s', s.2), .error fault)

theorem recorded_logs (room : String) (send : σ → Post → σ × Except TransportFault String) :
    Logs room (recorded room send) Prod.snd where
  accepted h := by
    simp only [recorded] at h
    split at h <;> cases h
    rfl
  refused h := by
    simp only [recorded] at h
    split at h <;> cases h
    rfl

end Record

/-! ## The backend -/

namespace Backend

theorem sentId_injective {m n : Nat} (h : sentId m = sentId n) : m = n := by
  have h' := congrArg String.toList h
  simp only [sentId, String.toList_append, List.append_cancel_left_eq, Nat.toString_eq_repr,
    Nat.toList_repr] at h'
  have h'' := congrArg (fun digits => Nat.ofDigitChars 10 digits 0) h'
  simpa only [Nat.ofDigitChars_ten_toDigits] using h''

/-- The post that is sent next, as the record keeps it. -/
def nextSent (b : Backend) (room : String) (p : Post) : Sent :=
  ⟨sentId (b.sent.length + 1), room, p.addressed, p.target⟩

/-- The event a post becomes when it is sent next. -/
def nextEvent (b : Backend) (room : String) (content : Content) : Event :=
  ⟨sentId (b.sent.length + 1), room, b.sender, .message, b.clock + 1, content, none⟩

/-- The backend behind a post that it accepts. -/
def enter (b : Backend) (room : String) (p : Post) (content : Content) : Backend :=
  { b with
    clock := b.clock + 1
    log := b.log ++ [b.nextEvent room content]
    sent := b.sent ++ [b.nextSent room p] }

/-- What a send does: a failed one changes nothing but how many are to fail,
any other enters the post. -/
theorem send_cases {b b' : Backend} {room : String} {p : Post} {result : Except TransportFault Sent}
    (h : b.send room p = (b', result)) :
    (∃ fault n, result = .error fault ∧ b' = b.failNext n) ∨
    ∃ content, p.addressed.content? = some content ∧ b.failing = 0 ∧ result = .ok (b.nextSent room p) ∧
      b' = b.enter room p content := by
  unfold send at h
  split at h
  · cases h; exact .inl ⟨_, _, rfl, rfl⟩
  next hfailing =>
    split at h
    · cases h; exact .inl ⟨_, b.failing, rfl, rfl⟩
    next content hcontent =>
      cases h
      exact .inr ⟨content, hcontent, by omega, rfl, rfl⟩

/-- The events sent since there were `n` are numbered on from there. -/
def Numbered (n : Nat) (b : Backend) : Prop :=
  ∃ more : List Sent, b.sent = b.sent.take n ++ more ∧ n ≤ b.sent.length ∧
    more.map (·.eventId) = (List.range' (n + 1) more.length).map sentId

theorem numbered_self (b : Backend) : b.Numbered b.sent.length :=
  ⟨[], by simp⟩

theorem Numbered.failNext {n : Nat} {b : Backend} (h : b.Numbered n) (count : Nat) :
    (b.failNext count).Numbered n := h

theorem Numbered.enter {n : Nat} {b : Backend} (h : b.Numbered n) (room : String) (p : Post) (content : Content) :
    (b.enter room p content).Numbered n := by
  obtain ⟨more, hmore, hle, hids⟩ := h
  have hlen : b.sent.length = n + more.length := by
    have := congrArg List.length hmore
    simpa only [List.length_append, List.length_take, Nat.min_eq_left hle] using this
  refine ⟨more ++ [b.nextSent room p], ?_, ?_, ?_⟩
  · simp only [Backend.enter]
    rw [List.take_append_of_le_length hle, ← List.append_assoc, ← hmore]
  · simp only [Backend.enter, List.length_append]
    omega
  · rw [List.map_append, hids, List.length_append, List.length_singleton, List.range'_concat, List.map_append]
    simp only [nextSent, List.map_cons, List.map_nil, Nat.one_mul, hlen, Nat.add_right_comm]

theorem Numbered.distinctIds {old more : List Sent} {b : Backend} (h : b.Numbered old.length)
    (hsent : b.sent = old ++ more) : Sent.DistinctIds more := by
  obtain ⟨more', hmore, -, hids⟩ := h
  have : more' = more := by
    rw [hsent, List.take_left] at hmore
    exact (List.append_cancel_left hmore).symm
  subst this
  have hnodup : (more'.map (·.eventId)).Nodup := by
    rw [hids]
    exact List.Pairwise.map _ (fun a b hne heq => hne (sentId_injective heq)) List.nodup_range'
  exact hnodup.sublist (List.filter_sublist.map _)

end Backend

namespace Wire

/-- Beginning a send changes the backend at most in that the next send fails. -/
theorem begin_backend (w : Wire) (now : Nat) (p : Post) :
    (w.begin now p).1.backend = w.backend ∨ (w.begin now p).1.backend = w.backend.failNext 1 := by
  unfold begin
  split
  · exact .inl rfl
  · exact .inr rfl
  · exact .inl rfl

/-- What a send over the wire does to the backend: a failed one changes
nothing but how many are to fail, any other enters the post. -/
theorem send_cases {w w' : Wire} {now now' : Nat} {room : String} {p : Post}
    {result : Except TransportFault String} (h : send room (w, now) p = ((w', now'), result)) :
    (∃ fault n, result = .error fault ∧ w'.backend = w.backend.failNext n) ∨
    ∃ content, p.addressed.content? = some content ∧ w.backend.failing = 0 ∧
      result = .ok (w.backend.nextSent room p).eventId ∧ w'.backend = w.backend.enter room p content := by
  have hbegin := begin_backend w now p
  simp only [send] at h
  split at h
  next v fault hv =>
    cases h
    rw [hv] at hbegin
    rcases hbegin with hb | hb
    · exact .inl ⟨fault, w.backend.failing, rfl, hb⟩
    · exact .inl ⟨fault, 1, rfl, hb⟩
  next v duration hv =>
    rw [hv] at hbegin
    cases hsend : v.backend.send room p with
    | mk b sent =>
      simp only [deliver, hsend] at h
      cases h
      rcases Backend.send_cases hsend with ⟨fault, m, rfl, rfl⟩ | ⟨content, hc, hf, rfl, rfl⟩
      · refine .inl ⟨fault, m, rfl, ?_⟩
        rcases hbegin with hv' | hv'
        · rw [hv']
        · rw [hv']
          rfl
      · rcases hbegin with hv' | hv'
        · rw [hv'] at hf ⊢
          exact .inr ⟨content, hc, hf, rfl, rfl⟩
        · rw [hv'] at hf
          cases hf

theorem send_logs (room : String) : Logs room (send room) (·.1.backend.sent) where
  accepted {s s' p id} h := by
    rcases send_cases h with ⟨_, _, he, -⟩ | ⟨_, -, -, hid, hb⟩
    · cases he
    · cases hid
      rw [hb]
      rfl
  refused {s s' p fault} h := by
    rcases send_cases h with ⟨_, _, -, hb⟩ | ⟨_, -, -, hid, -⟩
    · rw [hb]
      rfl
    · cases hid

end Wire

end ReplyStream
