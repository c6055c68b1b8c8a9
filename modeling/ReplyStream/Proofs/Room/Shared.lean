/-
A room that others write to as well. What the others write comes before,
between and behind the bot's sends, and any of these may fail
(`SharedRoom.send`).

The log of such a room is shuffled from the bot's events and those of the
others, in the order of each, and every event of the bot is newer than those
before it (`SharedRoom.Keeps`). A send keeps this, and so does what the
others write.
-/
import ReplyStream.Proofs.Room.Shown
import ReplyStream.Proofs.Timeline.Versions

namespace ReplyStream

structure SharedRoom where
  wire : Wire
  now : Nat
  /-- What the others have written. -/
  others : List Event
  /-- What they write before each of the coming sends. -/
  coming : List (List Event)

namespace SharedRoom

/-- A room where all was written by others so far. -/
def ofWire (wire : Wire) (coming : List (List Event)) : SharedRoom := ⟨wire, 0, wire.backend.log, coming⟩

/-- The others write events. -/
def hear (r : SharedRoom) (events : List Event) : SharedRoom :=
  { r with wire.backend := events.foldl Backend.push r.wire.backend, others := r.others ++ events }

/-- A send, behind what the others write before it. -/
def send (room : String) (r : SharedRoom) (p : Post) : SharedRoom × Except TransportFault String :=
  let r := r.hear (r.coming.headD [])
  let ((wire, now), result) := Wire.send room (r.wire, r.now) p
  ({ r with wire, now, coming := r.coming.tail }, result)

/-- The events of a room. -/
def timeline (r : SharedRoom) (room : String) : List Event := r.wire.backend.fetch room none

/-- What the bot has sent. -/
def sent (r : SharedRoom) : List Sent := r.wire.backend.sent

/-- The event a sent message has become. -/
structure Becomes (room : String) (x : Sent) (e : Event) : Prop where
  id : e.id = x.eventId
  room : e.room = room
  kind : e.kind = .message
  unsigned : e.unsigned = none
  content : x.message.content? = some e.content

/-- The bot's events in the log of the room: one for each message sent since
`old`, each newer than those before it, shuffled among those of the others. -/
structure Keeps (room : String) (old : List Sent) (r : SharedRoom) (ours : List Event) : Prop where
  becomes : ∃ new, r.sent = old ++ new ∧ List.Forall₂ (Becomes room) new ours
  shuffled : Shuffle ours r.others r.wire.backend.log
  newer : ours.Pairwise (·.timestamp < ·.timestamp)
  past : ∀ e ∈ ours, e.timestamp ≤ r.wire.backend.clock
  numbered : r.wire.backend.Numbered old.length

theorem foldl_push (events : List Event) (b : Backend) :
    (events.foldl Backend.push b).log = b.log ++ events ∧ (events.foldl Backend.push b).sent = b.sent ∧
      b.clock ≤ (events.foldl Backend.push b).clock := by
  induction events generalizing b with
  | nil => exact ⟨(List.append_nil _).symm, rfl, Nat.le_refl _⟩
  | cons e events ih =>
    obtain ⟨hlog, hsent, hclock⟩ := ih (b.push e)
    refine ⟨?_, hsent, Nat.le_trans (Nat.le_max_left _ _) hclock⟩
    rw [List.foldl_cons, hlog, Backend.push, List.append_assoc]
    rfl

variable {room : String} {old : List Sent} {r r' : SharedRoom} {ours : List Event}

theorem keeps_ofWire (room : String) (wire : Wire) (coming : List (List Event)) :
    Keeps room wire.backend.sent (ofWire wire coming) [] where
  becomes := ⟨[], (List.append_nil _).symm, .nil⟩
  shuffled := Shuffle.of_nil_left _
  newer := .nil
  past := by simp
  numbered := Backend.numbered_self _

theorem Keeps.hear (h : Keeps room old r ours) (events : List Event) : Keeps room old (r.hear events) ours := by
  obtain ⟨hlog, hsent, hclock⟩ := foldl_push events r.wire.backend
  exact {
    becomes := by
      obtain ⟨new, hnew, hbecomes⟩ := h.becomes
      exact ⟨new, hsent.trans hnew, hbecomes⟩
    shuffled := by
      have hshuffled := h.shuffled.append_second events
      rw [← hlog] at hshuffled
      exact hshuffled
    newer := h.newer
    past := fun e he => Nat.le_trans (h.past e he) hclock
    numbered := by
      obtain ⟨more, hmore, hle, hids⟩ := h.numbered
      rw [← hsent] at hmore hle
      exact ⟨more, hmore, hle, hids⟩ }

theorem Keeps.send (h : Keeps room old r ours) {p : Post} {result : Except TransportFault String}
    (hsend : r.send room p = (r', result)) : ∃ ours', Keeps room old r' ours' := by
  have hheard := h.hear (r.coming.headD [])
  simp only [SharedRoom.send] at hsend
  generalize r.hear (r.coming.headD []) = q at hheard hsend
  cases hwire : Wire.send room (q.wire, q.now) p with
  | mk state answer =>
    obtain ⟨wire, now⟩ := state
    rw [hwire] at hsend
    cases hsend
    obtain ⟨new, hnew, hbecomes⟩ := hheard.becomes
    rcases Wire.send_cases hwire with ⟨fault, n, -, hbackend⟩ | ⟨content, hcontent, -, -, hbackend⟩
    · refine ⟨ours, ⟨⟨new, ?_, hbecomes⟩, ?_, hheard.newer, ?_, ?_⟩⟩
      · have hsent : wire.backend.sent = q.wire.backend.sent := by rw [hbackend]; rfl
        exact hsent.trans hnew
      · simp only [hbackend]
        exact hheard.shuffled
      · simp only [hbackend]
        exact hheard.past
      · simp only [hbackend]
        exact hheard.numbered.failNext n
    · have hlater : ∀ e ∈ ours, e.timestamp < q.wire.backend.clock + 1 :=
        fun e he => Nat.lt_succ_of_le (hheard.past e he)
      have hevent : Becomes room (q.wire.backend.nextSent room p) (q.wire.backend.nextEvent room content) :=
        ⟨rfl, rfl, rfl, rfl, hcontent⟩
      refine ⟨ours ++ [q.wire.backend.nextEvent room content],
        ⟨⟨new ++ [q.wire.backend.nextSent room p], ?_, ?_⟩, ?_, ?_, ?_, ?_⟩⟩
      · rw [← List.append_assoc, ← hnew]
        exact congrArg Backend.sent hbackend
      · exact List.rel_append hbecomes (.cons hevent .nil)
      · simp only [hbackend]
        exact hheard.shuffled.append_first _
      · refine List.pairwise_append.2 ⟨hheard.newer, List.pairwise_singleton _ _, ?_⟩
        intro e he f hf
        obtain rfl := List.mem_singleton.1 hf
        exact hlater e he
      · intro e he
        simp only [hbackend]
        rcases List.mem_append.1 he with he | he
        · exact Nat.le_of_lt (hlater e he)
        · obtain rfl := List.mem_singleton.1 he
          exact Nat.le_refl _
      · simp only [hbackend]
        exact hheard.numbered.enter room p content

theorem exists_of_becomes {new : List Sent} (h : List.Forall₂ (Becomes room) new ours) {e : Event} (he : e ∈ ours) :
    ∃ x ∈ new, Becomes room x e :=
  exists_left_of_forall₂ h he

/-- What the bot sends is logged, whatever the others write. -/
theorem send_logs (room : String) : Logs room (SharedRoom.send room) sent where
  accepted {r r' p id} h := by
    simp only [SharedRoom.send] at h
    cases hwire : Wire.send room ((r.hear (r.coming.headD [])).wire, (r.hear (r.coming.headD [])).now) p with
    | mk state answer =>
      rw [hwire] at h
      cases h
      have hsent := (Wire.send_logs room).accepted hwire
      have hheard : (r.hear (r.coming.headD [])).wire.backend.sent = r.sent :=
        (foldl_push (r.coming.headD []) r.wire.backend).2.1
      rw [hheard] at hsent
      exact hsent
  refused {r r' p fault} h := by
    simp only [SharedRoom.send] at h
    cases hwire : Wire.send room ((r.hear (r.coming.headD [])).wire, (r.hear (r.coming.headD [])).now) p with
    | mk state answer =>
      rw [hwire] at h
      cases h
      have hsent := (Wire.send_logs room).refused hwire
      exact hsent.trans (foldl_push (r.coming.headD []) r.wire.backend).2.1

end SharedRoom

end ReplyStream
