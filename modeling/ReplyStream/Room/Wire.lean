/-
The way to the backend. A `Wire` knows how long each send takes and which
calls are planned to go wrong, and keeps a record of every send.

A send takes time, so it comes in two parts: `begin`, which says how long it
takes or that it never reaches the backend, and `deliver`, which ends it.
-/
import ReplyStream.Room.Backend

namespace ReplyStream

/-- What is planned for a send. -/
inductive Outcome where
  | normal
  /-- The backend fails the next send. -/
  | failing
  /-- The send is lost before it reaches the backend. -/
  | lost (fault : TransportFault)
deriving DecidableEq, Repr

/-- What was to be sent, how the send ended, and when. -/
structure SendRecord where
  time : Nat
  post : Post
  result : Except TransportFault Sent

/-- The event that was to be replaced. -/
def SendRecord.target (r : SendRecord) : Option String := r.post.target

structure Wire where
  backend : Backend
  /-- How long the send with a given number takes, in milliseconds. -/
  latency : Nat → Nat
  /-- How many sends have begun. -/
  begun : Nat
  /-- The plan for the coming sends; beyond it they go as they go. -/
  outcomes : List Outcome
  /-- The fault of the next fetch. -/
  fetchFault : Option TransportFault
  /-- The faults of downloads, by URL. -/
  downloadFaults : Table TransportFault
  records : List SendRecord

namespace Wire

def new (backend : Backend) (latency : Nat → Nat) : Wire := ⟨backend, latency, 0, [], none, [], []⟩

/-- Begins a send at time `now`: how long it takes, unless it is lost. -/
def begin (w : Wire) (now : Nat) (p : Post) : Wire × Except TransportFault Nat :=
  let sending := { w with begun := w.begun + 1, outcomes := w.outcomes.tail }
  match w.outcomes.head? with
  | some (.lost fault) =>
    ({ sending with records := w.records ++ [⟨now, p, .error fault⟩] }, .error fault)
  | some .failing => ({ sending with backend := w.backend.failNext 1 }, .ok (w.latency w.begun))
  | _ => (sending, .ok (w.latency w.begun))

/-- Ends a send at time `now`: the id of the new event. -/
def deliver (w : Wire) (now : Nat) (room : String) (p : Post) : Wire × Except TransportFault String :=
  let (backend, result) := w.backend.send room p
  ({ w with backend, records := w.records ++ [⟨now, p, result⟩] }, result.map (·.eventId))

/-- A send from beginning to end: the wire at the time when it ends. -/
def send (room : String) (s : Wire × Nat) (p : Post) : (Wire × Nat) × Except TransportFault String :=
  let (w, now) := s
  match w.begin now p with
  | (w, .error fault) => ((w, now), .error fault)
  | (w, .ok duration) =>
    let (w, result) := w.deliver (now + duration) room p
    ((w, now + duration), result)

/-- The events of a room behind the event `since`. -/
def fetch (w : Wire) (room : String) (since : Option String) :
    Wire × Except TransportFault (List Event) :=
  match w.fetchFault with
  | some fault => ({ w with fetchFault := none }, .error fault)
  | none => (w, .ok (w.backend.fetch room since))

def download (w : Wire) (url : String) : Wire × Except TransportFault String :=
  match w.downloadFaults.get? url with
  | some fault => (w, .error fault)
  | none =>
    let (backend, result) := w.backend.download url
    ({ w with backend }, result)

end Wire

end ReplyStream
