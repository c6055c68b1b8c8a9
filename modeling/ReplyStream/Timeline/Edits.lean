/-
The versions of events. An edit is an event of its own, and the server may
add the newest one to the event it replaces; `candidates` lists all versions
a log holds and `survivors` keeps, for each event, the newest of them under
the id of the event itself.
-/
import ReplyStream.Event.Basic
import ReplyStream.Fault
import ReplyStream.Table

namespace ReplyStream

namespace Event

/-- The event and the newest replacement the server knows of, as far as they
take part in the conversation. -/
def versions (e : Event) : List Event :=
  ((e :: e.replacement.toList).filter (·.isCandidate)).map ({ · with unsigned := none })

/-- The event with its data decoded. -/
def decode (e : Event) : Except Fault Event :=
  match e.content.decodeData? with
  | some content => .ok { e with content }
  | none => .error (.malformedPayload e.id .notJson)

/-- The id of the event this is a version of. -/
def effectiveId (e : Event) : String := e.replaces.getD e.id

/-- The version under the id of its event. -/
def inPlace (e : Event) : Event :=
  { e with id := e.effectiveId, content.relatesTo := none }

end Event

namespace Timeline

/-- All versions in a log, decoded. -/
def candidates (log : List Event) : Except Fault (List Event) :=
  (log.flatMap Event.versions).mapM Event.decode

/-- Enters a version, unless one of the same event is at least as new. -/
def keepNewest (newest : Table Event) (e : Event) : Table Event :=
  match newest.get? e.id with
  | none => newest.put e.id e
  | some old => if old.timestamp < e.timestamp then newest.put e.id e else newest

/-- The newest version of each event that is not a card fragment, in the
order in which the events first came. -/
def survivors (candidates : List Event) : List Event :=
  (((candidates.filter (!·.isFragment)).map Event.inPlace).foldl keepNewest []).map (·.2)

/-- In order of time; events of one time stay in order. -/
def byTime (events : List Event) : List Event :=
  events.mergeSort fun a b => a.timestamp ≤ b.timestamp

end Timeline

end ReplyStream
