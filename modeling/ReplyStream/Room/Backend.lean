/-
A chat backend held in memory: the log of all rooms, what the bot has sent,
the files to be downloaded, and a clock.

An event that is sent gets a timestamp above every timestamp in the log, so
that of two sends the later one always wins (`send`). A send that fails
leaves everything but the count of failures as it was.
-/
import ReplyStream.Fault
import ReplyStream.Post
import ReplyStream.Table

namespace ReplyStream

/-- An event the bot has sent. -/
structure Sent where
  eventId : String
  room : String
  message : Message
  replaces : Option String
deriving DecidableEq, Repr

structure Backend where
  /-- Who sends. -/
  sender : String
  log : List Event
  sent : List Sent
  /-- The text of each file, by URL. -/
  files : Table String
  /-- How often each URL has been asked for. -/
  downloads : Table Nat
  /-- How many of the coming sends fail. -/
  failing : Nat
  clock : Nat

namespace Backend

/-- A backend with nothing in it. -/
def new (sender : String) : Backend := ⟨sender, [], [], [], [], 0, 0⟩

/-- The id of the event that is sent as number `n`. -/
def sentId (n : Nat) : String := "$sent" ++ toString n

/-- Appends an event somebody else wrote. -/
def push (b : Backend) (e : Event) : Backend :=
  { b with clock := max b.clock e.timestamp, log := b.log ++ [e] }

def addFile (b : Backend) (url text : String) : Backend := { b with files := b.files.put url text }

/-- Makes the next `count` sends fail, whatever was to fail before. -/
def failNext (b : Backend) (count : Nat) : Backend := { b with failing := count }

/-- Appends a post to the log of a room. -/
def send (b : Backend) (room : String) (p : Post) : Backend × Except TransportFault Sent :=
  if 0 < b.failing then ({ b with failing := b.failing - 1 }, .error .unavailable)
  else
    match p.addressed.content? with
    | none => (b, .error (.request "the message cannot be read"))
    | some content =>
      let sent : Sent := ⟨sentId (b.sent.length + 1), room, p.addressed, p.target⟩
      let event : Event :=
        { id := sent.eventId, room, sender := b.sender, kind := .message, timestamp := b.clock + 1,
          content, unsigned := none }
      ({ b with clock := b.clock + 1, log := b.log ++ [event], sent := b.sent ++ [sent] }, .ok sent)

/-- The events of a room that stand behind the event `since`; all of them
when it is not given or not there. -/
def fetch (b : Backend) (room : String) (since : Option String) : List Event :=
  let events := b.log.filter (·.room = room)
  match since.bind fun id => events.findIdx? (·.id = id) with
  | some i => events.drop (i + 1)
  | none => events

/-- How often a URL has been asked for. -/
def downloadCount (b : Backend) (url : String) : Nat := (b.downloads.get? url).getD 0

/-- The text of a file. Every download counts, whether there is a file or not. -/
def download (b : Backend) (url : String) : Backend × Except TransportFault String :=
  ({ b with downloads := b.downloads.put url (b.downloadCount url + 1) },
    match b.files.get? url with
    | some text => .ok text
    | none => .error (.rejected 404 ("no file at " ++ url)))

end Backend

end ReplyStream
