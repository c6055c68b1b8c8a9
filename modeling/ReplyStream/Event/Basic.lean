/-
Events, the records of a room's append-only log. An event may come with what
the server has gathered about it (`unsigned`), in particular the newest
event that replaces it, which is an event in full and may itself come with
one.
-/
import ReplyStream.Event.Content

namespace ReplyStream

/-- What an event is: a message, the result of a command, or of no interest. -/
inductive EventKind where
  | message
  | commandResult
  | other (name : String)
deriving DecidableEq, Repr

namespace EventKind

def messageName : String := "m.room.message"
def commandResultName : String := "app.relaybot.command_result"

def ofName (name : String) : EventKind :=
  if name = messageName then .message
  else if name = commandResultName then .commandResult
  else .other name

def name : EventKind → String
  | .message => messageName
  | .commandResult => commandResultName
  | .other name => name

end EventKind

/-- What the server relates to an event of type `ε`. -/
structure Relations (ε : Type) where
  /-- The newest event that replaces it. -/
  replacement : Option ε
deriving Repr

/-- What the server adds to an event. -/
structure Unsigned (ε : Type) where
  relations : Option (Relations ε)
deriving Repr

structure Event where
  id : String
  room : String
  sender : String
  kind : EventKind
  /-- Milliseconds; not unique. -/
  timestamp : Nat
  content : Content
  unsigned : Option (Unsigned Event)
deriving Repr

namespace Event

/-- The message type of ordinary chat and of replies. -/
def chatType : String := "app.relaybot.message"

/-- The message type of one piece of a card document. -/
def fragmentType : String := "app.relaybot.card_fragment"

/-- The message type of a command's result that comes with a card file. -/
def outputType : String := "app.relaybot.command_result.with_output"

/-- The id of the event this one replaces. -/
def replaces (e : Event) : Option String :=
  e.content.relatesTo.bind fun r => if r.kind = Relation.replaceKind then some r.eventId else none

/-- The newest replacement the server knows of. -/
def replacement (e : Event) : Option Event :=
  e.unsigned.bind fun u => u.relations.bind (·.replacement)

def msgtype (e : Event) : Option String := e.content.msgtype

/-- One piece of a card document. -/
def isFragment (e : Event) : Bool := e.kind == .message && e.msgtype == some fragmentType

/-- The result of a command that comes with a card file. -/
def isCommandOutput (e : Event) : Bool := e.kind == .commandResult && e.msgtype == some outputType

/-- Messages and command results take part in a conversation. -/
def isCandidate (e : Event) : Bool :=
  match e.kind with
  | .message | .commandResult => true
  | .other _ => false

/-! ## Reading and writing -/

def Relations.ofJson? (event : Json → Option Event) : Json → Option (Relations Event) :=
  Json.record do
    let replacement ← Json.option "m.replace" event
    return { replacement }

def Unsigned.ofJson? (event : Json → Option Event) : Json → Option (Unsigned Event) :=
  Json.record do
    let relations ← Json.option "m.relations" (Relations.ofJson? event)
    return { relations }

/-- Reads an event with at most `depth` replacements inside one another. -/
def read (depth : Nat) (v : Json) : Option Event :=
  match depth with
  | 0 => none
  | depth + 1 =>
    Json.record (do
      let id ← Json.field "event_id" Json.string?
      let room ← Json.field "room_id" Json.string?
      let sender ← Json.field "sender" Json.string?
      let kind ← Json.field "type" Json.string?
      let timestamp ← Json.field "origin_server_ts" Json.nat64?
      let content ← Json.fieldD "content" Content.ofJson? Content.empty
      let unsigned ← Json.option "unsigned" (Unsigned.ofJson? (read depth))
      return { id, room, sender, kind := EventKind.ofName kind, timestamp, content, unsigned }) v

/-- Reads an event. A value holds no more replacements inside one another
than it is deep. -/
def ofJson? (v : Json) : Option Event := read v.depth v

/-- The fields of an event but for what the server adds. -/
def ownFields (e : Event) : List (String × Json) :=
  [("event_id", .str e.id), ("room_id", .str e.room), ("sender", .str e.sender),
   ("type", .str e.kind.name), ("origin_server_ts", .ofNat e.timestamp),
   ("content", e.content.toJson)]

def toJson (e : Event) : Json :=
  match e with
  | ⟨id, room, sender, kind, timestamp, content, unsigned⟩ =>
    let own := ownFields ⟨id, room, sender, kind, timestamp, content, none⟩
    match unsigned with
    | none => .ofPairs own
    | some ⟨none⟩ => .ofPairs (own ++ [("unsigned", .obj [])])
    | some ⟨some ⟨none⟩⟩ => .ofPairs (own ++ [("unsigned", .ofPairs [("m.relations", .obj [])])])
    | some ⟨some ⟨some r⟩⟩ =>
      .ofPairs (own ++
        [("unsigned", .ofPairs [("m.relations", .ofPairs [("m.replace", toJson r)])])])

end Event

end ReplyStream
