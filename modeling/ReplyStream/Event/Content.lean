/-
The content of an event as it is read from a room.

`Content` keeps every key: the known ones in fields of their own, the others
in `extra`, which is written back beside them. `data` arrives as JSON
written into a string; `decodeData?` puts the value in its place and leaves
anything that is not a string alone.
-/
import ReplyStream.Json.Decode
import ReplyStream.Json.Read

namespace ReplyStream

/-- How an event relates to another. -/
structure Relation where
  kind : String
  eventId : String
deriving DecidableEq, Repr

namespace Relation

/-- The relation of an edit to the event it takes the place of. -/
def replaceKind : String := "m.replace"

def replace (eventId : String) : Relation := ⟨replaceKind, eventId⟩

def ofJson? : Json → Option Relation :=
  Json.record do
    let kind ← Json.field "rel_type" Json.string?
    let eventId ← Json.field "event_id" Json.string?
    return { kind, eventId }

def toJson (r : Relation) : Json :=
  .ofPairs [("rel_type", .str r.kind), ("event_id", .str r.eventId)]

end Relation

/-! ## Keys

Those that events share with the messages published to a room. -/

namespace Key

def relatesTo : String := "m.relates_to"
def reasoning : String := "app.relaybot.reasoning"
def commands : String := "app.relaybot.command_requests"
def continuationOf : String := "app.relaybot.continuation_of"
def hasContinuation : String := "app.relaybot.has_continuation"
def finished : String := "isStreamingFinished"

end Key

structure Content where
  body : String
  msgtype : Option String
  data : Option Json
  relatesTo : Option Relation
  reasoning : Option String
  commands : Option (List Json)
  continuationOf : Option String
  hasContinuation : Option Bool
  finished : Option Bool
  /-- All other keys. -/
  extra : Json.Fields
deriving Repr

namespace Content

/-- A content without anything. -/
def empty : Content := ⟨"", none, none, none, none, none, none, none, none, []⟩

/-- The keys with fields of their own. -/
def knownKeys : List String :=
  ["body", "msgtype", "data", Key.relatesTo, Key.reasoning, Key.commands, Key.continuationOf,
   Key.hasContinuation, Key.finished]

def ofJson? : Json → Option Content :=
  Json.keyedRecord fun fields => do
    let body ← Json.fieldD "body" Json.string? ""
    let msgtype ← Json.option "msgtype" Json.string?
    let data ← Json.option "data" some
    let relatesTo ← Json.option Key.relatesTo Relation.ofJson?
    let reasoning ← Json.option Key.reasoning Json.string?
    let commands ← Json.option Key.commands (Json.list? some)
    let continuationOf ← Json.option Key.continuationOf Json.string?
    let hasContinuation ← Json.option Key.hasContinuation Json.bool?
    let finished ← Json.option Key.finished Json.bool?
    let extra := fields.filterKeys (!knownKeys.contains ·)
    return { body, msgtype, data, relatesTo, reasoning, commands, continuationOf, hasContinuation,
             finished, extra }

def toJson (c : Content) : Json :=
  .ofPairs <|
    [("body", .str c.body)] ++
    Json.optionField "msgtype" .str c.msgtype ++
    Json.optionField "data" id c.data ++
    Json.optionField Key.relatesTo Relation.toJson c.relatesTo ++
    Json.optionField Key.reasoning .str c.reasoning ++
    Json.optionField Key.commands .arr c.commands ++
    Json.optionField Key.continuationOf .str c.continuationOf ++
    Json.optionField Key.hasContinuation .bool c.hasContinuation ++
    Json.optionField Key.finished .bool c.finished ++
    c.extra

/-- The content with `data` decoded, or nothing when `data` is a string that
is not JSON. -/
def decodeData? (c : Content) : Option Content :=
  match c.data with
  | some (.str encoded) => (Json.parse? encoded).map fun v => { c with data := some v }
  | _ => some c

end Content

end ReplyStream
