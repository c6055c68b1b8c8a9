/-
The content of a message as it is published. In the room it is read as a
`Content`; the keys of the two agree, so what is published is what is read.
-/
import ReplyStream.Event.Basic
import ReplyStream.ToolCall

namespace ReplyStream

structure Message where
  body : String
  msgtype : String
  format : Option String
  finished : Bool
  isCanceled : Option Bool
  reasoning : Option String
  /-- Left out when there is none. -/
  commands : List EncodedCommand
  continuationOf : Option String
  hasContinuation : Option Bool
  /-- JSON written into a string. -/
  data : Option String
  errorMessage : Option String
  relatesTo : Option Relation
deriving DecidableEq, Repr

namespace Message

/-- The format of a reply's body. -/
def replyFormat : String := "org.matrix.custom.html"

/-- The body shown in place of a reply that failed. -/
def errorBody : String := "There was an error processing your request, please try again later."

/-- A reply with the given body. -/
def reply (body : String) : Message where
  body := body
  msgtype := Event.chatType
  format := some replyFormat
  finished := false
  isCanceled := none
  reasoning := none
  commands := []
  continuationOf := none
  hasContinuation := none
  data := none
  errorMessage := none
  relatesTo := none

/-- Names the agent the message comes from, in `data`. -/
def withAgent (m : Message) (agent : String) : Message :=
  { m with data := some (Json.obj [("context", .obj [("agentId", .str agent)])]).compact }

/-- The id of the event this message replaces. -/
def edits (m : Message) : Option String := m.relatesTo.map (·.eventId)

def ofJson? : Json → Option Message :=
  Json.record do
    let body ← Json.field "body" Json.string?
    let msgtype ← Json.field "msgtype" Json.string?
    let format ← Json.option "format" Json.string?
    let finished ← Json.field Key.finished Json.bool?
    let isCanceled ← Json.option "isCanceled" Json.bool?
    let reasoning ← Json.option Key.reasoning Json.string?
    let commands ← Json.fieldD Key.commands (Json.list? EncodedCommand.ofJson?) []
    let continuationOf ← Json.option Key.continuationOf Json.string?
    let hasContinuation ← Json.option Key.hasContinuation Json.bool?
    let data ← Json.option "data" Json.string?
    let errorMessage ← Json.option "errorMessage" Json.string?
    let relatesTo ← Json.option Key.relatesTo Relation.ofJson?
    return { body, msgtype, format, finished, isCanceled, reasoning, commands, continuationOf,
             hasContinuation, data, errorMessage, relatesTo }

def toJson (m : Message) : Json :=
  .ofPairs <|
    [("body", .str m.body), ("msgtype", .str m.msgtype)] ++
    Json.optionField "format" .str m.format ++
    [(Key.finished, .bool m.finished)] ++
    Json.optionField "isCanceled" .bool m.isCanceled ++
    Json.optionField Key.reasoning .str m.reasoning ++
    (if m.commands.isEmpty then [] else [(Key.commands, .arr (m.commands.map EncodedCommand.toJson))]) ++
    Json.optionField Key.continuationOf .str m.continuationOf ++
    Json.optionField Key.hasContinuation .bool m.hasContinuation ++
    Json.optionField "data" .str m.data ++
    Json.optionField "errorMessage" .str m.errorMessage ++
    Json.optionField Key.relatesTo Relation.toJson m.relatesTo

/-- The message as it is read in a room. -/
def content? (m : Message) : Option Content := Content.ofJson? m.toJson

end Message

end ReplyStream
