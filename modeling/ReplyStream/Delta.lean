/-
One increment of a model's output: reasoning arrives in pieces, answer text
and tool calls as complete snapshots.
-/
import ReplyStream.ToolCall

namespace ReplyStream

structure Delta where
  /-- Text to append to the reasoning. -/
  reasoning : Option String
  /-- The whole answer so far. -/
  content : Option String
  /-- All tool calls so far. -/
  toolCalls : Option (List ToolCall)
  /-- Whether this is the last increment. -/
  finished : Bool
deriving DecidableEq, Repr

namespace Delta

def ofJson? : Json → Option Delta :=
  Json.record do
    let reasoning ← Json.option "reasoning" Json.string?
    let content ← Json.option "content" Json.string?
    let toolCalls ← Json.option "tool_calls" (Json.list? ToolCall.ofJson?)
    let finished ← Json.fieldD "finished" Json.bool? false
    return { reasoning, content, toolCalls, finished }

def toJson (d : Delta) : Json :=
  .ofPairs <|
    Json.optionField "reasoning" .str d.reasoning ++
    Json.optionField "content" .str d.content ++
    Json.optionField "tool_calls" (fun calls => .arr (calls.map ToolCall.toJson)) d.toolCalls ++
    [("finished", .bool d.finished)]

end Delta

end ReplyStream
