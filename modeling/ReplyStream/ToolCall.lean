/-
Tool calls. The model streams a `ToolCall`, whose arguments are raw text
that may still be incomplete. A `Command` is the same call with its
arguments read as JSON, and an `EncodedCommand` is what stands in an event:
the arguments written out again as compact text.
-/
import ReplyStream.Json.Decode
import ReplyStream.Json.Read
import ReplyStream.Json.Write

namespace ReplyStream

structure ToolCall where
  id : String
  name : String
  arguments : String
deriving DecidableEq, Repr

structure Command where
  id : String
  name : String
  arguments : Json
deriving Repr

structure EncodedCommand where
  id : String
  name : String
  arguments : String
deriving DecidableEq, Repr

namespace ToolCall

/-- A call with neither id nor name. -/
def isEmpty (c : ToolCall) : Bool := c.id.isEmpty && c.name.isEmpty

/-- The command a call asks for. Arguments that are not JSON, or not yet,
count as none. -/
def command (c : ToolCall) : Command :=
  ⟨c.id, c.name, (Json.parse? c.arguments).getD (.obj [])⟩

def ofJson? : Json → Option ToolCall :=
  Json.record do
    let id ← Json.field "id" Json.string?
    let name ← Json.field "name" Json.string?
    let arguments ← Json.fieldD "arguments" Json.string? ""
    return { id, name, arguments }

def toJson (c : ToolCall) : Json :=
  .ofPairs [("id", .str c.id), ("name", .str c.name), ("arguments", .str c.arguments)]

end ToolCall

namespace Command

def encode (c : Command) : EncodedCommand := ⟨c.id, c.name, c.arguments.compact⟩

def ofJson? : Json → Option Command :=
  Json.record do
    let id ← Json.field "id" Json.string?
    let name ← Json.field "name" Json.string?
    let arguments ← Json.field "arguments" some
    return { id, name, arguments }

def toJson (c : Command) : Json :=
  .ofPairs [("id", .str c.id), ("name", .str c.name), ("arguments", c.arguments)]

end Command

namespace EncodedCommand

def ofJson? : Json → Option EncodedCommand :=
  Json.record do
    let id ← Json.field "id" Json.string?
    let name ← Json.field "name" Json.string?
    let arguments ← Json.field "arguments" Json.string?
    return { id, name, arguments }

def toJson (c : EncodedCommand) : Json :=
  .ofPairs [("id", .str c.id), ("name", .str c.name), ("arguments", .str c.arguments)]

end EncodedCommand

/-- What an event carries for a call. -/
def ToolCall.encode (c : ToolCall) : EncodedCommand := c.command.encode

end ReplyStream
