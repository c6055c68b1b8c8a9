/-
A message on its way to a room: a new one, or an edit that takes the place
of the event `target`.
-/
import ReplyStream.Message

namespace ReplyStream

structure Post where
  /-- The event to replace. -/
  target : Option String
  message : Message
deriving DecidableEq, Repr

/-- The message as the room gets it: an edit names the event it replaces,
unless it already relates to one. -/
def Post.addressed (p : Post) : Message :=
  match p.target, p.message.relatesTo with
  | some target, none => { p.message with relatesTo := some (.replace target) }
  | _, _ => p.message

end ReplyStream
