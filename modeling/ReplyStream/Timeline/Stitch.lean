/-
A long reply is a chain of events. `stitch` folds every chain into its first
event: the texts are joined, and what tells how far the reply is comes from
the last event absorbed. A continuation nobody absorbs stays an entry of its
own.
-/
import ReplyStream.Event.Basic
import ReplyStream.Table

namespace ReplyStream

/-- An event followed by the one that continues it. -/
def Event.absorb (head next : Event) : Event :=
  { head with
    timestamp := next.timestamp
    content.body := head.content.body ++ next.content.body
    content.reasoning :=
      match next.content.reasoning with
      | none => head.content.reasoning
      | some text => some (head.content.reasoning.getD "" ++ text)
    content.commands :=
      match next.content.commands with
      | none => head.content.commands
      | some more => some (head.content.commands.getD [] ++ more)
    content.hasContinuation := next.content.hasContinuation
    content.finished := next.content.finished }

namespace Timeline

/-- Events by the id of the event they continue; of several that continue
the same one the last counts. -/
def continuations (events : List Event) : Table Event :=
  events.foldl (fun table e =>
    match e.content.continuationOf with
    | some previous => table.put previous e
    | none => table) []

/-- Absorbs one continuation after another, the first that of event `tail`,
at most `limit`: the event and the continuations that are left. -/
def follow (limit : Nat) (left : Table Event) (tail : String) (head : Event) : Event × Table Event :=
  match limit with
  | 0 => (head, left)
  | limit + 1 =>
    if head.content.hasContinuation = some true then
      match left.get? tail with
      | none => (head, left)
      | some next => follow limit (left.erase tail) next.id (head.absorb next)
    else (head, left)

/-- Completes each event in turn out of the continuations that are left. No
chain is longer than they are many. -/
def complete (left : Table Event) : List Event → List Event × Table Event
  | [] => ([], left)
  | head :: rest =>
    let (head, left) := follow left.length left head.id head
    let (rest, left) := complete left rest
    (head :: rest, left)

/-- Every chain as one entry, then the continuations nobody absorbed. These have
no order of their own, here they come as they are in the table. -/
def stitch (events : List Event) : List Event :=
  let heads := events.filter fun e => e.content.continuationOf.isNone
  let (entries, left) := complete (continuations events) heads
  entries ++ left.map (·.2)

end Timeline

end ReplyStream
