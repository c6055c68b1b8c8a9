/-
The timeline of a room: one entry per message, in order of time. It is made
of the newest version of each event, with all it refers to in its place and
the chains of long replies joined.
-/
import ReplyStream.Timeline.Edits
import ReplyStream.Timeline.Embed
import ReplyStream.Timeline.Stitch

namespace ReplyStream.Timeline

variable {σ : Type}

/-- The timeline of a log. -/
def reconstruct (load : Loader σ) (log : List Event) : Loading σ (List Event) := do
  let versions ← ofExcept (candidates log)
  let fragments ← ofExcept (Fragments.ofEvents versions)
  let entries ← (byTime (survivors versions)).mapM (embed load fragments)
  return byTime (stitch entries)

/-- The log up to the event `last`; all of it when that is not given or not
there. -/
def upTo (last : Option String) (log : List Event) : List Event :=
  match last.bind fun id => log.findIdx? (·.id = id) with
  | some i => log.take (i + 1)
  | none => log

end ReplyStream.Timeline
