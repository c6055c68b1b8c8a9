/-
Where the text of attached files comes from: the cache, and behind it the
backend.
-/
import ReplyStream.Cache
import ReplyStream.Room.Wire

namespace ReplyStream

structure Depot where
  wire : Wire
  cache : Cache

/-- The text of a file, from the cache if it has it. -/
def Depot.load (now : Nat) (file : AttachedFile) : ExceptT Fault (StateM Depot) String := fun d =>
  match d.cache.ask now file with
  | (cache, .settled result) => (result, { d with cache })
  | (cache, .download) =>
    let (wire, result) := d.wire.download file.url
    let (cache, result) := cache.settle now file.url result
    (result, ⟨wire, cache⟩)

end ReplyStream
