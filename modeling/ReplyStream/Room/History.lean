/-
The history of a room: its log, fetched from the backend, as a timeline.
-/
import ReplyStream.Room.Depot
import ReplyStream.Timeline.Basic

namespace ReplyStream.Depot

/-- The timeline of a log, with files loaded at time `now`. -/
def reconstruct (now : Nat) (log : List Event) (d : Depot) : Depot × Except Fault (List Event) :=
  let (result, d) := (Timeline.reconstruct (load now) log).run.run d
  (d, result)

/-- The timeline of a room up to the event `last`. -/
def history (now : Nat) (room : String) (last : Option String) (d : Depot) :
    Depot × Except Fault (List Event) :=
  match d.wire.fetch room none with
  | (wire, .error fault) => ({ d with wire }, .error (.transport fault))
  | (wire, .ok log) => reconstruct now (Timeline.upTo last log) { d with wire }

end ReplyStream.Depot
