/-
A stream that can be rewound. What a source has given since the last
checkpoint is kept and given again after a restore, before the source is
asked for more. A source that has ended is never asked again, and `close`
lets go of it.

A source is known by its answers: `source n` is what the poll with number
`n` gives.
-/

namespace ReplyStream

/-- The answer to one poll. -/
inductive Poll (α : Type) where
  | item (a : α)
  | pending
  | done
deriving DecidableEq, Repr

structure Replay (α : Type) where
  /-- What each poll of the source gives. -/
  source : Nat → Poll α
  /-- How often the source has been polled. -/
  polls : Nat
  /-- Whether the source has ended. -/
  exhausted : Bool
  isClosed : Bool
  /-- What the source has given since the checkpoint. -/
  buffer : List α
  /-- How much of the buffer has been given out since the last rewind. -/
  position : Nat
  /-- Whether the buffer still has something to give out. -/
  replaying : Bool
  /-- How often the source has been let go of. -/
  releases : Nat

namespace Replay

variable {α : Type}

def new (source : Nat → Poll α) : Replay α := ⟨source, 0, false, false, [], 0, false, 0⟩

/-- The source with the given answers, which ends behind the last. -/
def answers (polls : List (Poll α)) (n : Nat) : Poll α := (polls[n]?).getD .done

/-- Asks the source, unless it has ended or is gone. -/
def pull (r : Replay α) : Replay α × Poll α :=
  if r.isClosed || r.exhausted then (r, .done)
  else
    match r.source r.polls with
    | .item a =>
      ({ r with polls := r.polls + 1, buffer := r.buffer ++ [a], position := r.buffer.length + 1 },
        .item a)
    | .pending => ({ r with polls := r.polls + 1 }, .pending)
    | .done => ({ r with polls := r.polls + 1, exhausted := true }, .done)

/-- The next answer: out of the buffer while it is replayed, then from the
source. -/
def poll (r : Replay α) : Replay α × Poll α :=
  if r.replaying then
    match r.buffer[r.position]? with
    | some a => ({ r with position := r.position + 1 }, .item a)
    | none => { r with replaying := false }.pull
  else r.pull

/-- Later restores rewind to here. What has not been replayed yet stays. -/
def checkpoint (r : Replay α) : Replay α :=
  if r.replaying then
    let buffer := r.buffer.drop r.position
    { r with buffer, position := 0, replaying := !buffer.isEmpty }
  else { r with buffer := [], position := 0 }

/-- Rewinds to the last checkpoint. -/
def restore (r : Replay α) : Replay α := { r with position := 0, replaying := !r.buffer.isEmpty }

/-- Lets go of the source, if it is still there, and of the buffer. -/
def close (r : Replay α) : Replay α :=
  { r with
    isClosed := true, releases := if r.isClosed then r.releases else r.releases + 1, buffer := [], position := 0,
    replaying := false }

/-- Polls at most `limit` times for the items up to the end. -/
def drain (limit : Nat) (r : Replay α) : Replay α × List α :=
  match limit with
  | 0 => (r, [])
  | limit + 1 =>
    match r.poll with
    | (r, .item a) =>
      let (r, rest) := r.drain limit
      (r, a :: rest)
    | (r, .pending) => r.drain limit
    | (r, .done) => (r, [])

end Replay

end ReplyStream
