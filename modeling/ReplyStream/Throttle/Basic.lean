/-
A throttle for flushing values. The first value is flushed at once and opens
a window; a value that comes while the window is open waits, in place of the
one that waited before, and is flushed when the window ends, which opens the
next one. `flushNow` flushes a last value and `close` none; after either
nothing more is taken.

Calls come from many sides and a flush takes time, so a throttle is a state
and the moves that may be made in it, in any order: calls come in
(`schedule`, `flushNow`, `close`), the keeper of the window sleeps and wakes
(`rest`, `rise`, `notice`), and whoever wants to flush joins the line for the
lock (`join`), gets it (`enter`) and is done with it (`finish`). How long a
flush takes is not the throttle's concern.
-/

namespace ReplyStream

namespace Throttle

/-- Who takes part: a call, by its number, or the keeper of the window. -/
inductive Actor where
  | call (n : Nat)
  | keeper
deriving DecidableEq, Repr

/-- Where a call stands that has not returned. -/
inductive Phase (α : Type) where
  /-- Wants the lock, for the first value of a window. -/
  | leading (value : α)
  /-- Wants the lock, for the last value of all. -/
  | closing (value : α)
  | flushing (value : α) (final : Bool)
  /-- Waits for the keeper to end. -/
  | draining
deriving DecidableEq, Repr

/-- Where the keeper of the window stands. -/
inductive Watch (α : Type) where
  | starting
  | asleep (deadline : Nat)
  /-- Wants the lock: the window has passed. -/
  | rising
  | flushing (value : α)
deriving DecidableEq, Repr

end Throttle

structure Throttle (α : Type) where
  /-- How long a window is, in milliseconds. -/
  window : Nat
  /-- The value that waits for the window to end. -/
  pending : Option α
  isOpen : Bool
  isClosed : Bool
  /-- Who wants the lock; the first has it. -/
  line : List Throttle.Actor
  calls : List (Nat × Throttle.Phase α)
  keeper : Option (Throttle.Watch α)
  /-- How many values gave way to a later one. -/
  coalesced : Nat
deriving DecidableEq, Repr

namespace Throttle

variable {α : Type}

def new (window : Nat) : Throttle α := ⟨window, none, false, false, [], [], none, 0⟩

def counters (t : Throttle α) : List (String × Nat) :=
  [("relaybot_throttle_coalesced_total", t.coalesced)]

/-! ## Calls -/

/-- Where a call stands; nothing when it has returned. -/
def phase? (t : Throttle α) (n : Nat) : Option (Phase α) := (t.calls.find? (·.1 = n)).map (·.2)

def setPhase (t : Throttle α) (n : Nat) (phase : Phase α) : Throttle α :=
  { t with calls := t.calls.map fun c => if c.1 = n then (n, phase) else c }

/-- The call returns. -/
def leave (t : Throttle α) (n : Nat) : Throttle α := { t with calls := t.calls.filter (·.1 ≠ n) }

/-- Takes a value: it leads a window or waits for the open one to end. -/
def schedule (t : Throttle α) (n : Nat) (value : α) : Throttle α :=
  if t.isClosed then t
  else if t.isOpen then
    { t with
      pending := some value
      coalesced := if t.pending.isSome then t.coalesced + 1 else t.coalesced }
  else { t with isOpen := true, calls := t.calls ++ [(n, .leading value)] }

/-- Takes nothing any more and forgets what waits. -/
def shut (t : Throttle α) : Throttle α :=
  { t with isClosed := true, isOpen := false, pending := none }

/-- Shuts the throttle, with a last value to flush. -/
def flushNow (t : Throttle α) (n : Nat) (value : α) : Throttle α :=
  if t.isClosed then t else { t.shut with calls := t.calls ++ [(n, .closing value)] }

/-- Shuts the throttle. -/
def close (t : Throttle α) (n : Nat) : Throttle α :=
  if t.isClosed then t else { t.shut with calls := t.calls ++ [(n, .draining)] }

/-! ## The lock -/

/-- Joins the line for the lock. -/
def join (t : Throttle α) (a : Actor) : Throttle α := { t with line := t.line ++ [a] }

def holds (t : Throttle α) (a : Actor) : Bool := t.line.head? = some a

/-- The holder gives the lock to the next in line. -/
def release (t : Throttle α) : Throttle α := { t with line := t.line.tail }

/-- The holder sees what there is to flush. A call that leads a window sets
a keeper on it; without a value that waits, the keeper ends the window. -/
def enter (t : Throttle α) : Actor → Throttle α × Option α
  | .call n =>
    match t.phase? n with
    | some (.leading value) =>
      if t.isClosed then (t.release.leave n, none)
      else ({ t.setPhase n (.flushing value false) with keeper := some .starting }, some value)
    | some (.closing value) => (t.setPhase n (.flushing value true), some value)
    | _ => (t, none)
  | .keeper =>
    if t.isClosed then ({ t.release with keeper := none }, none)
    else
      match t.pending with
      | none => ({ t.release with keeper := none, isOpen := false }, none)
      | some value => ({ t with pending := none, keeper := some (.flushing value) }, some value)

/-- The holder has flushed its value. The last call of all still waits for
the keeper. -/
def finish (t : Throttle α) : Actor → Throttle α
  | .call n =>
    match t.phase? n with
    | some (.flushing _ true) => t.release.setPhase n .draining
    | some (.flushing _ false) => t.release.leave n
    | _ => t
  | .keeper => { t.release with keeper := some .starting }

/-! ## The keeper -/

/-- The keeper goes to sleep for a window, unless there will be none. -/
def rest (t : Throttle α) (now : Nat) : Throttle α :=
  if t.isClosed then { t with keeper := none }
  else { t with keeper := some (.asleep (now + t.window)) }

/-- The keeper wakes at the end of the window. -/
def rise (t : Throttle α) : Throttle α := { t with keeper := some .rising }.join .keeper

/-- The sleeping keeper sees that the throttle is shut, and ends. -/
def notice (t : Throttle α) : Throttle α := { t with keeper := none }

end Throttle

end ReplyStream
