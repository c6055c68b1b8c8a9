/-
A turn from its opening event to its outcome: the model's deltas are folded
in as they come, until the model has finished, fails or the turn is
canceled. A turn whose model fails ends with a report of the fault; every
other ends with its last reply published.
-/
import ReplyStream.Room.History
import ReplyStream.Turn.Basic

namespace ReplyStream

/-- The output of a model: each item after a delay, counted from when it is
waited for. -/
structure ModelStream where
  items : List (Nat × Except ModelFault Delta)
  /-- Whether nothing comes behind the last item, not even the end. -/
  hangs : Bool

namespace Turn

/-- How a turn ended. -/
structure Outcome where
  /-- The events of the reply, in order. -/
  eventIds : List String
  isCanceled : Bool
  /-- The publishes that failed and were reported. -/
  failures : List Fault

/-- Sends the opening event, unless it has been sent: its id. -/
def begin (t : Turn) : Turn × Except Fault String :=
  match t.request .opening with
  | (t, some (.opened (.ok id))) => (t, .ok id)
  | (t, some (.opened (.error cause))) => (t, .error (.publish cause))
  | (t, _) => (t, .error (.publish .unavailable))

/-- Folds a delta in and schedules a publish if it changed anything, which
is told. -/
def take (t : Turn) (delta : Delta) : Turn × Bool :=
  match t.draft.update delta with
  | (draft, true) => ({ t with draft }.schedule draft.reply, true)
  | (draft, false) => ({ t with draft }, false)

/-- Marks the reply canceled, for the next publish. False when it was. -/
def cancel (t : Turn) : Turn × Bool :=
  let (draft, changed) := t.draft.cancel
  ({ t with draft }, changed)

/-- Stops publishing and reports a fault in place of the reply. -/
def fail (t : Turn) (fault : Fault) : Turn := (t.close.request (.report fault.message)).1

/-- Ends the reply and publishes it a last time, unless the throttle was
shut before. -/
def finalize (t : Turn) : Turn × Outcome :=
  let draft := t.draft.finish
  let t := { t with draft }.flushNow draft.reply
  let (t, answer) := t.request .links
  let eventIds := match answer with
    | some (.links chain) => chain.filterMap (·.eventId)
    | _ => []
  ({ t with failures := [] }, ⟨eventIds, draft.reply.isCanceled, t.failures⟩)

/-- What ends a wait for the model. -/
inductive Waited where
  | due
  | canceled
  /-- Nothing ever does. -/
  | never

/-- Waits for a time, or for ever when there is none, unless the turn is
canceled before. -/
def waitFor (t : Turn) (time cancelAt : Option Nat) : Turn × Waited :=
  match time, cancelAt with
  | none, none => (t, .never)
  | some time, none => (t.passTo time, .due)
  | none, some cancel => (t.passTo cancel, .canceled)
  | some time, some cancel =>
    if cancel ≤ t.now || cancel < time then (t.passTo cancel, .canceled) else (t.passTo time, .due)

/-- Takes what the model gives, up to its end or until the turn is canceled.
Nothing comes of it when it goes on for ever. -/
def consume (hangs : Bool) (cancelAt : Option Nat) :
    List (Nat × Except ModelFault Delta) → Turn → Turn × Option (Except ModelFault Unit)
  | [], t =>
    match t.waitFor (if hangs then none else some t.now) cancelAt with
    | (t, .due) => (t, some (.ok ()))
    | (t, .canceled) => (t.cancel.1, some (.ok ()))
    | (t, .never) => (t, none)
  | (delay, item) :: rest, t =>
    match t.waitFor (some (t.now + delay)) cancelAt with
    | (t, .never) => (t, none)
    | (t, .canceled) => (t.cancel.1, some (.ok ()))
    | (t, .due) =>
      match item with
      | .error fault => (t, some (.error fault))
      | .ok delta =>
        let t := (t.take delta).1
        if delta.finished then (t, some (.ok ())) else consume hangs cancelAt rest t

/-- Runs a turn: nothing when the model hangs for ever. -/
def run (t : Turn) (stream : ModelStream) (cancelAt : Option Nat) :
    Turn × Option (Except Fault Outcome) :=
  match t.begin with
  | (t, .error fault) => (t, some (.error fault))
  | (t, .ok _) =>
    match consume stream.hangs cancelAt stream.items t with
    | (t, none) => (t, none)
    | (t, some (.error cause)) =>
      let fault := Fault.generation cause
      let t := { t with tally.failed := t.tally.failed + 1 }.fail fault
      (t, some (.error fault))
    | (t, some (.ok ())) =>
      let (t, outcome) := t.finalize
      let t :=
        if outcome.isCanceled then { t with tally.canceled := t.tally.canceled + 1 }
        else { t with tally.completed := t.tally.completed + 1 }
      (t, some (.ok outcome))

/-- The timeline of the room up to the event `last`, through `cache`. -/
def history (t : Turn) (cache : Cache) (last : Option String) :
    Turn × Cache × Except Fault (List Event) :=
  let (d, result) := Depot.history t.now t.office.publisher.room last ⟨t.wire, cache⟩
  ({ t with wire := d.wire }, d.cache, result)

end Turn

end ReplyStream
