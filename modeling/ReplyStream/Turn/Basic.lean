/-
One turn of the bot: its draft of the reply, the throttle that decides when
the reply is published, and the publisher, reached through an office. A
publish that fails is reported in the room and the turn goes on.

Two take turns: the caller, who folds deltas in and ends the turn, and the
keeper of the throttle's window. Whoever runs goes on until it has to wait,
and time passes only when both wait, up to the next thing to happen. What
happens meanwhile is `step`; the caller waits with `passTo` and `await`.
-/
import ReplyStream.Chain.Office
import ReplyStream.Throttle.Basic

namespace ReplyStream

namespace Turn

inductive Who where
  | caller
  | keeper
deriving DecidableEq, Repr

/-- How many turns ended in which way. -/
structure Tally where
  completed : Nat
  canceled : Nat
  failed : Nat
deriving DecidableEq, Repr

def Tally.counters (t : Tally) : List (String × Nat) :=
  [("relaybot_turns_total\x7boutcome=completed\x7d", t.completed),
   ("relaybot_turns_total\x7boutcome=canceled\x7d", t.canceled),
   ("relaybot_turns_total\x7boutcome=failed\x7d", t.failed)]

end Turn

structure Turn where
  now : Nat
  draft : Draft
  throttle : Throttle Reply
  office : Office Turn.Who
  wire : Wire
  /-- The answer to the caller's request. -/
  answer : Option Request.Answer
  /-- The failure the keeper is reporting. -/
  reporting : Option Fault
  /-- The publishes that failed, after their reports. -/
  failures : List Fault
  tally : Turn.Tally

namespace Turn

def new (room : String) (c : Config) (draft : Draft) (wire : Wire) : Turn where
  now := 0
  draft := draft
  throttle := .new c.publishing.throttleMs
  office := .new (.new room c.identity.agentId c.publishing)
  wire := wire
  answer := none
  reporting := none
  failures := []
  tally := ⟨0, 0, 0⟩

def counters (t : Turn) : List (String × Nat) :=
  t.office.publisher.tally.counters ++ t.throttle.counters ++ t.tally.counters

/-! ## What happens while the caller waits -/

/-- When the keeper can go on, if it does not wait for the office. -/
def keeperDue (t : Turn) : Option Nat :=
  match t.throttle.keeper with
  | none | some (.flushing _) => none
  | some .starting => some t.now
  | some (.asleep deadline) => if t.throttle.isClosed then some t.now else some (max deadline t.now)
  | some .rising => if t.throttle.holds .keeper then some t.now else none

/-- One move of the keeper. -/
def keep (t : Turn) : Turn :=
  match t.throttle.keeper with
  | none | some (.flushing _) => t
  | some .starting => { t with throttle := t.throttle.rest t.now }
  | some (.asleep _) =>
    { t with throttle := if t.throttle.isClosed then t.throttle.notice else t.throttle.rise }
  | some .rising =>
    match t.throttle.enter .keeper with
    | (throttle, none) => { t with throttle }
    | (throttle, some reply) => { t with throttle, office := t.office.ask .keeper (.publish reply) }

/-- The keeper makes no more moves than this before it ends, if nothing more
is scheduled. -/
def keeperEffort (t : Turn) : Nat :=
  let flushing := match t.throttle.pending with
    | none => 0
    | some reply => (Request.publish reply).effort + 5
  match t.throttle.keeper with
  | none => 0
  | some .rising => flushing + 1
  | some (.asleep _) => flushing + 2
  | some .starting => flushing + 3
  | some (.flushing _) => flushing + if t.reporting.isSome then 3 else 5

/-- The keeper goes on until it has to wait. -/
def keepOn (t : Turn) : Turn := go t.keeperEffort t
where
  go : Nat → Turn → Turn
    | 0, t => t
    | limit + 1, t => if t.keeperDue = some t.now then go limit t.keep else t

/-- The keeper takes an answer of the office. It reports a publish that
failed before it ends the flush. -/
def heardByKeeper (t : Turn) : Request.Answer → Turn
  | .published (.error cause) =>
    let fault := Fault.publish cause
    { t with reporting := some fault, office := t.office.ask .keeper (.report fault.message) }
  | _ =>
    { t with
      failures := t.failures ++ t.reporting.toList
      reporting := none
      throttle := t.throttle.finish .keeper }.keepOn

/-- The office makes its next move. -/
def serve (t : Turn) : Turn :=
  match t.office.move t.wire t.now with
  | (office, wire, none) => { t with office, wire }
  | (office, wire, some (.caller, answer)) => { t with office, wire, answer := some answer }
  | (office, wire, some (.keeper, answer)) => { t with office, wire }.heardByKeeper answer

/-- When the next thing happens. -/
def next (t : Turn) : Option Nat :=
  match t.office.due t.now, t.keeperDue with
  | some a, some b => some (min a b)
  | some a, none => some a
  | none, b => b

/-- The next thing that happens. At one time the office moves first. -/
def step (t : Turn) : Turn :=
  match t.office.due t.now, t.keeperDue with
  | some a, some b => if a ≤ b then { t with now := a }.serve else { t with now := b }.keepOn
  | some a, none => { t with now := a }.serve
  | none, some b => { t with now := b }.keepOn
  | none, none => t

/-- No more steps than this happen while the caller waits. -/
def effort (t : Turn) : Nat := t.office.effort + t.keeperEffort

/-! ## The caller waits -/

/-- Waits for a time. -/
def passTo (t : Turn) (time : Nat) : Turn := go t.effort t
where
  go : Nat → Turn → Turn
    | 0, t => { t with now := max t.now time }
    | limit + 1, t =>
      if t.next.any (· < time) then go limit t.step else { t with now := max t.now time }

/-- Waits until `done` holds. -/
def await (t : Turn) (done : Turn → Bool) : Turn := go t.effort t
where
  go : Nat → Turn → Turn
    | 0, t => t
    | limit + 1, t => if done t then t else go limit t.step

/-- Asks the office and waits for its answer. -/
def request (t : Turn) (q : Request) : Turn × Option Request.Answer :=
  let t := { t with office := t.office.ask .caller q, answer := none }.await (·.answer.isSome)
  ({ t with answer := none }, t.answer)

/-! ## Flushing -/

/-- Publishes a reply, and reports it if that fails. -/
def flush (t : Turn) (reply : Reply) : Turn :=
  match t.request (.publish reply) with
  | (t, some (.published (.error cause))) =>
    let fault := Fault.publish cause
    let (t, _) := t.request (.report fault.message)
    { t with failures := t.failures ++ [fault] }
  | (t, _) => t

/-- The number of the caller's calls to the throttle; there is one at a time. -/
def callerCall : Nat := 0

/-- Waits for the keeper to end. -/
def drain (t : Turn) : Turn :=
  let t := t.await (·.throttle.keeper.isNone)
  { t with throttle := t.throttle.leave callerCall }

/-- Brings the caller's call to the throttle to its end. -/
def complete (t : Turn) : Turn :=
  match t.throttle.phase? callerCall with
  | none => t
  | some .draining => t.drain
  | some _ =>
    let t := { t with throttle := t.throttle.join (.call callerCall) }.await
      (·.throttle.holds (.call callerCall))
    match t.throttle.enter (.call callerCall) with
    | (throttle, none) => { t with throttle }
    | (throttle, some reply) =>
      let t := { t with throttle }.flush reply
      let t := { t with throttle := t.throttle.finish (.call callerCall) }
      if (t.throttle.phase? callerCall).isSome then t.drain else t

def schedule (t : Turn) (reply : Reply) : Turn :=
  { t with throttle := t.throttle.schedule callerCall reply }.complete

def flushNow (t : Turn) (reply : Reply) : Turn :=
  { t with throttle := t.throttle.flushNow callerCall reply }.complete

def close (t : Turn) : Turn := { t with throttle := t.throttle.close callerCall }.complete

end Turn

end ReplyStream
