/-
A throttle in use: one caller who makes call after call, and tasks which make
one call each and run beside it. All take turns. Whoever runs goes on until
it has to wait; then the tasks run in the order in which they became able
to, and when none is, the caller; time passes only when all wait, and then
up to the next thing to happen.
-/
import ReplyStream.Throttle.Basic

namespace ReplyStream.Throttle

/-- A call a task makes. -/
inductive Call (α : Type) where
  | schedule (value : α)
  | flushNow (value : α)

/-- What is seen from outside. -/
inductive Sight (α : Type) where
  | began (value : α)
  | ended (value : α)
  /-- A task's call has returned; `done` is false for a `flushNow` that came too late. -/
  | returned (call : Call α) (done : Bool)

structure Session (α : Type) where
  throttle : Throttle α
  now : Nat
  /-- How long a flush takes. -/
  duration : Nat
  /-- How many calls have been made. -/
  made : Nat
  /-- The tasks whose call has not returned, by its number, and whether it has begun. -/
  tasks : List (Nat × Call α × Bool)
  /-- Who can go on, in the order in which they became able to. -/
  ready : List Actor
  /-- When the flush of a task or of the keeper ends. -/
  flushEnd : Nat
  /-- What has been seen, and when. -/
  sights : List (Nat × Sight α)

namespace Session

variable {α : Type}

def new (window duration : Nat) : Session α := ⟨.new window, 0, duration, 0, [], [], 0, []⟩

def see (s : Session α) (sight : Sight α) : Session α := { s with sights := s.sights ++ [(s.now, sight)] }

/-! ## Tasks and the keeper -/

/-- Whether a task or the keeper can go on. -/
def able (s : Session α) : Actor → Bool
  | .call n =>
    match s.throttle.phase? n with
    | none => s.tasks.any fun (m, _, begun) => m = n && !begun
    | some (.leading _) | some (.closing _) => s.throttle.holds (.call n)
    | some (.flushing ..) => s.flushEnd ≤ s.now
    | some .draining => s.throttle.keeper.isNone
  | .keeper =>
    match s.throttle.keeper with
    | none => false
    | some .starting => true
    | some (.asleep deadline) => s.throttle.isClosed || deadline ≤ s.now
    | some .rising => s.throttle.holds .keeper
    | some (.flushing _) => s.flushEnd ≤ s.now

/-- Notes who can go on now. -/
def refresh (s : Session α) : Session α :=
  let actors := s.tasks.map (fun (n, _) => Actor.call n) ++ [.keeper]
  let waiting := s.ready.filter s.able
  { s with ready := waiting ++ actors.filter fun a => s.able a && !waiting.contains a }

/-- Changes the throttle. -/
def change (s : Session α) (f : Throttle α → Throttle α) : Session α :=
  { s with throttle := f s.throttle }.refresh

/-- A task's call returns. -/
def returns (s : Session α) (n : Nat) (done : Bool) : Session α :=
  let returned := s.tasks.filter (·.1 = n)
  let s := { s with tasks := s.tasks.filter (·.1 ≠ n) }
  returned.foldl (fun s (_, call, _) => s.see (.returned call done)) s

/-- A task begins its call. One that is neither to flush nor to wait returns. -/
def begin (s : Session α) (n : Nat) : Session α :=
  match s.tasks.find? (·.1 = n) with
  | none => s
  | some (_, call, _) =>
    let s := { s with tasks := s.tasks.map fun (m, c, begun) => (m, c, begun || m = n) }
    let closed := s.throttle.isClosed
    let throttle := match call with
      | .schedule value => s.throttle.schedule n value
      | .flushNow value => s.throttle.flushNow n value
    match throttle.phase? n with
    | some _ => { s with throttle := throttle.join (.call n) }
    | none => { s with throttle }.returns n !closed

/-- Begins to flush, if there is something to. -/
def enter (s : Session α) (a : Actor) : Session α × Bool :=
  match s.throttle.enter a with
  | (throttle, some value) =>
    ({ s with throttle, flushEnd := s.now + s.duration }.see (.began value), true)
  | (throttle, none) => ({ s with throttle }, false)

/-- Ends a flush of `value`. -/
def finish (s : Session α) (a : Actor) (value : α) : Session α :=
  { s with throttle := s.throttle.finish a }.see (.ended value)

/-- The next move of a task or the keeper. -/
def act (s : Session α) : Actor → Session α
  | .call n =>
    match s.throttle.phase? n with
    | none => s.begin n
    | some (.leading _) | some (.closing _) =>
      match s.enter (.call n) with
      | (s, true) => s
      | (s, false) => s.returns n true
    | some (.flushing value final) =>
      let s := s.finish (.call n) value
      if final then s else s.returns n true
    | some .draining => { s with throttle := s.throttle.leave n }.returns n true
  | .keeper =>
    match s.throttle.keeper with
    | none => s
    | some .starting => { s with throttle := s.throttle.rest s.now }
    | some (.asleep _) =>
      { s with throttle := if s.throttle.isClosed then s.throttle.notice else s.throttle.rise }
    | some .rising => (s.enter .keeper).1
    | some (.flushing value) => s.finish .keeper value

/-! ## Time -/

/-- When something happens of itself, if nobody can go on now. -/
def timers (s : Session α) : List Nat :=
  let flushing := (s.throttle.calls.any fun (n, phase) =>
    match phase with
    | .flushing .. => s.tasks.any (·.1 = n)
    | _ => false) || match s.throttle.keeper with
      | some (.flushing _) => true
      | _ => false
  (if flushing then [s.flushEnd] else []) ++ match s.throttle.keeper with
    | some (.asleep deadline) => [deadline]
    | _ => []

/-- When the next thing happens while the caller waits. -/
def next (s : Session α) : Option Nat := if s.ready.isEmpty then s.timers.min? else some s.now

/-- The next thing that happens while the caller waits. -/
def step (s : Session α) : Session α :=
  match s.ready with
  | a :: _ => (s.act a).refresh
  | [] => { s with now := (s.timers.min?).getD s.now }.refresh

/-- No more than this happens while the caller waits: a task makes at most
four moves and leads to at most five of the keeper, and before each move
time may pass once. -/
def effort (s : Session α) : Nat := 20 * (s.tasks.length + 1)

/-- Lets others go on until `time`. -/
def passTo (s : Session α) (time : Nat) : Session α :=
  go s.effort s
where
  go : Nat → Session α → Session α
    | 0, s => { s with now := max s.now time }.refresh
    | limit + 1, s =>
      match s.next with
      | some t => if t < time then go limit s.step else { s with now := max s.now time }.refresh
      | none => { s with now := max s.now time }.refresh

/-- Lets others go on until `done` holds and all of them wait; not at all if
it holds already. -/
def await (s : Session α) (done : Throttle α → Bool) : Session α :=
  if done s.throttle then s else go s.effort s
where
  go : Nat → Session α → Session α
    | 0, s => s
    | limit + 1, s =>
      if done s.throttle && s.ready.isEmpty then s
      else if s.next.isNone then s
      else go limit s.step

/-! ## The caller -/

/-- Brings the caller's call to its end. -/
def complete (s : Session α) (n : Nat) : Session α :=
  match s.throttle.phase? n with
  | none => s
  | some .draining => (s.await (·.keeper.isNone)).change (·.leave n)
  | some _ =>
    let s := (s.change (·.join (.call n))).await (·.holds (.call n))
    match s.throttle.enter (.call n) with
    | (throttle, none) => { s with throttle }.refresh
    | (throttle, some value) =>
      let s := ({ s with throttle }.see (.began value)).refresh
      let s := (s.passTo (s.now + s.duration)).finish (.call n) value
      if s.throttle.phase? n = none then s.refresh
      else (s.refresh.await (·.keeper.isNone)).change (·.leave n)

/-- The caller makes a call. -/
def call (s : Session α) (f : Throttle α → Nat → Throttle α) : Session α :=
  let n := s.made
  ({ s with made := n + 1 }.change (f · n)).complete n

def schedule (s : Session α) (value : α) : Session α := s.call (·.schedule · value)

/-- False when it comes too late. -/
def flushNow (s : Session α) (value : α) : Session α × Bool :=
  (s.call (·.flushNow · value), !s.throttle.isClosed)

def close (s : Session α) : Session α := s.call (·.close ·)

def sleep (s : Session α) (duration : Nat) : Session α := s.passTo (s.now + duration)

/-- Starts a task. -/
def spawn (s : Session α) (call : Call α) : Session α :=
  { s with made := s.made + 1, tasks := s.tasks ++ [(s.made, call, false)] }.refresh

end Session

end ReplyStream.Throttle
