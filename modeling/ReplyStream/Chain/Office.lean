/-
A publisher and those who want something of it. Requests are served one at a
time and in the order in which they were made; each waits until all before it
are done, so the posts of two requests never mix.

`move` is one move of the office: it takes up the first request, or ends the
send that is under way.
-/
import ReplyStream.Chain.Publisher
import ReplyStream.Room.Wire

namespace ReplyStream

/-- What is wanted of a publisher. -/
inductive Request where
  | opening
  | publish (reply : Reply)
  | report (text : String)
  /-- To see the chain. -/
  | links
deriving DecidableEq, Repr

namespace Request

/-- What comes of a request. That a report failed is nobody's concern. -/
inductive Answer where
  | opened (result : Except TransportFault String)
  | published (result : Except TransportFault Unit)
  | reported
  | links (chain : List Link)

/-- Serving the request takes no more moves than this. -/
def effort : Request → Nat
  | .opening | .report _ => 2
  | .publish reply => reply.reasoning.length + reply.answer.length + 2
  | .links => 1

end Request

/-- The answer to the request behind an errand that has ended. -/
def Errand.answer (result : Except TransportFault String) : Errand → Request.Answer
  | .opening => .opened result
  | .publish .. => .published (result.map fun _ => ())
  | .report _ => .reported

/-- `κ` tells apart those who ask. -/
structure Office (κ : Type) where
  publisher : Publisher
  /-- Who waits for what; the first is served. -/
  line : List (κ × Request)
  /-- The errand whose next post is on its way, and when it gets there. -/
  sending : Option (Errand × Nat)

namespace Office

variable {κ : Type}

def new (p : Publisher) : Office κ := ⟨p, [], none⟩

def ask (o : Office κ) (who : κ) (request : Request) : Office κ :=
  { o with line := o.line ++ [(who, request)] }

/-- When the next move is due. -/
def due (o : Office κ) (now : Nat) : Option Nat :=
  match o.sending with
  | some (_, arrival) => some (max arrival now)
  | none => if o.line.isEmpty then none else some now

/-- Serving those in a line takes no more moves than this. -/
def lineEffort : List (κ × Request) → Nat
  | [] => 0
  | (_, q) :: line => q.effort + lineEffort line

/-- Serving all requests takes no more moves than this. -/
def effort (o : Office κ) : Nat :=
  match o.sending with
  | some (e, _) => e.posts + lineEffort o.line.tail
  | none => lineEffort o.line

/-- What a move leads to: the office, the wire, and an answer if there is one. -/
abbrev Moved (κ : Type) := Office κ × Wire × Option (κ × Request.Answer)

/-- Answers the first in line. -/
def answered (o : Office κ) (w : Wire) (answer : Request.Answer) : Moved κ :=
  ({ o with line := o.line.tail, sending := none }, w, o.line.head?.map fun (who, _) => (who, answer))

/-- Puts the next post of an errand on its way. -/
def dispatch (o : Office κ) (w : Wire) (now : Nat) (e : Errand) : Moved κ :=
  let post := o.publisher.post e
  let p := o.publisher.counted post
  match w.begin now post with
  | (w, .ok duration) => ({ o with publisher := p, sending := some (e, now + duration) }, w, none)
  | (w, .error fault) =>
    answered { o with publisher := (p.heard e (.error fault)).1 } w (e.answer (.error fault))

/-- Takes up a request. -/
def start (o : Office κ) (w : Wire) (now : Nat) : Request → Moved κ
  | .opening =>
    match o.publisher.firstId with
    | some id => answered o w (.opened (.ok id))
    | none => dispatch o w now .opening
  | .publish reply =>
    let (publisher, e) := o.publisher.publishing reply
    dispatch { o with publisher } w now e
  | .report text => dispatch o w now (.report text)
  | .links => answered o w (.links o.publisher.chain)

/-- The next move, at time `now`. -/
def move (o : Office κ) (w : Wire) (now : Nat) : Moved κ :=
  match o.sending with
  | some (e, _) =>
    let (w, result) := w.deliver now o.publisher.room (o.publisher.post e)
    match o.publisher.heard e result with
    | (publisher, .next e) => dispatch { o with publisher } w now e
    | (publisher, .ended result) => answered { o with publisher } w (e.answer result)
  | none =>
    match o.line with
    | [] => (o, w, none)
    | (_, q) :: _ => start o w now q

/-- Serves all who wait, from time `now` on: when the last is done, and the
answers in order. -/
def serve (limit : Nat) (o : Office κ) (w : Wire) (now : Nat) :
    Office κ × Wire × Nat × List (κ × Request.Answer) :=
  match limit with
  | 0 => (o, w, now, [])
  | limit + 1 =>
    match o.due now with
    | none => (o, w, now, [])
    | some time =>
      let (o, w, answer) := o.move w time
      let (o, w, now, answers) := serve limit o w time
      (o, w, now, answer.toList ++ answers)

/-- Serves all who wait. -/
def serveAll (o : Office κ) (w : Wire) (now : Nat) :
    Office κ × Wire × Nat × List (κ × Request.Answer) :=
  serve o.effort o w now

end Office

end ReplyStream
