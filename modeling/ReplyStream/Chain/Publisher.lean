/-
Publishing a reply as a chain of events. A `Publisher` keeps the chain; what
it is asked to do is an `Errand`, which sends one post after another and
stops at the first send that fails. The chain only moves on past sends that
succeeded, so an errand that failed can be run again.

A chain grows at its end: an event that is full is never touched again,
except that a fault is reported in place of the first one.
-/
import ReplyStream.Chain.Link
import ReplyStream.Config.Basic
import ReplyStream.Fault
import ReplyStream.Post

namespace ReplyStream

namespace Publisher

/-- What has been sent, or tried. -/
structure Tally where
  newEvents : Nat
  replacements : Nat
  failures : Nat
  /-- Events that another event continues. -/
  continuations : Nat
deriving DecidableEq, Repr

def Tally.counters (t : Tally) : List (String × Nat) :=
  [("relaybot_publisher_events_total\x7bkind=new\x7d", t.newEvents),
   ("relaybot_publisher_events_total\x7bkind=replacement\x7d", t.replacements),
   ("relaybot_publisher_failures_total", t.failures),
   ("relaybot_publisher_continuations_total", t.continuations)]

end Publisher

structure Publisher where
  room : String
  agent : String
  /-- The most bytes of reasoning and answer one event carries. -/
  ceiling : Nat
  /-- The reasoning of the opening event. -/
  thinking : String
  chain : List Link
  tally : Publisher.Tally

/-- What a publisher sends in one go. -/
inductive Errand where
  /-- The opening event, before there is any output. -/
  | opening
  /-- A reply: each part in an event that is continued, then the rest. -/
  | publish (reply : Reply) (parts : List Part)
  /-- A fault, in place of the first event. -/
  | report (text : String)
deriving DecidableEq, Repr

/-- How many posts an errand sends if none fails. -/
def Errand.posts : Errand → Nat
  | .publish _ parts => parts.length + 1
  | .opening | .report _ => 1

namespace Publisher

/-- What comes of a send: more to send, or the end of the errand, with the id
of the last event. -/
inductive Progress where
  | next (e : Errand)
  | ended (result : Except TransportFault String)

def new (room agent : String) (c : Config.Publishing) : Publisher :=
  ⟨room, agent, max c.eventSizeMax 1, c.thinkingMessage, [], ⟨0, 0, 0, 0⟩⟩

/-! ## The chain -/

/-- The event the chain begins with, once it has been sent. -/
def firstId (p : Publisher) : Option String := p.chain.head?.bind (·.eventId)

/-- The link that grows. -/
def last (p : Publisher) : Link := p.chain.getLast?.getD .first

/-- The event the last link continues. -/
def previousId (p : Publisher) : Option String := p.chain.dropLast.getLast?.bind (·.eventId)

/-- The events of the chain that have been sent. -/
def eventIds (p : Publisher) : List String := p.chain.filterMap (·.eventId)

/-- Puts links in place of the last one. -/
def withLast (p : Publisher) (links : List Link) : Publisher :=
  { p with chain := p.chain.dropLast ++ links }

/-! ## What is sent -/

/-- A message with the given texts. -/
def message (p : Publisher) (part : Part) (finished : Bool) : Message :=
  { (Message.reply (String.ofList part.answer)).withAgent p.agent with
    reasoning := some (String.ofList part.reasoning), finished }

/-- The message as a new event, or in place of `target`. -/
def address (target : Option String) (m : Message) : Post :=
  ⟨target, { m with relatesTo := target.map .replace }⟩

/-- What an errand sends next. Only the last event of a reply carries its
tool calls and tells whether it is finished. -/
def post (p : Publisher) : Errand → Post
  | .opening => address none (p.message ⟨p.thinking.toList, []⟩ false)
  | .publish _ (part :: _) =>
    address p.last.eventId
      { p.message part true with
        hasContinuation := some true
        continuationOf := p.previousId }
  | .publish reply [] =>
    address p.last.eventId
      { p.message (p.last.remainder reply) reply.isFinished with
        isCanceled := if reply.isCanceled then some true else none
        commands := reply.toolCalls.map (·.encode)
        continuationOf := if p.last.continued then p.last.eventId else p.previousId }
  | .report text =>
    address p.firstId
      { p.message ⟨[], Message.errorBody.toList⟩ true with
        reasoning := none
        errorMessage := some text }

/-! ## What comes of it -/

/-- Counts a post that is being sent. -/
def counted (p : Publisher) (post : Post) : Publisher :=
  match post.target with
  | none => { p with tally.newEvents := p.tally.newEvents + 1 }
  | some _ => { p with tally.replacements := p.tally.replacements + 1 }

/-- Takes the id of the opening event. -/
def opened (p : Publisher) (id : String) : Publisher :=
  match p.chain with
  | [] => { p with chain := [{ Link.first with eventId := some id }] }
  | first :: rest => { p with chain := { first with eventId := some id } :: rest }

/-- The last link with `part` sent as event `id`, unless it has an id already. -/
def filled (p : Publisher) (part : Part) (id : String) : Link :=
  let link := p.last.markSent (Text.byteLength part.reasoning) (Text.byteLength part.answer)
  { link with eventId := some (link.eventId.getD id) }

/-- Takes what came of the post of an errand. -/
def heard (p : Publisher) (e : Errand) (result : Except TransportFault String) : Publisher × Progress :=
  match result with
  | .error fault =>
    ({ p with tally.failures := p.tally.failures + 1 }, .ended (.error fault))
  | .ok id =>
    match e with
    | .opening => (p.opened id, .ended (.ok id))
    | .publish reply (part :: parts) =>
      let link := { p.filled part id with continued := true }
      ({ p.withLast [link, link.next] with tally.continuations := p.tally.continuations + 1 },
        .next (.publish reply parts))
    | .publish reply [] => (p.withLast [p.filled (p.last.remainder reply) id], .ended (.ok id))
    | .report _ => (p, .ended (.ok id))

/-! ## Errands -/

/-- The errand of a reply. A chain without links gets its first, whatever
becomes of the errand. -/
def publishing (p : Publisher) (reply : Reply) : Publisher × Errand :=
  let p := if p.chain.isEmpty then { p with chain := [.first] } else p
  let rest := p.last.remainder reply
  let (parts, _) := p.last.split reply p.ceiling (rest.reasoning.length + rest.answer.length)
  (p, .publish reply parts)

/-- Every post brings an errand nearer to its end. -/
theorem posts_lt_of_heard_next {p q : Publisher} {e f : Errand} {result : Except TransportFault String}
    (h : p.heard e result = (q, .next f)) : f.posts < e.posts := by
  unfold heard at h
  split at h
  · simp at h
  · split at h <;> simp at h
    obtain ⟨-, rfl⟩ := h
    simp [Errand.posts]

variable {σ : Type}

/-- Carries an errand out, with the given way to send a post. -/
def run (send : σ → Post → σ × Except TransportFault String) (s : σ) (p : Publisher) (e : Errand) :
    σ × Publisher × Except TransportFault String :=
  let (s, result) := send s (p.post e)
  match _ : (p.counted (p.post e)).heard e result with
  | (p, .next e) => run send s p e
  | (p, .ended result) => (s, p, result)
termination_by e.posts
decreasing_by exact posts_lt_of_heard_next ‹_›

/-- Sends the opening event, unless the chain has begun: its id. -/
def openUp (send : σ → Post → σ × Except TransportFault String) (s : σ) (p : Publisher) :
    σ × Publisher × Except TransportFault String :=
  match p.firstId with
  | some id => (s, p, .ok id)
  | none => p.run send s .opening

/-- Sends posts until the chain shows the reply. -/
def publish (send : σ → Post → σ × Except TransportFault String) (s : σ) (p : Publisher)
    (reply : Reply) : σ × Publisher × Except TransportFault String :=
  let (p, e) := p.publishing reply
  p.run send s e

/-- Reports a fault in place of the first event. -/
def report (send : σ → Post → σ × Except TransportFault String) (s : σ) (p : Publisher)
    (text : String) : σ × Publisher × Except TransportFault String :=
  p.run send s (.report text)

end Publisher

end ReplyStream
