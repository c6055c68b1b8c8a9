/-
A reply too long for one event is published as a chain of events. A `Link`
is the book-keeping for one of them: which event it is and which bytes of
the reasoning and of the answer it carries.

`carve` takes as much of what is left as fits under a ceiling, the reasoning
first; it cuts between characters and takes at least one, so that a ceiling
below the width of a character cannot stall the split.
-/
import ReplyStream.Draft.Basic
import ReplyStream.Text.Bytes

namespace ReplyStream

/-- A range of bytes. -/
structure Span where
  start : Nat
  stop : Nat
deriving DecidableEq, Repr

namespace Span

/-- The empty range at `n`. -/
def point (n : Nat) : Span := ⟨n, n⟩

/-- The range of `length` bytes from the same start. -/
def resize (s : Span) (length : Nat) : Span := { s with stop := s.start + length }

end Span

/-- Two pieces of text, of the reasoning and of the answer. -/
structure Part where
  reasoning : List Char
  answer : List Char
deriving DecidableEq, Repr

/-- The bytes of both. -/
def Part.size (p : Part) : Nat := Text.byteLength p.reasoning + Text.byteLength p.answer

/-- The longest leading part of at most `ceiling` bytes, reasoning first; the
first character when not even that fits. -/
def Part.carve (rest : Part) (ceiling : Nat) : Part :=
  let reasoning := Text.takeBytes ceiling rest.reasoning
  let answer := Text.takeBytes (ceiling - Text.byteLength reasoning) rest.answer
  if reasoning = [] ∧ answer = [] then
    match rest.reasoning with
    | first :: _ => ⟨[first], []⟩
    | [] => ⟨[], rest.answer.take 1⟩
  else ⟨reasoning, answer⟩

structure Link where
  /-- The event, once it has been sent. -/
  eventId : Option String
  /-- The bytes of the reasoning that have been sent with it. -/
  reasoning : Span
  /-- The bytes of the answer that have been sent with it. -/
  answer : Span
  /-- Whether another link follows. -/
  continued : Bool
deriving DecidableEq, Repr

namespace Link

/-- The first link of a chain: nothing sent yet. -/
def first : Link := ⟨none, .point 0, .point 0, false⟩

/-- What earlier links have not claimed. -/
def remainder (l : Link) (r : Reply) : Part :=
  ⟨Text.dropBytes l.reasoning.start r.reasoning.toList, Text.dropBytes l.answer.start r.answer.toList⟩

/-- Whether what is left needs another link. -/
def exceeds (l : Link) (r : Reply) (ceiling : Nat) : Bool := ceiling < (l.remainder r).size

/-- What this link can carry of what is left. -/
def carve (l : Link) (r : Reply) (ceiling : Nat) : Part := (l.remainder r).carve ceiling

/-- Records how many bytes have been sent. -/
def markSent (l : Link) (reasoning answer : Nat) : Link :=
  { l with reasoning := l.reasoning.resize reasoning, answer := l.answer.resize answer }

/-- The link that begins where this one ends. -/
def next (l : Link) : Link := ⟨none, .point l.reasoning.stop, .point l.answer.stop, false⟩

/-- The link behind this one when `part` has been sent with it. -/
def advance (l : Link) (part : Part) : Link :=
  (l.markSent (Text.byteLength part.reasoning) (Text.byteLength part.answer)).next

/-- Carves until the rest fits, at most `rounds` times: the parts, and the
link that is left. -/
def split (r : Reply) (ceiling : Nat) : Nat → Link → List Part × Link
  | 0, l => ([], l)
  | rounds + 1, l =>
    if l.exceeds r ceiling then
      let part := l.carve r ceiling
      let (parts, last) := split r ceiling rounds (l.advance part)
      (part :: parts, last)
    else ([], l)

end Link

end ReplyStream
