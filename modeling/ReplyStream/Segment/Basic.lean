/-
Free text with commands in it. A command is a block between two delimiters;
the text around the blocks is shown while it streams. A `Splitter` takes the
text token by token and answers with segments.

A delimiter may be cut anywhere by the end of a token. So the end of what was
read is held back as long as it may still become the delimiter looked for
(`holdBack`), and is read again in front of the next token (`feed`).
-/
import ReplyStream.Text.Blank

namespace ReplyStream

inductive SegmentKind where
  | text
  | command
deriving DecidableEq, Repr

/-- A text segment carries all text since the last block. -/
structure Segment where
  kind : SegmentKind
  content : List Char
deriving DecidableEq, Repr

structure Delimiters where
  opening : List Char
  closing : List Char
deriving DecidableEq, Repr

def Delimiters.ofStrings (opening closing : String) : Delimiters := ⟨opening.toList, closing.toList⟩

/-- Splits a text around the first occurrence of a delimiter: what stands
before it and what behind it. An empty delimiter occurs nowhere. -/
def cut (delimiter : List Char) : List Char → Option (List Char × List Char)
  | [] => none
  | c :: s =>
    if !delimiter.isEmpty && delimiter.isPrefixOf (c :: s) then some ([], (c :: s).drop delimiter.length)
    else (cut delimiter s).map fun (before, behind) => (c :: before, behind)

theorem length_lt_of_cut {delimiter s before behind : List Char} (h : cut delimiter s = some (before, behind)) :
    behind.length < s.length := by
  induction s generalizing before with
  | nil => cases h
  | cons c s ih =>
    rw [cut] at h
    split at h
    next hfound =>
      have hpos : 0 < delimiter.length := List.length_pos_iff.2 (by simp_all)
      cases h
      rw [List.length_drop, List.length_cons]
      omega
    next =>
      obtain ⟨⟨before', behind'⟩, hcut, heq⟩ := Option.map_eq_some_iff.1 h
      cases heq
      exact Nat.lt_succ_of_lt (ih hcut)

/-- Whether `s` is a proper initial part of `delimiter`. -/
def isProperStart (delimiter s : List Char) : Bool :=
  s.isPrefixOf delimiter && s.length < delimiter.length

/-- Splits a text before its longest ending that may still become the
delimiter. -/
def holdBack (delimiter : List Char) : List Char → List Char × List Char
  | [] => ([], [])
  | c :: s =>
    if isProperStart delimiter (c :: s) then ([], c :: s)
    else
      let (released, held) := holdBack delimiter s
      (c :: released, held)

structure Splitter where
  delimiters : Delimiters
  inBlock : Bool
  /-- The end of what was read, as far as it may become the delimiter. -/
  held : List Char
  /-- The text since the last block. -/
  text : List Char
  /-- The open block so far. -/
  block : List Char
  /-- Whether the text has grown visibly since it was last shown. -/
  hasGrown : Bool
deriving DecidableEq, Repr

namespace Splitter

def new (delimiters : Delimiters) : Splitter := ⟨delimiters, false, [], [], [], false⟩

/-- The delimiter looked for. -/
def delimiter (s : Splitter) : List Char :=
  if s.inBlock then s.delimiters.closing else s.delimiters.opening

/-- Puts characters into the block or the running text. -/
def release (s : Splitter) (cs : List Char) : Splitter :=
  if s.inBlock then { s with block := s.block ++ cs }
  else { s with text := s.text ++ cs, hasGrown := s.hasGrown || !Text.isBlankText cs }

/-- Shows the running text if it has grown visibly. -/
def showText (s : Splitter) : Splitter × List Segment :=
  if s.hasGrown then ({ s with hasGrown := false }, [⟨.text, s.text⟩]) else (s, [])

/-- The delimiter is complete: a block ends, or the text does and a block
begins. -/
def turn (s : Splitter) : Splitter × List Segment :=
  if s.inBlock then ({ s with inBlock := false, block := [] }, [⟨.command, s.block⟩])
  else
    let (s, shown) := s.showText
    ({ s with inBlock := true, text := [], hasGrown := false }, shown)

/-- Reads a text: up to the delimiter looked for, then on behind it for the
other one. When there is none, the end is held back. -/
def read (s : Splitter) (input : List Char) : Splitter × List Segment :=
  match _h : cut s.delimiter input with
  | some (before, behind) =>
    let (s, first) := (s.release before).turn
    let (s, rest) := s.read behind
    (s, first ++ rest)
  | none =>
    let (released, held) := holdBack s.delimiter input
    ({ s.release released with held }, [])
termination_by input.length
decreasing_by exact length_lt_of_cut _h

/-- Reads a token behind what was held back; what came to the running text is
shown behind it. -/
def feed (s : Splitter) (token : List Char) : Splitter × List Segment :=
  let (s, segments) := { s with held := [] }.read (s.held ++ token)
  if s.inBlock then (s, segments)
  else
    let (s, shown) := s.showText
    (s, segments ++ shown)

/-- The end of the text: what was held back is text after all, and an open
block is dropped. -/
def finish (s : Splitter) : List Segment :=
  if s.inBlock then [] else (s.release s.held).showText.2

/-- The segments of a list of tokens, each with the number of tokens read
when it came out. -/
def run (s : Splitter) (count : Nat) : List (List Char) → List (Nat × Segment)
  | [] => s.finish.map (count, ·)
  | token :: tokens =>
    let (s, segments) := s.feed token
    segments.map (count + 1, ·) ++ s.run (count + 1) tokens

end Splitter

/-- The segments of a stream of tokens. -/
def segments (delimiters : Delimiters) (tokens : List (List Char)) : List Segment :=
  ((Splitter.new delimiters).run 0 tokens).map (·.2)

end ReplyStream
