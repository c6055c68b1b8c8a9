/-
Scalars of YAML: between double or single quotes, plain, and as blocks of
lines. All but the blocks may go on behind a line break, on lines indented by
at least `least`, which is zero for a quoted one within a flow.
-/
import ReplyStream.Config.Yaml.Line

namespace ReplyStream.Config.Yaml

/-! ## Quoted scalars -/

/-- The character an escape of one letter stands for. -/
def letterEscape? : Char → Option Char
  | '0' => some '\x00'
  | 'a' => some '\x07'
  | 'b' => some '\x08'
  | 't' | '\t' => some '\t'
  | 'n' => some '\n'
  | 'v' => some '\x0b'
  | 'f' => some '\x0c'
  | 'r' => some '\r'
  | 'e' => some '\x1b'
  | ' ' => some ' '
  | '"' => some '"'
  | '/' => some '/'
  | '\\' => some '\\'
  | 'N' => some '\u0085'
  | '_' => some '\u00a0'
  | 'L' => some '\u2028'
  | 'P' => some '\u2029'
  | _ => none

/-- The character behind a backslash. Two escapes of four digits may stand for
the halves of a surrogate pair. -/
def escaped? : List Char → Option (Char × List Char)
  | 'u' :: cs => Json.Reader.unicodeEscape? cs
  | cs => escape? letterEscape? cs

/-- Blanks within a quoted scalar, which count for nothing before a line
break: those that stay, and what follows. -/
def innerBlanks (cs : List Char) : List Char × List Char :=
  let blanks := cs.takeWhile isBlank
  match cs.dropWhile isBlank with
  | '\n' :: rest => ([], '\n' :: rest)
  | rest => (blanks, rest)

/-- The characters up to a closing double quote. -/
def doubleQuoted? (least : Nat) : Nat → List Char → Option (List Char × List Char)
  | 0, _ | _, [] => none
  | fuel + 1, c :: cs =>
    if c = '"' then some ([], cs)
    else if c = '\n' then do
      let (space, next) ← continuation? least cs
      let (s, rest) ← doubleQuoted? least fuel next
      some (space ++ s, rest)
    else if isBlank c then do
      let (blanks, next) := innerBlanks (c :: cs)
      let (s, rest) ← doubleQuoted? least fuel next
      some (blanks ++ s, rest)
    else if c = '\\' then
      match cs with
      | '\n' :: cs => doubleQuoted? least fuel (skipBlanks cs)
      | cs => do
        let (d, next) ← escaped? cs
        let (s, rest) ← doubleQuoted? least fuel next
        some (d :: s, rest)
    else do
      let (s, rest) ← doubleQuoted? least fuel cs
      some (c :: s, rest)

/-- The characters up to a closing single quote; a doubled one stands for
itself. -/
def singleQuoted? (least : Nat) : Nat → List Char → Option (List Char × List Char)
  | 0, _ | _, [] => none
  | fuel + 1, c :: cs =>
    if c = '\'' then
      match cs with
      | '\'' :: cs => do
        let (s, rest) ← singleQuoted? least fuel cs
        some ('\'' :: s, rest)
      | _ => some ([], cs)
    else if c = '\n' then do
      let (space, next) ← continuation? least cs
      let (s, rest) ← singleQuoted? least fuel next
      some (space ++ s, rest)
    else if isBlank c then do
      let (blanks, next) := innerBlanks (c :: cs)
      let (s, rest) ← singleQuoted? least fuel next
      some (blanks ++ s, rest)
    else do
      let (s, rest) ← singleQuoted? least fuel cs
      some (c :: s, rest)

/-- A quoted scalar at the start of a text. -/
def quotedScalar? (least : Nat) : List Char → Option (List Char × List Char)
  | '"' :: cs => doubleQuoted? least (cs.length + 1) cs
  | '\'' :: cs => singleQuoted? least (cs.length + 1) cs
  | _ => none

/-! ## Plain scalars -/

def isQuote (c : Char) : Bool := c == '"' || c == '\''

def isFlowMark (c : Char) : Bool := c == ',' || c == '[' || c == ']' || c == '\x7b' || c == '\x7d'

/-- Whether a word ends here; in a flow its marks end it too. -/
def atEnd (inFlow : Bool) (cs : List Char) : Bool :=
  atGap cs || (inFlow && cs.head?.any isFlowMark)

/-- Whether the colon behind a key stands here. -/
def atColon (inFlow : Bool) : List Char → Bool
  | ':' :: cs => atEnd inFlow cs
  | _ => false

/-- Whether a plain scalar may start here: not with a mark of another kind of
node, nor with a dash, question mark or colon that stands alone. -/
def startsPlain (inFlow : Bool) : List Char → Bool
  | [] => false
  | c :: cs =>
    if c = '-' ∨ c = '?' ∨ c = ':' then !atEnd inFlow cs
    else if c = '|' ∨ c = '>' then inFlow
    else !(atGap [c] || isFlowMark c || isQuote c || c == '#' || c == '&' || c == '*' || c == '!')

/-- What a line has of a plain scalar, and what follows. A comment, the colon
behind a key, and in a flow its marks end it, with the `blanks` before them. On
the first line a colon at the end of the text is part of it. -/
def plainLine (inFlow isFirst : Bool) (blanks : List Char) : List Char → List Char × List Char
  | [] => ([], blanks)
  | c :: cs =>
    let isEnd := c = '\n' ∨ (c = '#' ∧ blanks ≠ []) ∨ (inFlow ∧ isFlowMark c) ∨
      (atColon inFlow (c :: cs) ∧ ¬ (isFirst ∧ cs = []))
    if isBlank c then plainLine inFlow isFirst (blanks ++ [c]) cs
    else if isEnd then ([], blanks ++ c :: cs)
    else
      let (s, rest) := plainLine inFlow isFirst [] cs
      (blanks ++ c :: s, rest)

/-- Goes on with a plain scalar on the next lines. Within a flow no line needs an
indentation, and a scalar that ends at the beginning of a line leaves a blank in
place of the break. -/
def plainLines (inFlow : Bool) (least : Nat) : Nat → List Char → List Char → List Char × List Char
  | 0, s, rest => (s, rest)
  | fuel + 1, s, rest =>
    match skipBlanks rest with
    | '\n' :: after =>
      match plainContinuation? inFlow least after with
      | none => (s, rest)
      | some (space, next) =>
        if next.head? = some '#' ∨ atColon inFlow next ∨ (inFlow ∧ next.head?.any isFlowMark) then
          (s, if inFlow then ' ' :: next else rest)
        else
          let (t, rest) := plainLine inFlow false [] next
          plainLines inFlow least fuel (s ++ space ++ t) rest
    | _ => (s, rest)

/-- A plain scalar at the start of a text. It goes on behind its first line only
if no blank stands at the end of that. -/
def plainScalar? (inFlow : Bool) (least : Nat) (cs : List Char) : Option (List Char × List Char) :=
  if startsPlain inFlow cs then
    let (s, rest) := plainLine inFlow true [] cs
    some (if rest.head?.any isBlank then (s, rest) else plainLines inFlow least cs.length s rest)
  else none

/-! ## Block scalars -/

/-- What becomes of the line breaks at the end of a block. -/
inductive Chomping where
  | strip
  | clip
  | keep
deriving DecidableEq, Repr

/-- What the header of a block says. -/
structure BlockHeader where
  isFolded : Bool
  /-- How far the lines are indented beyond the parent, if it is said. -/
  indent : Option Nat
  chomping : Chomping

/-- Reads the marks behind the one that opens a block, each at most once. -/
def blockHeader? (h : BlockHeader) : List Char → Option (BlockHeader × List Char)
  | [] => some (h, [])
  | c :: cs =>
    if c = '-' ∨ c = '+' then
      if h.chomping ≠ .clip then none
      else blockHeader? { h with chomping := if c = '-' then .strip else .keep } cs
    else if '1' ≤ c ∧ c ≤ '9' then
      if h.indent.isSome then none else blockHeader? { h with indent := some (c.toNat - '0'.toNat) } cs
    else (lineEnd? false (c :: cs)).map fun rest => (h, rest)

/-- The lines of a block, without their indentation, and what follows. -/
def blockLines (indent : Nat) : Nat → List Char → List (List Char) × List Char
  | 0, cs => ([], cs)
  | _, [] => ([], [])
  | fuel + 1, cs =>
    let line := cs.takeWhile (· != '\n')
    let rest := (cs.dropWhile (· != '\n')).tail
    if indent ≤ indentOf line ∨ line.all (· == ' ') then
      if isMarker cs then ([], cs)
      else
        let (more, rest) := blockLines indent fuel rest
        (line.drop indent :: more, rest)
    else ([], cs)

/-- Joins lines: a single break between two lines that are flush becomes a
space, and of more breaks one is lost. -/
def foldLines : List (List Char) → List Char
  | [] => []
  | [line] => line
  | line :: next :: rest =>
    let isFlush (l : List Char) : Bool := !l.isEmpty && !l.head?.any isBlank
    if isFlush line && isFlush next then line ++ ' ' :: foldLines (next :: rest)
    else if isFlush line && next.isEmpty && (rest.dropWhile List.isEmpty).head?.any isFlush then
      line ++ foldLines (next :: rest)
    else line ++ '\n' :: foldLines (next :: rest)

/-- A block of lines behind the mark that opens it. -/
def blockScalar? (isFolded : Bool) (least : Nat) (cs : List Char) : Option (List Char × List Char) := do
  let (h, body) ← blockHeader? ⟨isFolded, none, .clip⟩ cs
  let found := indentOf (skipEmpty body).2
  let indent := match h.indent with
    | some n => least - 1 + n
    | none => max least found
  let (lines, rest) := blockLines indent body.length body
  let trailing := (lines.reverse.takeWhile List.isEmpty).length
  let kept := lines.take (lines.length - trailing)
  let text := if h.isFolded then foldLines kept else List.intercalate ['\n'] kept
  let breaks := match h.chomping with
    | .strip => 0
    | .clip => if kept.isEmpty then 0 else 1
    | .keep => trailing + if kept.isEmpty then 0 else 1
  some (text ++ List.replicate breaks '\n', rest)

end ReplyStream.Config.Yaml
