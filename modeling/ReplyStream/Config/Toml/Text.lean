/-
Lines and strings of TOML. A line ends with a line feed, before which a
carriage return may stand. Neither comments nor strings hold control
characters, the tab excepted.
-/
import ReplyStream.Config.Text

namespace ReplyStream.Config.Toml

/-! ## Lines -/

/-- Whether a character may stand in a comment or a string as it is. -/
def isPrintable (c : Char) : Bool := c == '\t' || (0x20 ≤ c.toNat && c.toNat ≠ 0x7F)

/-- What follows the line break that stands here. -/
def newline? : List Char → Option (List Char)
  | '\n' :: cs | '\r' :: '\n' :: cs => some cs
  | _ => none

/-- Where the line ends when nothing but blanks and a comment is left of it. -/
def skipComment (cs : List Char) : List Char :=
  match skipBlanks cs with
  | '#' :: cs => cs.dropWhile isPrintable
  | cs => cs

/-- What follows a line of which nothing but blanks and a comment is left. -/
def lineEnd? (cs : List Char) : Option (List Char) :=
  match skipComment cs with
  | [] => some []
  | cs => newline? cs

/-- Skips blanks, comments and line breaks. -/
def skipGap (cs : List Char) : List Char := go cs.length cs
where
  go : Nat → List Char → List Char
    | 0, cs => cs
    | fuel + 1, cs =>
      match newline? (skipComment cs) with
      | some rest => go fuel rest
      | none => skipBlanks cs

/-! ## Strings -/

/-- The character an escape of one letter stands for. -/
def letterEscape? : Char → Option Char
  | 'b' => some '\x08'
  | 't' => some '\t'
  | 'n' => some '\n'
  | 'f' => some '\x0c'
  | 'r' => some '\r'
  | 'e' => some '\x1b'
  | '"' => some '"'
  | '\\' => some '\\'
  | _ => none

/-- How a string is written. -/
structure Quoting where
  mark : Char
  /-- Whether a backslash begins an escape. -/
  escapes : Bool
  /-- Whether three marks stand on either side, and line breaks between. -/
  multiline : Bool

/-- What follows the end of a string at this place, and the marks before that
end which belong to the string: up to two may stand there when three end it. -/
def closing? (q : Quoting) (cs : List Char) : Option (List Char × List Char) :=
  let marks := (cs.takeWhile (· == q.mark)).length
  if q.multiline then
    if marks < 3 then none
    else some (List.replicate (min (marks - 3) 2) q.mark, cs.drop (min marks 5))
  else if marks = 0 then none
  else some ([], cs.drop 1)

/-- What follows a backslash at the end of a line: blanks and line breaks count
for nothing up to the next other character. -/
def joined? (cs : List Char) : Option (List Char) :=
  (newline? (skipBlanks cs)).map fun rest => skipAll rest.length rest
where
  skipAll : Nat → List Char → List Char
    | 0, cs => cs
    | fuel + 1, cs =>
      match newline? (skipBlanks cs) with
      | some rest => skipAll fuel rest
      | none => skipBlanks cs

/-- The characters up to the end of a string. A line break is a line feed. -/
def body? (q : Quoting) : Nat → List Char → Option (List Char × List Char)
  | 0, _ => none
  | fuel + 1, cs =>
    match closing? q cs, cs with
    | some found, _ => some found
    | none, [] => none
    | none, c :: cs =>
      if c = '\\' ∧ q.escapes then
        match if q.multiline then joined? cs else none with
        | some rest => body? q fuel rest
        | none =>
          match escape? letterEscape? cs with
          | none => none
          | some (d, rest) => (body? q fuel rest).map fun (s, rest) => (d :: s, rest)
      else if isPrintable c then (body? q fuel cs).map fun (s, rest) => (c :: s, rest)
      else
        match if q.multiline then newline? (c :: cs) else none with
        | none => none
        | some rest => (body? q fuel rest).map fun (s, rest) => ('\n' :: s, rest)

/-- A string at the start of a text, which may only go on over several lines
when `multiline` says so. A line break right behind the opening marks is not
part of it. -/
def string? (multiline : Bool) (cs : List Char) : Option (String × List Char) :=
  match cs with
  | [] => none
  | mark :: cs =>
    if mark = '"' ∨ mark = '\'' then
      let many := multiline && cs.take 2 == [mark, mark]
      let rest := if many then (newline? (cs.drop 2)).getD (cs.drop 2) else cs
      (body? ⟨mark, mark == '"', many⟩ (rest.length + 1) rest).map fun (s, rest) => (String.ofList s, rest)
    else none

/-! ## Keys -/

def isBareKey (c : Char) : Bool := c.isAlphanum || c == '_' || c == '-'

/-- One part of a key: a word, or a string on one line. -/
def keyPart? (cs : List Char) : Option (String × List Char) :=
  match cs.takeWhile isBareKey with
  | [] => string? false cs
  | word => some (String.ofList word, cs.dropWhile isBareKey)

/-- A key of parts with dots between them, and what follows it: the parts
before the last one, and the last one. -/
def key? (cs : List Char) : Option ((List String × String) × List Char) := go (cs.length + 1) cs
where
  go : Nat → List Char → Option ((List String × String) × List Char)
    | 0, _ => none
    | fuel + 1, cs =>
      match keyPart? (skipBlanks cs) with
      | none => none
      | some (part, cs) =>
        match skipBlanks cs with
        | '.' :: cs => (go fuel cs).map fun ((path, last), rest) => ((part :: path, last), rest)
        | cs => some (([], part), cs)

end ReplyStream.Config.Toml
