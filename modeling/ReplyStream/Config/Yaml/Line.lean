/-
Lines of a YAML text. A column is a number of bytes from the last line feed;
a carriage return breaks a line too, but does not go back to the first column,
and `unify` puts as many spaces behind it instead. A line with nothing but
blanks and a comment counts for nothing (`skipLines`), and a text that goes on
behind a line break is folded: one break becomes a space, and of several all
but the first stay (`folded`).
-/
import ReplyStream.Config.Text

namespace ReplyStream.Config.Yaml

/-- Every line break as a line feed. What stands behind a lone carriage return
keeps its column. -/
def unify (column : Nat) : List Char → List Char
  | [] => []
  | '\n' :: cs | '\r' :: '\n' :: cs => '\n' :: unify 0 cs
  | '\r' :: cs => '\n' :: (List.replicate (column + 1) ' ' ++ unify (column + 1) cs)
  | c :: cs => c :: unify (column + c.utf8Size) cs

/-- Whether a word ends here. -/
def atGap : List Char → Bool
  | [] => true
  | c :: _ => isBlank c || c == '\n'

/-- How many spaces a line begins with. -/
def indentOf (cs : List Char) : Nat := (cs.takeWhile (· == ' ')).length

/-- Whether the line begins or ends a document. -/
def isMarker (cs : List Char) : Bool :=
  match cs with
  | '-' :: '-' :: '-' :: rest | '.' :: '.' :: '.' :: rest => atGap rest
  | _ => false

/-- What follows a line of which nothing but blanks and a comment is left. A
comment stands behind a blank. -/
def lineEnd? (afterBlank : Bool) : List Char → Option (List Char)
  | [] => some []
  | c :: cs =>
    if c = '\n' then some cs
    else if isBlank c then lineEnd? true cs
    else if c = '#' ∧ afterBlank then some (cs.dropWhile (· != '\n')).tail
    else none

/-- From the beginning of a line on: the next line that counts. -/
def skipLines (cs : List Char) : List Char := go cs.length cs
where
  go : Nat → List Char → List Char
    | 0, cs => cs
    | fuel + 1, cs =>
      match lineEnd? true cs with
      | some rest => go fuel rest
      | none => cs

/-- From the beginning of a line on: the next line that is not blank, and how
many blank ones come before it. -/
def skipEmpty (cs : List Char) : Nat × List Char := go cs.length cs
where
  go : Nat → List Char → Nat × List Char
    | 0, cs => (0, cs)
    | fuel + 1, cs =>
      match skipBlanks cs with
      | [] => (0, [])
      | '\n' :: rest => let (n, next) := go fuel rest; (n + 1, next)
      | _ => (0, cs)

/-- What stands for line breaks, `count` of which come behind the first. -/
def folded (count : Nat) : List Char := if count = 0 then [' '] else List.replicate count '\n'

/-- Where a quoted text goes on behind a line break, and what stands for the
break. Within a block the line is indented by at least `least`, and no tab comes
first. -/
def continuation? (least : Nat) (cs : List Char) : Option (List Char × List Char) :=
  let (count, next) := skipEmpty cs
  let width := (next.takeWhile isBlank).length
  if next = [] ∨ isMarker next ∨ (0 < least ∧ (width < least ∨ next.head? = some '\t')) then none
  else some (folded count, skipBlanks next)

/-- Where a plain text goes on behind a line break, and what stands for the
break. The line is indented by at least `least` spaces; within a flow it need
not be, unless a tab comes next. -/
def plainContinuation? (inFlow : Bool) (least : Nat) (cs : List Char) : Option (List Char × List Char) :=
  let (count, next) := skipEmpty cs
  let content := next.drop (indentOf next)
  let isShort := indentOf next < least ∧ (!inFlow ∨ content.head? = some '\t')
  if next = [] ∨ isMarker next ∨ isShort then none
  else some (folded count, skipBlanks next)

end ReplyStream.Config.Yaml
