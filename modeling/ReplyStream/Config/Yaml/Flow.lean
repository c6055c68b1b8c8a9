/-
Flow collections of YAML: mappings between braces and lists between brackets.
They may go on over several lines, with comments at the ends of those. A line
is indented by at least `least`, unless a scalar reaches into it. No setting is
a list here, so of a list only the form is checked.
-/
import ReplyStream.Config.Setting
import ReplyStream.Config.Yaml.Scalar
import ReplyStream.Config.Yaml.Word

namespace ReplyStream.Config.Yaml

/-- Skips blanks, line breaks and comments. A comment stands behind a blank or
at the beginning of a line, and is indented like anything else. -/
def skipFlow? (least : Nat) : Nat → Bool → List Char → Option (List Char)
  | 0, _, _ => none
  | _, _, [] => none
  | fuel + 1, afterBlank, c :: cs =>
    if c = '\n' then
      let next := (skipEmpty cs).2
      if next = [] ∨ indentOf next < least ∨ isMarker next then none else skipFlow? least fuel true next
    else if isBlank c then skipFlow? least fuel true cs
    else if c = '#' ∧ afterBlank then skipFlow? least fuel false (cs.dropWhile (· != '\n'))
    else some (c :: cs)

/-- What stands next within a flow. -/
def nextFlow? (least : Nat) (cs : List Char) : Option (List Char) :=
  skipFlow? least (cs.length + 1) false cs

/-- A scalar within a flow, and whether it is quoted. -/
def flowScalar? (least : Nat) (cs : List Char) : Option (List Char × Bool × List Char) :=
  match quotedScalar? 0 cs with
  | some (s, rest) => some (s, true, rest)
  | none => (plainScalar? true least cs).map fun (s, rest) => (s, false, rest)

/-- A key within a flow, and whether it is quoted. In front of a colon it may be
missing. -/
def flowKey? (least : Nat) (cs : List Char) : Option (List Char × Bool × List Char) :=
  if atColon true cs then some ([], false, cs) else flowScalar? least cs

/-- What follows the colon behind a key. Right behind it may stand a value
only when the key is quoted. -/
def afterColon? (isQuoted : Bool) (cs : List Char) : Option (List Char) :=
  match cs with
  | ':' :: rest => if isQuoted || atColon true cs then some rest else none
  | _ => none

mutual

/-- One node at the start of a text. -/
def flowNode? (least fuel : Nat) (cs : List Char) : Option (Setting × List Char) :=
  match fuel with
  | 0 => none
  | fuel + 1 =>
    match cs with
    | '\x7b' :: cs => (flowEntries? least fuel cs).map fun (entries, rest) => (.table entries, rest)
    | '[' :: cs => (flowItems? least fuel cs).map fun rest => (.other, rest)
    | cs =>
      (flowScalar? least cs).map fun (s, isQuoted, rest) =>
        (if isQuoted then .text (String.ofList s) else ofWord s, rest)

/-- The value behind a key, which may be missing, up to the mark behind it. -/
def flowValue? (least fuel : Nat) (isQuoted : Bool) (cs : List Char) : Option (Setting × List Char) :=
  match fuel with
  | 0 => none
  | fuel + 1 => do
    let cs ← nextFlow? least cs
    match afterColon? isQuoted cs with
    | none => some (.null, cs)
    | some cs =>
      let cs ← nextFlow? least cs
      if cs.head? = some ',' ∨ cs.head? = some '\x7d' ∨ cs.head? = some ']' then some (.null, cs)
      else
        let (v, cs) ← flowNode? least fuel cs
        some (v, ← nextFlow? least cs)

/-- The entries of a mapping up to its closing brace. -/
def flowEntries? (least fuel : Nat) (cs : List Char) : Option (List (String × Setting) × List Char) :=
  match fuel with
  | 0 => none
  | fuel + 1 => do
    let cs ← nextFlow? least cs
    if cs.head? = some '\x7d' then some ([], cs.tail)
    else
      let (key, isQuoted, cs) ← flowKey? least cs
      let (v, cs) ← flowValue? least fuel isQuoted cs
      match cs with
      | ',' :: cs =>
        let (entries, rest) ← flowEntries? least fuel cs
        some ((String.ofList key, v) :: entries, rest)
      | '\x7d' :: rest => some ([(String.ofList key, v)], rest)
      | _ => none

/-- What follows a list. An item may be a node or a key with its value. -/
def flowItems? (least fuel : Nat) (cs : List Char) : Option (List Char) :=
  match fuel with
  | 0 => none
  | fuel + 1 => do
    let cs ← nextFlow? least cs
    if cs.head? = some ']' then some cs.tail
    else
      let isQuoted := cs.head?.any isQuote
      let (_, cs) ← flowNode? least fuel cs
      let (_, cs) ← flowValue? least fuel isQuoted cs
      match cs with
      | ',' :: cs => flowItems? least fuel cs
      | ']' :: rest => some rest
      | _ => none

end

/-- A flow collection at the start of a text. -/
def flow? (least : Nat) (cs : List Char) : Option (Setting × List Char) :=
  flowNode? least (3 * cs.length + 3) cs

end ReplyStream.Config.Yaml
