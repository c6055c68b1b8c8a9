/-
YAML documents. The lines of a mapping have one indentation, and what belongs
to a key is indented deeper; a list may stand at the indentation of its key.
The value of a key stands on its line or begins on the next one.
-/
import ReplyStream.Config.Yaml.Flow

namespace ReplyStream.Config.Yaml

/-- Whether an item of a list begins here. -/
def isItem (cs : List Char) : Bool :=
  match cs with
  | '-' :: rest => atGap rest
  | _ => false

/-- A key at the start of a line, and what follows the colon behind it. Keys
do not go on behind a line break, and a key may be missing. -/
def key? (cs : List Char) : Option (List Char × List Char) := do
  let line := cs.takeWhile (· != '\n')
  let (key, rest) ← if line.head?.any isQuote then
      (quotedScalar? 0 line).map fun (s, rest) => (s, skipBlanks rest ++ cs.drop line.length)
    else if startsPlain false cs then
      let (s, rest) := plainLine false true [] cs
      some (s, skipBlanks rest)
    else some ([], cs)
  if atColon false rest then some (key, rest.tail) else none

/-- A node that begins within a line: what it is, and the next line that
counts. Nothing but a comment stands behind it. -/
def inline? (least : Nat) (cs : List Char) : Option (Setting × List Char) := do
  let (v, rest) ← match cs with
    | '|' :: body => (blockScalar? false least body).map fun (s, rest) => (.text (String.ofList s), '\n' :: rest)
    | '>' :: body => (blockScalar? true least body).map fun (s, rest) => (.text (String.ofList s), '\n' :: rest)
    | '\x7b' :: _ | '[' :: _ => flow? least cs
    | _ =>
      if cs.head?.any isQuote then
        (quotedScalar? least cs).map fun (s, rest) => (.text (String.ofList s), rest)
      else (plainScalar? false least cs).map fun (s, rest) => (ofWord s, rest)
  let next ← lineEnd? false rest
  some (v, skipLines next)

/-- Whether a document ends at this line. -/
def isDone (cs : List Char) : Bool := cs.isEmpty || isMarker cs

mutual

/-- The node that begins at this line, and the next line that counts behind
it. -/
def node? (least : Nat) (fuel : Nat) (cs : List Char) : Option (Setting × List Char) :=
  match fuel with
  | 0 => none
  | fuel + 1 =>
    let content := cs.drop (indentOf cs)
    if isItem content then (items? (indentOf cs) fuel cs).map fun rest => (.other, rest)
    else if (key? content).isSome then
      (entries? (indentOf cs) fuel cs).map fun (entries, rest) => (.table entries, rest)
    else inline? least (skipBlanks content)

/-- The entries of a mapping from this line on. A line that is indented deeper
belongs to none. -/
def entries? (indent : Nat) (fuel : Nat) (cs : List Char) : Option (List (String × Setting) × List Char) :=
  match fuel with
  | 0 => none
  | fuel + 1 => do
    let (key, rest) ← key? (cs.drop indent)
    let (v, next) ← value? indent fuel rest
    if isDone next ∨ indentOf next < indent then some ([(String.ofList key, v)], next)
    else if indent < indentOf next then none
    else
      let (entries, rest) ← entries? indent fuel next
      some ((String.ofList key, v) :: entries, rest)

/-- What stands behind the colon of a key. -/
def value? (indent : Nat) (fuel : Nat) (cs : List Char) : Option (Setting × List Char) :=
  match fuel with
  | 0 => none
  | fuel + 1 =>
    match lineEnd? false cs with
    | none => inline? (indent + 1) (skipBlanks cs)
    | some after =>
      let next := skipLines after
      if isDone next then some (.null, next)
      else if indent < indentOf next then node? (indent + 1) fuel next
      else if indentOf next = indent ∧ isItem (next.drop indent) then
        (items? indent fuel next).map fun rest => (.other, rest)
      else some (.null, next)

/-- What follows the items of a list. The node behind a dash is read as if the
dash were a blank. -/
def items? (indent : Nat) (fuel : Nat) (cs : List Char) : Option (List Char) :=
  match fuel with
  | 0 => none
  | fuel + 1 => do
    let content := cs.drop (indent + 1)
    let next ← match lineEnd? false content with
      | none => (node? (indent + 1) fuel (List.replicate (indent + 1) ' ' ++ content)).map (·.2)
      | some after =>
        let next := skipLines after
        if isDone next ∨ indentOf next ≤ indent then some next
        else (node? (indent + 1) fuel next).map (·.2)
    if isDone next ∨ indentOf next < indent then some next
    else if indentOf next = indent then
      if isItem (next.drop indent) then items? indent fuel next else some next
    else none

end

/-! ## Documents -/

/-- Whether a document begins with directives, and the line behind them. -/
def skipDirectives (cs : List Char) : Bool × List Char := go cs.length false (skipLines cs)
where
  go : Nat → Bool → List Char → Bool × List Char
    | 0, found, cs => (found, cs)
    | fuel + 1, found, cs =>
      if cs.head? = some '%' then go fuel true (skipLines (cs.dropWhile (· != '\n')).tail) else (found, cs)

/-- The node of a document, and what follows. Behind directives the document
begins with a marker. -/
def body? (cs : List Char) : Option (Setting × List Char) :=
  let (directed, start) := skipDirectives cs
  let block (cs : List Char) : Option (Setting × List Char) :=
    if isDone cs then some (.null, cs) else node? 0 (3 * cs.length + 3) cs
  match start with
  | '-' :: '-' :: '-' :: rest =>
    if isMarker start then
      match lineEnd? false rest with
      | some after => block (skipLines after)
      | none => inline? 0 (skipBlanks rest)
    else if directed then none
    else block start
  | _ => if directed then none else block start

/-- Whether nothing but the end of a document is left. -/
def isFinished (cs : List Char) : Bool :=
  match cs with
  | [] => true
  | '.' :: '.' :: '.' :: rest => isMarker cs && (lineEnd? false rest).any fun next => (skipLines next).isEmpty
  | _ => false

/-- A byte order mark moves the first line by as many columns as it has
bytes. -/
def shift (cs : List Char) : List Char :=
  match cs with
  | '\ufeff' :: rest => List.replicate '\ufeff'.utf8Size ' ' ++ rest
  | cs => cs

/-- The settings of a text, which is a single document. -/
def parse? (text : String) : Option Setting := do
  let (v, rest) ← body? (shift (unify 0 text.toList))
  if isFinished rest then some v else none

end ReplyStream.Config.Yaml
