/-
TOML documents: keys with their values, and headers that open the tables in
which the following keys stand. Arrays and inline tables go on over several
lines, with comments, but for the parts of a key, and nest less than
`maxNesting` deep.
-/
import ReplyStream.Config.Toml.Text
import ReplyStream.Config.Toml.Tree
import ReplyStream.Config.Toml.Word

namespace ReplyStream.Config.Toml

def maxNesting : Nat := 80

/-! ## Values -/

mutual

/-- A value at the start of a text, within `depth` more arrays or tables. -/
def value? (fuel depth : Nat) (cs : List Char) : Option (Setting × List Char) :=
  match fuel with
  | 0 => none
  | fuel + 1 =>
    match cs with
    | '"' :: _ | '\'' :: _ => (string? true cs).map fun (s, rest) => (.text s, rest)
    | '[' :: cs =>
      if depth ≤ 1 then none else (items? fuel (depth - 1) cs).map fun (vs, rest) => (.list vs, rest)
    | '\x7b' :: cs =>
      if depth ≤ 1 then none
      else (entries? fuel (depth - 1) [] cs).map fun (es, rest) => (.table (Node.settings es), rest)
    | cs =>
      let (token, rest) := word cs
      (ofWord? token).map fun v => (v, rest)

/-- The items of an array up to its closing bracket. -/
def items? (fuel depth : Nat) (cs : List Char) : Option (List Setting × List Char) :=
  match fuel with
  | 0 => none
  | fuel + 1 =>
    match skipGap cs with
    | ']' :: rest => some ([], rest)
    | cs =>
      match value? fuel depth cs with
      | none => none
      | some (v, cs) =>
        match skipGap cs with
        | ',' :: cs => (items? fuel depth cs).map fun (vs, rest) => (v :: vs, rest)
        | ']' :: rest => some ([v], rest)
        | _ => none

/-- The entries of an inline table up to its closing brace, together with
those read before. -/
def entries? (fuel depth : Nat) (entries : Entries) (cs : List Char) : Option (Entries × List Char) :=
  match fuel with
  | 0 => none
  | fuel + 1 =>
    match skipGap cs with
    | '\x7d' :: rest => some (entries, rest)
    | cs =>
      match key? cs with
      | none => none
      | some ((path, key), cs) =>
        match skipGap cs with
        | '=' :: cs => do
          let (v, cs) ← value? fuel depth (skipGap cs)
          let entries ← entries.assign? path key v
          match skipGap cs with
          | ',' :: cs => entries? fuel depth entries cs
          | '\x7d' :: rest => some (entries, rest)
          | _ => none
        | _ => none

end

/-! ## Documents -/

/-- A document while it is read: its tables, and the one in which the next key
stands. -/
structure State where
  entries : Entries
  context : List String

namespace State

/-- Reads one line that is not empty, which is a header or a key with its
value. -/
def line? (st : State) (cs : List Char) : Option (State × List Char) :=
  match cs with
  | '[' :: '[' :: cs =>
    match key? cs with
    | some ((path, key), ']' :: ']' :: cs) => do
      let entries ← st.entries.openItem? path key
      some (⟨entries, path ++ [key]⟩, cs)
    | _ => none
  | '[' :: cs =>
    match key? cs with
    | some ((path, key), ']' :: cs) => do
      let entries ← st.entries.openTable? path key
      some (⟨entries, path ++ [key]⟩, cs)
    | _ => none
  | cs =>
    match key? cs with
    | some ((path, key), '=' :: cs) => do
      let (v, cs) ← value? (2 * cs.length + 2) maxNesting (skipBlanks cs)
      let entries ← st.entries.assignIn? st.context path key v
      some ({ st with entries }, cs)
    | _ => none

/-- Reads the lines that are left. -/
def lines? (st : State) : Nat → List Char → Option State
  | 0, _ => none
  | fuel + 1, cs =>
    match lineEnd? cs, skipBlanks cs with
    | some [], _ => some st
    | some rest, _ => lines? st fuel rest
    | none, cs => do
      let (st, cs) ← st.line? cs
      let rest ← lineEnd? cs
      st.lines? fuel rest

end State

/-- A byte order mark may stand in front of a text. -/
def skipMark : List Char → List Char
  | '\ufeff' :: cs => cs
  | cs => cs

/-- The settings of a text. -/
def parse? (text : String) : Option Setting :=
  let cs := skipMark text.toList
  (State.lines? ⟨[], []⟩ (cs.length + 2) cs).map fun st => .table (Node.settings st.entries)

end ReplyStream.Config.Toml
