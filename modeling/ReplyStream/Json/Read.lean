/-
Reading JSON texts, strictly: the white space of JSON is space, tab, line
feed and carriage return; nothing but white space follows the value; a
string holds no control character and no half of a surrogate pair; a
repeated key keeps its last value; containers nest at most `maxDepth` deep.

`parse?` is the reader of a whole text. Inside, `value` reads one value at
the start of a text and returns what follows it; each step takes at least
one character, so the length of the text bounds their number.
-/
import ReplyStream.Json.Number

namespace ReplyStream.Json

namespace Reader

def isSpace (c : Char) : Bool := c == ' ' || c == '\n' || c == '\t' || c == '\r'

def skipSpace (cs : List Char) : List Char := cs.dropWhile isSpace

/-! ## Strings -/

/-- The value of a hexadecimal digit of either case. -/
def hexDigit? (c : Char) : Option Nat :=
  if '0' ≤ c ∧ c ≤ '9' then some (c.toNat - '0'.toNat)
  else if 'a' ≤ c ∧ c ≤ 'f' then some (c.toNat - 'a'.toNat + 10)
  else if 'A' ≤ c ∧ c ≤ 'F' then some (c.toNat - 'A'.toNat + 10)
  else none

/-- The four hexadecimal digits of a `\u` escape. -/
def hexUnit? : List Char → Option (Nat × List Char)
  | a :: b :: c :: d :: rest => do
    let n := (((← hexDigit? a) * 16 + (← hexDigit? b)) * 16 + (← hexDigit? c)) * 16 + (← hexDigit? d)
    some (n, rest)
  | _ => none

/-- The character a `\u` escape stands for. The first half of a surrogate
pair needs the second behind it, in an escape of its own. -/
def unicodeEscape? (cs : List Char) : Option (Char × List Char) := do
  let (unit, rest) ← hexUnit? cs
  if 0xD800 ≤ unit ∧ unit < 0xDC00 then
    match rest with
    | '\\' :: 'u' :: rest => do
      let (low, rest) ← hexUnit? rest
      if 0xDC00 ≤ low ∧ low < 0xE000 then
        some (Char.ofNat (0x10000 + (unit - 0xD800) * 0x400 + (low - 0xDC00)), rest)
      else none
    | _ => none
  else if 0xDC00 ≤ unit ∧ unit < 0xE000 then none
  else some (Char.ofNat unit, rest)

/-- The character a one-letter escape stands for. -/
def letterEscape? : Char → Option Char
  | '"' => some '"'
  | '\\' => some '\\'
  | '/' => some '/'
  | 'b' => some '\x08'
  | 'f' => some '\x0c'
  | 'n' => some '\n'
  | 'r' => some '\r'
  | 't' => some '\t'
  | _ => none

/-- The characters of a string up to its closing quote, and the rest. -/
def stringBody : Nat → List Char → Option (List Char × List Char)
  | 0, _ => none
  | _, [] => none
  | _, '"' :: rest => some ([], rest)
  | fuel + 1, '\\' :: 'u' :: cs => do
    let (c, cs) ← unicodeEscape? cs
    let (s, rest) ← stringBody fuel cs
    some (c :: s, rest)
  | fuel + 1, '\\' :: e :: cs => do
    let c ← letterEscape? e
    let (s, rest) ← stringBody fuel cs
    some (c :: s, rest)
  | fuel + 1, c :: cs =>
    if c == '\\' || c.toNat < 0x20 then none
    else do
      let (s, rest) ← stringBody fuel cs
      some (c :: s, rest)

/-- The string behind an opening quote. -/
def string? (cs : List Char) : Option (String × List Char) :=
  (stringBody (cs.length + 1) cs).map fun (s, rest) => (String.ofList s, rest)

/-- `rest` when the text is `word` followed by `rest`. -/
def word? : List Char → List Char → Option (List Char)
  | [], cs => some cs
  | w :: ws, c :: cs => if w = c then word? ws cs else none
  | _ :: _, [] => none

/-! ## Values -/

mutual

/-- One value at the start of a text; `depth` more containers may open. -/
def value (fuel depth : Nat) (cs : List Char) : Option (Json × List Char) :=
  match fuel with
  | 0 => none
  | fuel + 1 =>
    match skipSpace cs with
    | [] => none
    | '"' :: cs => (string? cs).map fun (s, rest) => (.str s, rest)
    | '[' :: cs =>
      if depth = 0 then none
      else
        match skipSpace cs with
        | ']' :: rest => some (.arr [], rest)
        | cs => (items fuel (depth - 1) cs).map fun (vs, rest) => (.arr vs, rest)
    | '{' :: cs =>
      if depth = 0 then none
      else
        match skipSpace cs with
        | '}' :: rest => some (.obj [], rest)
        | cs => (members fuel (depth - 1) cs).map fun (ms, rest) => (ofPairs ms, rest)
    | 'n' :: cs => (word? ['u', 'l', 'l'] cs).map fun rest => (.null, rest)
    | 't' :: cs => (word? ['r', 'u', 'e'] cs).map fun rest => (.bool true, rest)
    | 'f' :: cs => (word? ['a', 'l', 's', 'e'] cs).map fun rest => (.bool false, rest)
    | cs => (Literal.scan cs).bind fun (l, rest) => l.value?.map fun v => (v, rest)

/-- The items of an array up to its closing bracket. -/
def items (fuel depth : Nat) (cs : List Char) : Option (List Json × List Char) :=
  match fuel with
  | 0 => none
  | fuel + 1 =>
    match value fuel depth cs with
    | none => none
    | some (v, cs) =>
      match skipSpace cs with
      | ',' :: cs => (items fuel depth cs).map fun (vs, rest) => (v :: vs, rest)
      | ']' :: rest => some ([v], rest)
      | _ => none

/-- The members of an object up to its closing brace, in written order. -/
def members (fuel depth : Nat) (cs : List Char) : Option (List (String × Json) × List Char) :=
  match fuel with
  | 0 => none
  | fuel + 1 =>
    match skipSpace cs with
    | '"' :: cs =>
      match string? cs with
      | none => none
      | some (key, cs) =>
        match skipSpace cs with
        | ':' :: cs =>
          match value fuel depth cs with
          | none => none
          | some (v, cs) =>
            match skipSpace cs with
            | ',' :: cs => (members fuel depth cs).map fun (ms, rest) => ((key, v) :: ms, rest)
            | '}' :: rest => some ([(key, v)], rest)
            | _ => none
        | _ => none
    | _ => none

end

/-- A whole text: one value with nothing but white space around it. -/
def document? (depth : Nat) (cs : List Char) : Option Json :=
  match value (2 * cs.length + 2) depth cs with
  | some (v, rest) => if skipSpace rest = [] then some v else none
  | none => none

end Reader

/-- How deep arrays and objects may nest in a text. -/
def maxDepth : Nat := 127

/-- Reads a text; nothing when it is not JSON. -/
def parse? (text : String) : Option Json := Reader.document? maxDepth text.toList

end ReplyStream.Json
