/-
What YAML and TOML texts have in common: the blanks within a line, and escapes
that give a character by its code.
-/
import ReplyStream.Json.Read

namespace ReplyStream.Config

def isBlank (c : Char) : Bool := c == ' ' || c == '\t'

def skipBlanks (cs : List Char) : List Char := cs.dropWhile isBlank

/-- How many hexadecimal digits stand behind the letter of an escape. -/
def codeLength? : Char → Option Nat
  | 'x' => some 2
  | 'u' => some 4
  | 'U' => some 8
  | _ => none

/-- The character with a code of `count` hexadecimal digits. -/
def hexChar? (count : Nat) (cs : List Char) : Option (Char × List Char) := do
  let ds := cs.take count
  if ds.length < count then none
  else
    let n ← ds.foldlM (fun n c => (Json.Reader.hexDigit? c).map (n * 16 + ·)) 0
    if n.isValidChar then some (Char.ofNat n, cs.drop count) else none

/-- The character behind a backslash, which `letter` gives for an escape of one
letter. -/
def escape? (letter : Char → Option Char) : List Char → Option (Char × List Char)
  | [] => none
  | e :: cs =>
    match letter e with
    | some c => some (c, cs)
    | none => (codeLength? e).bind fun count => hexChar? count cs

end ReplyStream.Config
