/-
Payloads that are lists of texts. They are read from the front, and the first
flaw counts: what is of another kind is a flaw even if the text behind it is
broken, and a list or an object is of another kind whatever it holds.
-/
import ReplyStream.Fault
import ReplyStream.Json.Read

namespace ReplyStream.Payload

open Json.Reader (skipSpace string? word?)

/-- The flaw of a text that begins with a value of another kind, or with no
value. -/
def flawAt (cs : List Char) : PayloadFlaw :=
  let isValue := match cs with
    | '[' :: _ | '\x7b' :: _ => true
    | '"' :: cs => (string? cs).isSome
    | 'n' :: cs => (word? ['u', 'l', 'l'] cs).isSome
    | 't' :: cs => (word? ['r', 'u', 'e'] cs).isSome
    | 'f' :: cs => (word? ['a', 'l', 's', 'e'] cs).isSome
    | cs => ((Json.Literal.scan cs).bind fun (l, _) => l.value?).isSome
  if isValue then .wrongShape else .notJson

/-- The texts up to the closing bracket, of which there is at least one, and
what follows it. -/
def items : Nat → List Char → Except PayloadFlaw (List String × List Char)
  | 0, _ => .error .notJson
  | fuel + 1, cs =>
    match skipSpace cs with
    | '"' :: cs =>
      match string? cs with
      | none => .error .notJson
      | some (s, cs) =>
        match skipSpace cs with
        | ',' :: cs => (items fuel cs).map fun (more, rest) => (s :: more, rest)
        | ']' :: rest => .ok ([s], rest)
        | _ => .error .notJson
    | cs => .error (flawAt cs)

/-- The texts a payload holds. -/
def texts (payload : String) : Except PayloadFlaw (List String) := do
  let (found, rest) ← match skipSpace payload.toList with
    | '[' :: cs =>
      match skipSpace cs with
      | ']' :: rest => .ok ([], rest)
      | cs => items (cs.length + 1) cs
    | cs => .error (flawAt cs)
  if skipSpace rest = [] then .ok found else .error .notJson

end ReplyStream.Payload
