/-
Settings in JSON. Members of objects are kept as they are written, repeated
keys included. A number out of range and a string with half of a surrogate
pair are well formed, but of no kind that a setting has; so is an object with
such a key. Containers nest as deep as they like.
-/
import ReplyStream.Config.Setting
import ReplyStream.Json.Read

namespace ReplyStream.Config.JsonText

open Json.Reader (skipSpace hexUnit? letterEscape? word?)

/-- What follows the closing quote of a string, whatever its escapes stand
for. -/
def skipString? : Nat → List Char → Option (List Char)
  | 0, _ | _, [] => none
  | _, '"' :: rest => some rest
  | fuel + 1, '\\' :: 'u' :: cs => (hexUnit? cs).bind fun (_, rest) => skipString? fuel rest
  | fuel + 1, '\\' :: e :: cs => (letterEscape? e).bind fun _ => skipString? fuel cs
  | fuel + 1, c :: cs => if c == '\\' || c.toNat < 0x20 then none else skipString? fuel cs

/-- The string behind an opening quote, if its characters are ones, and what
follows. -/
def string? (cs : List Char) : Option (Option String × List Char) :=
  match Json.Reader.string? cs with
  | some (s, rest) => some (some s, rest)
  | none => (skipString? (cs.length + 1) cs).map fun rest => (none, rest)

mutual

/-- One value at the start of a text. -/
def value? (fuel : Nat) (cs : List Char) : Option (Setting × List Char) :=
  match fuel with
  | 0 => none
  | fuel + 1 =>
    match skipSpace cs with
    | [] => none
    | '"' :: cs => (string? cs).map fun (s, rest) => (s.elim .other .text, rest)
    | '[' :: cs =>
      match skipSpace cs with
      | ']' :: rest => some (.list [], rest)
      | cs => (items? fuel cs).map fun (vs, rest) => (.list vs, rest)
    | '\x7b' :: cs =>
      match skipSpace cs with
      | '\x7d' :: rest => some (.table [], rest)
      | cs => (members? fuel cs).map fun (ms, rest) => (ms.elim .other .table, rest)
    | 'n' :: cs => (word? ['u', 'l', 'l'] cs).map fun rest => (.null, rest)
    | 't' :: cs => (word? ['r', 'u', 'e'] cs).map fun rest => (.other, rest)
    | 'f' :: cs => (word? ['a', 'l', 's', 'e'] cs).map fun rest => (.other, rest)
    | cs => (Json.Literal.scan cs).map fun (l, rest) => (l.value?.elim .other Setting.ofJson, rest)

/-- The items of an array up to its closing bracket. -/
def items? (fuel : Nat) (cs : List Char) : Option (List Setting × List Char) :=
  match fuel with
  | 0 => none
  | fuel + 1 =>
    match value? fuel cs with
    | none => none
    | some (v, cs) =>
      match skipSpace cs with
      | ',' :: cs => (items? fuel cs).map fun (vs, rest) => (v :: vs, rest)
      | ']' :: rest => some ([v], rest)
      | _ => none

/-- The members of an object up to its closing brace, if all their keys are
texts. -/
def members? (fuel : Nat) (cs : List Char) : Option (Option (List (String × Setting)) × List Char) :=
  match fuel with
  | 0 => none
  | fuel + 1 =>
    match skipSpace cs with
    | '"' :: cs =>
      match string? cs with
      | none => none
      | some (key, cs) =>
        match skipSpace cs with
        | ':' :: cs =>
          match value? fuel cs with
          | none => none
          | some (v, cs) =>
            let member := key.map fun key => (key, v)
            match skipSpace cs with
            | ',' :: cs =>
              (members? fuel cs).map fun (ms, rest) => (member.bind fun m => ms.map (m :: ·), rest)
            | '\x7d' :: rest => some (member.map ([·]), rest)
            | _ => none
        | _ => none
    | _ => none

end

/-- The settings of a text. -/
def parse? (text : String) : Option Setting :=
  let cs := text.toList
  match value? (2 * cs.length + 2) cs with
  | some (v, rest) => if skipSpace rest = [] then some v else none
  | none => none

end ReplyStream.Config.JsonText
