/-
Which log records come out, and how they are written. A filter is a list of
directives, each a threshold for the targets that begin with its name; of
those that apply to a target the one with the longest name decides. The
configuration gives a threshold for all targets, and a variable, when it can
be read, takes its place.

A line holds no character that a terminal would act on: those of a message are
written as their codes, and the room stands between quotes.
-/
import ReplyStream.Config.Load
import ReplyStream.Text.Alphanumeric
import ReplyStream.Text.Quoted

namespace ReplyStream.Log

inductive Level where
  | error
  | warn
  | info
  | debug
  | trace
deriving DecidableEq, Repr

namespace Level

def name : Level → String
  | .error => "ERROR"
  | .warn => "WARN"
  | .info => "INFO"
  | .debug => "DEBUG"
  | .trace => "TRACE"

/-- Chattier levels have higher ranks. -/
def rank : Level → Nat
  | .error => 1
  | .warn => 2
  | .info => 3
  | .debug => 4
  | .trace => 5

/-- All levels, the chattiest first. -/
def all : List Level := [.trace, .debug, .info, .warn, .error]

end Level

/-- The highest rank that comes out; zero for none. -/
abbrev Threshold := Nat

/-- The threshold a word names: a rank, or the name of a level in ASCII
letters of either case. The empty word means errors only. -/
def threshold? (text : String) : Option Threshold :=
  match Config.parseNat? text with
  | some n => if n ≤ 5 then some n else none
  | none =>
    let lower := String.ofList (text.toList.map Char.toLower)
    if lower = "" ∨ lower = "error" then some 1
    else if lower = "warn" then some 2
    else if lower = "info" then some 3
    else if lower = "debug" then some 4
    else if lower = "trace" then some 5
    else if lower = "off" then some 0
    else none

structure Directive where
  /-- Whether it is only for records within a named span, of which there are
  none. -/
  isScoped : Bool
  /-- The start of the targets it is for; all of them when empty. -/
  target : List Char
  threshold : Threshold
deriving DecidableEq, Repr

abbrev Filter := List Directive

namespace Filter

/-- Whether a directive may begin with this character. -/
def beginsDirective (c : Char) : Bool := c == '-' || c == ':' || c == '_' || c == '[' || Text.isAlphanumeric c

/-- The threshold behind the equals sign of a part, which does not begin with a
blank: all records when nothing stands there. -/
def level? (part level : List Char) : Option Threshold :=
  if part.head?.any Text.isBlank then none
  else if level = [] then some Level.trace.rank
  else threshold? (String.ofList level)

/-- One directive: a level for all targets, a target with its level, or a
target whose records all come out. A span stands between brackets behind the
target. -/
def directive? (part : List Char) : Option Directive :=
  let trimmed := Text.trim part
  if !trimmed.head?.any beginsDirective then none
  else
    match trimmed.dropWhile fun c => c != '=' && c != '[' with
    | '[' :: scope =>
      match scope.dropWhile (· != ']') with
      | [']'] => some ⟨true, [], Level.trace.rank⟩
      | ']' :: '=' :: _ =>
        (level? part ((part.dropWhile (· != ']')).drop 2)).map fun t => ⟨true, [], t⟩
      | _ => none
    | _ :: _ =>
      (level? part (part.dropWhile (· != '=')).tail).map fun t => ⟨false, part.takeWhile (· != '='), t⟩
    | [] =>
      match threshold? (String.ofList part) with
      | some t => some ⟨false, [], t⟩
      | none => some ⟨false, part, Level.trace.rank⟩

/-- The parts between commas that are not empty. -/
def parts (cs : List Char) : List (List Char) :=
  let (last, before) := cs.foldr (fun c (part, rest) =>
    if c = ',' then ([], part :: rest) else (c :: part, rest)) ([], [])
  (last :: before).filter (!·.isEmpty)

/-- The filter a variable holds, if all of it can be read. -/
def ofVariable? (text : String) : Option Filter := (parts text.toList).mapM directive?

/-- The filter for a configured level; one that means nothing counts as the
default one. -/
def ofLevel (level : String) : Filter := [⟨false, [], (threshold? level).getD Level.info.rank⟩]

/-- The filter for a configured level and a variable. Of a variable that
cannot be read the readable directives count, and the level if there are
none. -/
def resolve (level : String) : Option String → Filter
  | none => ofLevel level
  | some text =>
    match ofVariable? text with
    | some f => f
    | none =>
      match (parts text.toList).filterMap directive? with
      | [] => ofLevel level
      | f => f

/-- The threshold for a target: that of the longest name it begins with, and
of equal names the last. -/
def threshold (f : Filter) (target : List Char) : Threshold :=
  let applying := f.filter fun d => !d.isScoped && d.target.isPrefixOf target
  (applying.foldl (fun (best : Option Directive) d =>
    match best with
    | none => some d
    | some b => if b.target.length ≤ d.target.length then some d else best) none).elim 0 (·.threshold)

/-- Whether a record comes out. -/
def shows (f : Filter) (target : List Char) (level : Level) : Bool := level.rank ≤ f.threshold target

end Filter

/-- A record about a room. -/
structure Record where
  level : Level
  message : String
  room : String
deriving Repr

namespace Record

/-- A character of a message as it stands in a line. -/
def shownChar (c : Char) : List Char :=
  let code := Nat.toDigits 16 c.toNat
  if c = '\x07' ∨ c = '\x08' ∨ c = '\x0c' then ['\\', 'x', '0'] ++ code
  else if c = '\x1b' ∨ c = '\x7f' then ['\\', 'x'] ++ code
  else if 0x80 ≤ c.toNat ∧ c.toNat ≤ 0x9F then ['\\', 'u', '\x7b'] ++ code ++ ['\x7d']
  else [c]

/-- The record as a line, without its time. -/
def line (r : Record) : String :=
  let level := r.level.name
  let padding := String.ofList (List.replicate (5 - level.length) ' ')
  padding ++ level ++ " " ++ String.ofList (r.message.toList.flatMap shownChar) ++ " room_id=" ++ Text.quoted r.room

/-- The record as an object, without its time. -/
def toJson (r : Record) : Json :=
  .ofPairs [("level", .str r.level.name),
    ("fields", .ofPairs [("message", .str r.message), ("room_id", .str r.room)])]

/-- The record in a format. -/
def render (r : Record) : LogFormat → Json
  | .pretty => .str r.line
  | .json => r.toJson

end Record

end ReplyStream.Log
