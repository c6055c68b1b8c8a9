/-
What a configuration file says, whatever its format: a tree of settings.

`Config.ofSetting?` reads the configuration out of such a tree. A section is
a table, in which unknown keys are skipped and no known key stands twice, or
the list of its values in order; what is missing has its default.
-/
import ReplyStream.Config.Basic
import ReplyStream.Json.Write

namespace ReplyStream

inductive Setting where
  | null
  | text (s : String)
  | number (n : Int)
  /-- A value of a kind that no setting has. -/
  | other
  | list (items : List Setting)
  | table (entries : List (String × Setting))
deriving Repr

namespace Setting

/-! ## Digits -/

def digitValue? (base : Nat) (c : Char) : Option Nat :=
  let n := if '0' ≤ c ∧ c ≤ '9' then some (c.toNat - '0'.toNat)
    else if 'a' ≤ c ∧ c ≤ 'z' then some (c.toNat - 'a'.toNat + 10)
    else if 'A' ≤ c ∧ c ≤ 'Z' then some (c.toNat - 'A'.toNat + 10)
    else none
  n.bind fun n => if n < base then some n else none

/-- The number of one or more digits. -/
def digits? (base : Nat) : List Char → Option Nat
  | [] => none
  | cs => cs.foldlM (fun n c => (digitValue? base c).map (n * base + ·)) 0

/-- A plus sign may stand in front of a number. -/
def unsigned (cs : List Char) : List Char :=
  match cs with
  | '+' :: cs => cs
  | cs => cs

/-! ## Fields -/

def text? : Setting → Option String
  | .text s => some s
  | _ => none

/-- A natural of 64 bits. -/
def nat? : Setting → Option Nat
  | .number n => if 0 ≤ n ∧ n < Int.pow 2 64 then some n.toNat else none
  | _ => none

def isNull : Setting → Bool
  | .null => true
  | _ => false

/-- An empty list or table. -/
def isVoid : Setting → Bool
  | .list [] | .table [] => true
  | _ => false

/-- A format by its exact name, which may also be the only key of a table, with
a value that `allows` accepts. -/
def format? (allows : Setting → Bool) : Setting → Option LogFormat
  | .text s => named s
  | .table [(s, v)] => if allows v then named s else none
  | _ => none
where
  named (s : String) : Option LogFormat :=
    if s = LogFormat.pretty.name then some .pretty
    else if s = LogFormat.json.name then some .json
    else none

/-- The values of the named fields of a section, as far as they are there. -/
def fields? (keys : List String) : Setting → Option (List (Option Setting))
  | .table entries =>
    let occurrences (key : String) := entries.filter (·.1 == key)
    if keys.any fun key => 1 < (occurrences key).length then none
    else some (keys.map fun key => ((occurrences key).head?).map (·.2))
  | .list items =>
    if keys.length < items.length then none
    else some (items.map some ++ List.replicate (keys.length - items.length) none)
  | _ => none

/-- Reads a value, or takes the default when there is none. -/
def orDefault {α : Type} (read : Setting → Option α) (default : α) : Option Setting → Option α
  | none => some default
  | some s => read s

end Setting

namespace Config

open Setting (fields? orDefault text? nat? format?)

def Identity.ofSetting? (s : Setting) : Option Identity := do
  match ← fields? ["user_id", "agent_id"] s with
  | [user, agent] =>
    some ⟨← orDefault text? Identity.default.userId user, ← orDefault text? Identity.default.agentId agent⟩
  | _ => none

def Logging.ofSetting? (allows : Setting → Bool) (s : Setting) : Option Logging := do
  match ← fields? ["level", "format"] s with
  | [level, format] =>
    some ⟨← orDefault text? Logging.default.level level,
          ← orDefault (format? allows) Logging.default.format format⟩
  | _ => none

def Publishing.ofSetting? (s : Setting) : Option Publishing := do
  match ← fields? ["event_size_max", "throttle_ms", "thinking_message"] s with
  | [size, throttle, thinking] =>
    some ⟨← orDefault nat? Publishing.default.eventSizeMax size,
          ← orDefault nat? Publishing.default.throttleMs throttle,
          ← orDefault text? Publishing.default.thinkingMessage thinking⟩
  | _ => none

def Attachments.ofSetting? (s : Setting) : Option Attachments := do
  match ← fields? ["max_entries", "ttl_secs"] s with
  | [entries, ttl] =>
    some ⟨← orDefault nat? Attachments.default.maxEntries entries,
          ← orDefault nat? Attachments.default.ttlSecs ttl⟩
  | _ => none

def Delimiting.ofSetting? (s : Setting) : Option Delimiting := do
  match ← fields? ["open_delimiter", "close_delimiter"] s with
  | [opening, closing] =>
    some ⟨← orDefault text? Delimiting.default.opening opening,
          ← orDefault text? Delimiting.default.closing closing⟩
  | _ => none

/-- The configuration a tree of settings stands for. -/
def ofSetting? (allows : Setting → Bool) (s : Setting) : Option Config := do
  match ← fields? ["bot", "logging", "publisher", "attachments", "parser"] s with
  | [bot, logging, publisher, attachments, parser] =>
    some ⟨← orDefault Identity.ofSetting? .default bot,
          ← orDefault (Logging.ofSetting? allows) .default logging,
          ← orDefault Publishing.ofSetting? .default publisher,
          ← orDefault Attachments.ofSetting? .default attachments,
          ← orDefault Delimiting.ofSetting? .default parser⟩
  | _ => none

def toJson (c : Config) : Json :=
  .ofPairs
    [("bot", .ofPairs [("user_id", .str c.identity.userId), ("agent_id", .str c.identity.agentId)]),
     ("logging", .ofPairs [("level", .str c.logging.level), ("format", .str c.logging.format.name)]),
     ("publisher", .ofPairs
       [("event_size_max", .int c.publishing.eventSizeMax), ("throttle_ms", .int c.publishing.throttleMs),
        ("thinking_message", .str c.publishing.thinkingMessage)]),
     ("attachments", .ofPairs
       [("max_entries", .int c.attachments.maxEntries), ("ttl_secs", .int c.attachments.ttlSecs)]),
     ("parser", .ofPairs
       [("open_delimiter", .str c.delimiting.opening), ("close_delimiter", .str c.delimiting.closing)])]

end Config

namespace Setting

/-! ## Settings in JSON -/

mutual

def ofJson : Json → Setting
  | .null => .null
  | .bool _ | .double _ => .other
  | .int n => .number n
  | .str s => .text s
  | .arr items => .list (ofItems items)
  | .obj fields => .table (ofFields fields)

def ofItems : List Json → List Setting
  | [] => []
  | v :: rest => ofJson v :: ofItems rest

def ofFields : List (String × Json) → List (String × Setting)
  | [] => []
  | (key, v) :: rest => (key, ofJson v) :: ofFields rest

end

end Setting

/-- The configuration a JSON value stands for. -/
def Config.ofJson? (v : Json) : Option Config := Config.ofSetting? Setting.isNull (Setting.ofJson v)

end ReplyStream
