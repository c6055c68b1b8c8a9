/-
The configuration: its sections with their defaults, and the rules a
configuration must satisfy (`problems`), each violated rule one problem.
-/
import ReplyStream.Text.Blank

namespace ReplyStream

/-- How log lines are written. -/
inductive LogFormat where
  | pretty
  | json
deriving DecidableEq, Repr

namespace LogFormat

def name : LogFormat → String
  | .pretty => "pretty"
  | .json => "json"

/-- The format of the given name, in ASCII letters of either case; the name
in lower case when there is none. -/
def ofName? (text : String) : Except String LogFormat :=
  let lower := String.ofList (text.toList.map Char.toLower)
  if lower = "pretty" ∨ lower = "text" then .ok .pretty
  else if lower = "json" then .ok .json
  else .error lower

end LogFormat

namespace Config

/-- Who the bot is. -/
structure Identity where
  userId : String
  agentId : String
deriving DecidableEq, Repr

structure Logging where
  level : String
  format : LogFormat
deriving DecidableEq, Repr

/-- How replies become events. -/
structure Publishing where
  /-- The ceiling on the bytes of reasoning and answer in one event. -/
  eventSizeMax : Nat
  /-- The least time between two throttled publishes, in milliseconds. -/
  throttleMs : Nat
  /-- The reasoning shown until there is real output. -/
  thinkingMessage : String
deriving DecidableEq, Repr

/-- How downloads are kept. -/
structure Attachments where
  maxEntries : Nat
  ttlSecs : Nat
deriving DecidableEq, Repr

/-- What marks inline commands in free text. -/
structure Delimiting where
  opening : String
  closing : String
deriving DecidableEq, Repr

def Identity.default : Identity := ⟨"@aibot:localhost", "relaybot"⟩
def Logging.default : Logging := ⟨"info", .pretty⟩
def Publishing.default : Publishing := ⟨16384, 250, "Thinking..."⟩
def Attachments.default : Attachments := ⟨100, 1800⟩
def Delimiting.default : Delimiting := ⟨"<option>", "</option>"⟩

end Config

structure Config where
  identity : Config.Identity
  logging : Config.Logging
  publishing : Config.Publishing
  attachments : Config.Attachments
  delimiting : Config.Delimiting
deriving DecidableEq, Repr

namespace Config

def default : Config := ⟨.default, .default, .default, .default, .default⟩

/-! ## Rules -/

/-- A violated rule. -/
inductive Problem where
  | noEventSize
  | noEntries
  | noLifetime
  | emptyDelimiter
  | equalDelimiters
  | blankAgent
deriving DecidableEq, Repr

def Problem.message : Problem → String
  | .noEventSize => "publisher.event_size_max must be greater than 0"
  | .noEntries => "attachments.max_entries must be greater than 0"
  | .noLifetime => "attachments.ttl_secs must be greater than 0"
  | .emptyDelimiter => "parser delimiters must not be empty"
  | .equalDelimiters => "parser open and close delimiters must differ"
  | .blankAgent => "bot.agent_id must not be empty"

/-- Whether a configuration violates a rule. Delimiters are compared only
when neither is empty. -/
def violates (c : Config) : Problem → Bool
  | .noEventSize => c.publishing.eventSizeMax = 0
  | .noEntries => c.attachments.maxEntries = 0
  | .noLifetime => c.attachments.ttlSecs = 0
  | .emptyDelimiter => c.delimiting.opening.isEmpty || c.delimiting.closing.isEmpty
  | .equalDelimiters => !c.delimiting.opening.isEmpty && c.delimiting.opening = c.delimiting.closing
  | .blankAgent => Text.isBlankText c.identity.agentId.toList

/-- The rules, in the order in which problems are reported. -/
def rules : List Problem :=
  [.noEventSize, .noEntries, .noLifetime, .emptyDelimiter, .equalDelimiters, .blankAgent]

/-- The violated rules. -/
def problems (c : Config) : List Problem := rules.filter c.violates

end Config

/-- Why a configuration cannot be had. -/
inductive ConfigFault where
  | unreadable
  | unsupportedFormat (extension : String)
  | malformed (detail : String)
  | invalidVariable (name : String) (detail : String)
  | invalid (problems : List String)
deriving DecidableEq, Repr

def ConfigFault.message : ConfigFault → String
  | .unreadable => "failed to read configuration file"
  | .unsupportedFormat extension =>
    "unsupported configuration format '" ++ extension ++ "'. Use 'yaml', 'json' or 'toml'"
  | .malformed detail => "failed to parse configuration: " ++ detail
  | .invalidVariable name detail => "invalid " ++ name ++ " value: " ++ detail
  | .invalid problems => "invalid configuration: " ++ "; ".intercalate problems

end ReplyStream
