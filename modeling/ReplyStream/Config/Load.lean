/-
Where a configuration comes from: a file in one of three formats, or the
defaults; then the environment, for what the file left at its default; then
the rules.
-/
import ReplyStream.Config.JsonText
import ReplyStream.Config.Toml.Document
import ReplyStream.Config.Yaml.Block

namespace ReplyStream.Config

/-! ## Files -/

structure SourceFile where
  name : String
  /-- What the file holds, if it exists. -/
  bytes : Option ByteArray

namespace SourceFile

/-- The text of the file, if it exists and is UTF-8. -/
def text? (f : SourceFile) : Option String := f.bytes.bind String.fromUTF8?

/-- What follows the last dot of a name, unless the name only starts with it. -/
def extensionOf (name : List Char) : List Char :=
  let reversed := name.reverse
  let tail := (reversed.takeWhile (· != '.')).reverse
  match reversed.dropWhile (· != '.') with
  | [] | [_] => []
  | _ => tail

def extension (f : SourceFile) : String := String.ofList (extensionOf f.name.toList)

/-- How a file with this extension is read, and which values may stand over the
name of a log format in it. -/
def format? (extension : String) : Option ((String → Option Setting) × (Setting → Bool)) :=
  if extension = "yaml" ∨ extension = "yml" then some (Yaml.parse?, fun _ => true)
  else if extension = "json" then some (JsonText.parse?, Setting.isNull)
  else if extension = "toml" then some (Toml.parse?, Setting.isVoid)
  else none

/-- The configuration a file holds. -/
def config (f : SourceFile) : Except ConfigFault Config := do
  let text ← f.text?.elim (.error .unreadable) .ok
  let (read, allows) ← (format? f.extension).elim (.error (.unsupportedFormat f.extension)) .ok
  ((read text).bind (ofSetting? allows)).elim
    (.error (.malformed ("not a configuration in " ++ f.extension))) .ok

end SourceFile

/-! ## Environment -/

/-- The variables that are set. -/
abbrev Environment := String → Option String

namespace Variable

def logLevel : String := "RELAYBOT_LOG_LEVEL"
def logFormat : String := "RELAYBOT_LOG_FORMAT"
def eventSizeMax : String := "RELAYBOT_EVENT_SIZE_MAX"
def throttleMs : String := "RELAYBOT_THROTTLE_MS"
def agentId : String := "RELAYBOT_AGENT_ID"
def userId : String := "RELAYBOT_USER_ID"

end Variable

/-- A natural of 64 bits in decimal; a plus sign may stand in front. -/
def parseNat? (text : String) : Option Nat :=
  (Setting.digits? 10 (Setting.unsigned text.toList)).bind fun n => if n < Nat.pow 2 64 then some n else none

def readText (text : String) : Except String String := .ok text

def readFormat (text : String) : Except String LogFormat :=
  (LogFormat.ofName? text).mapError fun name => "unknown log format '" ++ name ++ "'"

def readNat (complaint text : String) : Except String Nat :=
  (parseNat? text).elim (.error complaint) .ok

/-- The value of a field that was left at its default and has a variable:
what the variable says, if it is set. -/
def override {α : Type} [DecidableEq α] (env : Environment) (name : String)
    (read : String → Except String α) (default value : α) : Except ConfigFault α :=
  if value = default then
    match env name with
    | none => .ok value
    | some text => (read text).mapError (.invalidVariable name)
  else .ok value

/-- A configuration with what the environment has to say about it. The
variables are read in this order, and the first that cannot be read counts. -/
def applyEnvironment (env : Environment) (c : Config) : Except ConfigFault Config := do
  let level ← override env Variable.logLevel readText Logging.default.level c.logging.level
  let format ← override env Variable.logFormat readFormat Logging.default.format c.logging.format
  let eventSizeMax ← override env Variable.eventSizeMax
    (readNat "must be a positive number of bytes") Publishing.default.eventSizeMax c.publishing.eventSizeMax
  let throttleMs ← override env Variable.throttleMs
    (readNat "must be a number of milliseconds") Publishing.default.throttleMs c.publishing.throttleMs
  let agentId ← override env Variable.agentId readText Identity.default.agentId c.identity.agentId
  let userId ← override env Variable.userId readText Identity.default.userId c.identity.userId
  return { c with
    identity := ⟨userId, agentId⟩
    logging := ⟨level, format⟩
    publishing := { c.publishing with eventSizeMax, throttleMs } }

/-- The configuration, if it violates no rule. -/
def validated (c : Config) : Except ConfigFault Config :=
  if c.problems = [] then .ok c else .error (.invalid (c.problems.map Problem.message))

/-- The configuration of a file, or the default one, and an environment. -/
def load (file : Option SourceFile) (env : Environment) : Except ConfigFault Config := do
  let c ← file.elim (.ok default) SourceFile.config
  let c ← applyEnvironment env c
  validated c

end ReplyStream.Config
