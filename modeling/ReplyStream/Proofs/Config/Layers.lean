/-
Configuration layering. A field that has a variable (`Knob`) has the value of
the file when that is not the default, or else what its variable says, or else
the default (`Layer`); every other field is the file's (`Layered`). A variable
that says nothing the field could be matters only when the file left the field
at its default (`Unreadable`), and of those the first is reported. Only when
there is none are the rules looked at, and each broken one is one problem.

This says all there is about loading (`load_layers`).
-/
import Mathlib.Data.List.Perm.Subperm
import ReplyStream.Config.Load
import ReplyStream.Proofs.Text.Trim

namespace ReplyStream.Config

/-! ## Rules -/

/-- What it is to break a rule. Delimiters are compared only when neither is empty. -/
def Problem.Broken (c : Config) : Problem → Prop
  | .noEventSize => c.publishing.eventSizeMax = 0
  | .noEntries => c.attachments.maxEntries = 0
  | .noLifetime => c.attachments.ttlSecs = 0
  | .emptyDelimiter => c.delimiting.opening = "" ∨ c.delimiting.closing = ""
  | .equalDelimiters => c.delimiting.opening ≠ "" ∧ c.delimiting.opening = c.delimiting.closing
  | .blankAgent => Text.trim c.identity.agentId.toList = []

theorem violates_iff (c : Config) (p : Problem) : c.violates p = true ↔ p.Broken c := by
  cases p <;> simp [violates, Problem.Broken, Text.trim_eq_nil, String.isEmpty_iff]

/-- Each broken rule once, in the order of the rules. -/
structure Reports (c : Config) (problems : List Problem) : Prop where
  inOrder : problems.Sublist rules
  broken : ∀ p, p ∈ problems ↔ p.Broken c

theorem nodup_rules : rules.Nodup := by decide

theorem mem_rules (p : Problem) : p ∈ rules := by
  cases p <;> decide

theorem reports_problems (c : Config) : Reports c c.problems where
  inOrder := List.filter_sublist
  broken p := by simp [problems, mem_rules, violates_iff]

theorem Reports.eq_problems {c : Config} {ps : List Problem} (h : Reports c ps) : ps = c.problems := by
  have hsub : ps.Sublist c.problems := by
    have hkept : ps.filter c.violates = ps :=
      List.filter_eq_self.2 fun p hp => (violates_iff c p).2 ((h.broken p).1 hp)
    rw [← hkept]
    exact h.inOrder.filter _
  have hsame : c.problems ⊆ ps := fun p hp => (h.broken p).2 (((reports_problems c).broken p).1 hp)
  exact hsub.eq_of_length_le (List.subperm_of_subset (nodup_rules.sublist List.filter_sublist) hsame).length_le

theorem problems_eq_nil_iff (c : Config) : c.problems = [] ↔ ∀ p, ¬Problem.Broken c p := by
  simp only [List.eq_nil_iff_forall_not_mem, (reports_problems c).broken]

/-! ## Numbers -/

section Numbers

open Setting (digits? digitValue? unsigned)

theorem digitValue?_ten (c : Char) :
    digitValue? 10 c = if c.isDigit = true then some (c.toNat - '0'.toNat) else none := by
  have hcode : ∀ d : Char, (d ≤ c ↔ d.toNat ≤ c.toNat) ∧ (c ≤ d ↔ c.toNat ≤ d.toNat) := fun _ => ⟨Iff.rfl, Iff.rfl⟩
  have hdigit : c.isDigit = true ↔ '0'.toNat ≤ c.toNat ∧ c.toNat ≤ '9'.toNat := by
    simp only [Char.isDigit, Bool.and_eq_true, decide_eq_true_eq]
    exact Iff.rfl
  simp only [digitValue?, hcode, hdigit, show '0'.toNat = 48 from rfl, show '9'.toNat = 57 from rfl,
    show 'a'.toNat = 97 from rfl, show 'z'.toNat = 122 from rfl, show 'A'.toNat = 65 from rfl,
    show 'Z'.toNat = 90 from rfl]
  split
  · rw [Option.bind_some, if_pos (by omega)]
  · split
    · rw [Option.bind_some, if_neg (by omega)]
    · split
      · rw [Option.bind_some, if_neg (by omega)]
      · rfl

theorem foldlM_digits (cs : List Char) (n m : Nat) :
    cs.foldlM (fun n c => (digitValue? 10 c).map (n * 10 + ·)) n = some m ↔
      (∀ c ∈ cs, c.isDigit = true) ∧ m = Nat.ofDigitChars 10 cs n := by
  induction cs generalizing n with
  | nil =>
    constructor
    · rintro ⟨⟩
      exact ⟨by simp, rfl⟩
    · rintro ⟨-, rfl⟩
      rfl
  | cons c cs ih =>
    rw [List.foldlM_cons, digitValue?_ten, Nat.ofDigitChars_cons, Nat.mul_comm 10 n]
    by_cases hc : c.isDigit = true
    · rw [if_pos hc, Option.map_some]
      simp only [Option.bind_eq_bind, Option.bind_some, ih, List.forall_mem_cons, hc, true_and]
    · rw [if_neg hc]
      simp [hc]

theorem digits?_ten (cs : List Char) (m : Nat) :
    digits? 10 cs = some m ↔ cs ≠ [] ∧ (∀ c ∈ cs, c.isDigit = true) ∧ m = Nat.ofDigitChars 10 cs 0 := by
  cases cs with
  | nil => simp [digits?]
  | cons c cs => simp only [digits?, foldlM_digits, ne_eq, reduceCtorEq, not_false_eq_true, true_and]

/-- A decimal number of 64 bits; a plus sign may stand in front. -/
def IsNumber (text : String) (n : Nat) : Prop :=
  ∃ digits, (text.toList = digits ∨ text.toList = '+' :: digits) ∧ digits ≠ [] ∧
    (∀ c ∈ digits, c.isDigit = true) ∧ n = Nat.ofDigitChars 10 digits 0 ∧ n < Nat.pow 2 64

/-- Digits without the sign in front of them, if there is one. -/
theorem unsigned_cases (cs : List Char) : cs = unsigned cs ∨ cs = '+' :: unsigned cs := by
  unfold unsigned
  split
  · exact .inr rfl
  · exact .inl rfl

theorem unsigned_digits {digits : List Char} (h : ∀ c ∈ digits, c.isDigit = true) : unsigned digits = digits := by
  unfold unsigned
  split
  next cs => exact absurd (h '+' List.mem_cons_self) (by decide)
  next => rfl

theorem parseNat?_iff (text : String) (n : Nat) : parseNat? text = some n ↔ IsNumber text n := by
  have hread : parseNat? text = some n ↔ digits? 10 (unsigned text.toList) = some n ∧ n < Nat.pow 2 64 := by
    simp only [parseNat?, Option.bind_eq_some_iff]
    constructor
    · rintro ⟨m, hm, hn⟩
      split at hn
      next hlt =>
        cases hn
        exact ⟨hm, hlt⟩
      next => cases hn
    · rintro ⟨hn, hlt⟩
      exact ⟨n, hn, if_pos hlt⟩
  rw [hread, digits?_ten]
  constructor
  · rintro ⟨⟨hne, hdigits, hn⟩, hlt⟩
    exact ⟨_, unsigned_cases text.toList, hne, hdigits, hn, hlt⟩
  · rintro ⟨digits, hsign, hne, hdigits, hn, hlt⟩
    have hunsigned : unsigned text.toList = digits := by
      rcases hsign with h | h
      · rw [h]
        exact unsigned_digits hdigits
      · rw [h]
        rfl
    rw [hunsigned]
    exact ⟨⟨hne, hdigits, hn⟩, hlt⟩

end Numbers

/-! ## Variables -/

/-- A field that a variable can set. -/
inductive Knob where
  | level
  | format
  | eventSizeMax
  | throttleMs
  | agentId
  | userId
deriving DecidableEq, Repr

namespace Knob

/-- The order in which variables are looked at. -/
def all : List Knob := [.level, .format, .eventSizeMax, .throttleMs, .agentId, .userId]

def name : Knob → String
  | .level => "RELAYBOT_LOG_LEVEL"
  | .format => "RELAYBOT_LOG_FORMAT"
  | .eventSizeMax => "RELAYBOT_EVENT_SIZE_MAX"
  | .throttleMs => "RELAYBOT_THROTTLE_MS"
  | .agentId => "RELAYBOT_AGENT_ID"
  | .userId => "RELAYBOT_USER_ID"

def Value : Knob → Type
  | .level | .agentId | .userId => String
  | .format => LogFormat
  | .eventSizeMax | .throttleMs => Nat

instance : (k : Knob) → DecidableEq k.Value
  | .level | .agentId | .userId => inferInstanceAs (DecidableEq String)
  | .format => inferInstanceAs (DecidableEq LogFormat)
  | .eventSizeMax | .throttleMs => inferInstanceAs (DecidableEq Nat)

def get (c : Config) : (k : Knob) → k.Value
  | .level => c.logging.level
  | .format => c.logging.format
  | .eventSizeMax => c.publishing.eventSizeMax
  | .throttleMs => c.publishing.throttleMs
  | .agentId => c.identity.agentId
  | .userId => c.identity.userId

def read : (k : Knob) → String → Except String k.Value
  | .level | .agentId | .userId => readText
  | .format => readFormat
  | .eventSizeMax => readNat "must be a positive number of bytes"
  | .throttleMs => readNat "must be a number of milliseconds"

/-- A text in lower case, as far as ASCII goes. -/
def lowered (text : String) : String := String.ofList (text.toList.map Char.toLower)

/-- What a text says of a field. -/
def Says : (k : Knob) → String → k.Value → Prop
  | .level, text, v | .agentId, text, v | .userId, text, v => v = text
  | .format, text, v =>
    v = LogFormat.pretty ∧ (lowered text = "pretty" ∨ lowered text = "text") ∨ v = LogFormat.json ∧ lowered text = "json"
  | .eventSizeMax, text, v | .throttleMs, text, v => IsNumber text v

/-- What is reported of a text that says nothing of a field. -/
def complaint : Knob → String → String
  | .format, text => "unknown log format '" ++ lowered text ++ "'"
  | .eventSizeMax, _ => "must be a positive number of bytes"
  | .throttleMs, _ => "must be a number of milliseconds"
  | .level, _ | .agentId, _ | .userId, _ => ""

theorem readFormat_eq (text : String) : readFormat text =
    if lowered text = "pretty" ∨ lowered text = "text" then .ok .pretty
    else if lowered text = "json" then .ok .json
    else .error (complaint .format text) := by
  have hname : LogFormat.ofName? text =
      if lowered text = "pretty" ∨ lowered text = "text" then .ok .pretty
      else if lowered text = "json" then .ok .json
      else .error (lowered text) := rfl
  rw [readFormat, hname]
  split
  · rfl
  · split <;> rfl

theorem readFormat_ok_iff (text : String) (f : LogFormat) : readFormat text = .ok f ↔ Says .format text f := by
  show readFormat text = .ok f ↔
    f = .pretty ∧ (lowered text = "pretty" ∨ lowered text = "text") ∨ f = .json ∧ lowered text = "json"
  rw [readFormat_eq]
  split
  next hpretty =>
    have hjson : lowered text ≠ "json" := by
      intro hjson
      simp [hjson] at hpretty
    cases f <;> simp [hpretty, hjson]
  next hpretty =>
    split
    next hjson => cases f <;> simp [hjson]
    next hjson => cases f <;> simp [hpretty, hjson]

theorem readNat_ok_iff (complaint text : String) (n : Nat) : readNat complaint text = .ok n ↔ IsNumber text n := by
  rw [← parseNat?_iff, readNat]
  cases parseNat? text with
  | none => simp
  | some m => simp

theorem read_ok_iff (k : Knob) (text : String) (v : k.Value) : k.read text = .ok v ↔ k.Says text v := by
  cases k with
  | level | agentId | userId => exact ⟨fun h => (Except.ok.inj h).symm, fun h => congrArg Except.ok h.symm⟩
  | format => exact readFormat_ok_iff text v
  | eventSizeMax | throttleMs => exact readNat_ok_iff _ text v

theorem eq_complaint {k : Knob} {text detail : String} (h : k.read text = .error detail) :
    detail = k.complaint text := by
  cases k with
  | level | agentId | userId => cases h
  | format =>
    rw [show read .format text = readFormat text from rfl, readFormat_eq] at h
    split at h
    · cases h
    · split at h <;> cases h
      rfl
  | eventSizeMax | throttleMs =>
    simp only [read, readNat] at h
    cases hparse : parseNat? text <;> rw [hparse] at h <;> cases h
    rfl

end Knob

/-! ## Layers -/

section Layers

variable (env : Environment) (base : Config)

/-- The value of a field that has a variable: what the file says, if that is not
the default, or else what the variable says, if it is set, or else the default. -/
inductive Layer (k : Knob) : k.Value → Prop where
  | file (changed : k.get base ≠ k.get default) : Layer k (k.get base)
  | environment (left : k.get base = k.get default) {text : String} (set : env k.name = some text) {v : k.Value}
    (value : k.Says text v) : Layer k v
  | default (left : k.get base = k.get default) (unset : env k.name = none) : Layer k (k.get default)

/-- The configuration with its layers: fields that have no variable are the file's. -/
structure Layered (c : Config) : Prop where
  layer : ∀ k : Knob, Layer env base k (k.get c)
  thinkingMessage : c.publishing.thinkingMessage = base.publishing.thinkingMessage
  attachments : c.attachments = base.attachments
  delimiting : c.delimiting = base.delimiting

/-- The file left a field at its default, and its variable is set to a text that
says nothing of the field. -/
structure Unreadable (k : Knob) (text : String) : Prop where
  left : k.get base = k.get default
  set : env k.name = some text
  unreadable : ∀ v, ¬k.Says text v

/-- The first of these variables that cannot be read. -/
def FirstUnreadable (ks : List Knob) (k : Knob) (text : String) : Prop :=
  ∃ before after, ks = before ++ k :: after ∧ (∀ j ∈ before, ∀ other, ¬Unreadable env base j other) ∧
    Unreadable env base k text

/-- What loading comes to: a configuration in its layers that breaks no rule, or
the first variable that cannot be read, or, when there is none, a problem for
each rule that the layers together break. -/
inductive Outcome : Except ConfigFault Config → Prop where
  | loaded {c : Config} (layered : Layered env base c) (valid : ∀ p, ¬Problem.Broken c p) : Outcome (.ok c)
  | unreadable {k : Knob} {text : String} (first : FirstUnreadable env base Knob.all k text) :
    Outcome (.error (.invalidVariable k.name (k.complaint text)))
  | invalid {c : Config} {problems : List Problem} (readable : ∀ k text, ¬Unreadable env base k text)
    (layered : Layered env base c) (reports : Reports c problems) (broken : problems ≠ []) :
    Outcome (.error (.invalid (problems.map Problem.message)))

variable {env base}

theorem firstUnreadable_cons {j k : Knob} {ks : List Knob} {text : String} :
    FirstUnreadable env base (j :: ks) k text ↔
      (k = j ∧ Unreadable env base k text) ∨
        (∀ other, ¬Unreadable env base j other) ∧ FirstUnreadable env base ks k text := by
  constructor
  · rintro ⟨before, after, hsplit, hbefore, htext⟩
    cases before with
    | nil =>
      cases hsplit
      exact .inl ⟨rfl, htext⟩
    | cons first before =>
      cases hsplit
      exact .inr ⟨hbefore j List.mem_cons_self, before, after, rfl,
        fun i hi => hbefore i (List.mem_cons_of_mem j hi), htext⟩
  · rintro (⟨rfl, htext⟩ | ⟨hj, before, after, rfl, hbefore, htext⟩)
    · exact ⟨[], ks, rfl, by simp, htext⟩
    · refine ⟨j :: before, after, rfl, fun i hi => ?_, htext⟩
      rcases List.mem_cons.1 hi with rfl | hi
      · exact hj
      · exact hbefore i hi

/-- The value of a field that has a variable, as it is worked out. -/
def settle (env : Environment) (base : Config) (k : Knob) : Except ConfigFault k.Value :=
  override env k.name k.read (k.get default) (k.get base)

section Settle

variable {k : Knob}

theorem settle_changed (hchanged : k.get base ≠ k.get default) : settle env base k = .ok (k.get base) :=
  if_neg hchanged

theorem settle_unset (hleft : k.get base = k.get default) (hunset : env k.name = none) :
    settle env base k = .ok (k.get default) := by
  rw [settle, override, if_pos hleft, hunset, hleft]

theorem settle_set (hleft : k.get base = k.get default) {text : String} (hset : env k.name = some text) :
    settle env base k = (k.read text).mapError (.invalidVariable k.name) := by
  rw [settle, override, if_pos hleft, hset]

theorem Layer.settle_eq {v : k.Value} (h : Layer env base k v) : settle env base k = .ok v := by
  cases h with
  | file hchanged => exact settle_changed hchanged
  | environment hleft hset hvalue =>
    rw [settle_set hleft hset, (k.read_ok_iff _ v).2 hvalue]
    rfl
  | default hleft hunset => exact settle_unset hleft hunset

theorem Unreadable.settle_eq {text : String} (h : Unreadable env base k text) :
    settle env base k = .error (.invalidVariable k.name (k.complaint text)) := by
  rw [settle_set h.left h.set]
  cases hread : k.read text with
  | ok v => exact absurd ((k.read_ok_iff text v).1 hread) (h.unreadable v)
  | error detail =>
    rw [Knob.eq_complaint hread]
    rfl

/-- A field has a value, or its variable keeps it from having one. -/
theorem layer_or_unreadable (env : Environment) (base : Config) (k : Knob) :
    (∃ v, Layer env base k v) ∨ ∃ text, Unreadable env base k text := by
  by_cases hleft : k.get base = k.get default
  · cases hset : env k.name with
    | none => exact .inl ⟨_, .default hleft hset⟩
    | some text =>
      cases hread : k.read text with
      | ok v => exact .inl ⟨v, .environment hleft hset ((k.read_ok_iff text v).1 hread)⟩
      | error detail =>
        refine .inr ⟨text, hleft, hset, fun v hvalue => ?_⟩
        rw [(k.read_ok_iff text v).2 hvalue] at hread
        cases hread
  · exact .inl ⟨_, .file hleft⟩

theorem settle_ok_iff {v : k.Value} : settle env base k = .ok v ↔ Layer env base k v := by
  refine ⟨fun h => ?_, Layer.settle_eq⟩
  rcases layer_or_unreadable env base k with ⟨w, hw⟩ | ⟨text, htext⟩
  · rw [hw.settle_eq] at h
    cases h
    exact hw
  · rw [htext.settle_eq] at h
    cases h

theorem readable_of_layer {v : k.Value} (h : Layer env base k v) (text : String) : ¬Unreadable env base k text := by
  intro htext
  have herror := htext.settle_eq
  rw [h.settle_eq] at herror
  cases herror

/-- A field is worked out before those behind it: its variable is the first that
cannot be read, or one of theirs is. -/
theorem bind_settle_error_iff {α : Type} {ks : List Knob} {next : k.Value → Except ConfigFault α} {fault : ConfigFault}
    (hnext : ∀ v, next v = .error fault ↔
      ∃ j text, FirstUnreadable env base ks j text ∧ fault = .invalidVariable j.name (j.complaint text)) :
    (settle env base k >>= next) = .error fault ↔
      ∃ j text, FirstUnreadable env base (k :: ks) j text ∧ fault = .invalidVariable j.name (j.complaint text) := by
  simp only [firstUnreadable_cons]
  rcases layer_or_unreadable env base k with ⟨v, hv⟩ | ⟨text, htext⟩
  · have hreadable := readable_of_layer hv
    rw [hv.settle_eq]
    refine (hnext v).trans ⟨?_, ?_⟩
    · rintro ⟨j, text, hfirst, rfl⟩
      exact ⟨j, text, .inr ⟨hreadable, hfirst⟩, rfl⟩
    · rintro ⟨j, text, ⟨rfl, htext⟩ | ⟨-, hfirst⟩, rfl⟩
      · exact absurd htext (hreadable text)
      · exact ⟨j, text, hfirst, rfl⟩
  · rw [htext.settle_eq]
    constructor
    · rintro ⟨⟩
      exact ⟨k, text, .inl ⟨rfl, htext⟩, rfl⟩
    · rintro ⟨j, other, ⟨rfl, hother⟩ | ⟨hnone, -⟩, rfl⟩
      · obtain rfl : other = text := Option.some.inj (hother.set.symm.trans htext.set)
        rfl
      · exact absurd htext (hnone text)

end Settle

/-! ## Loading -/

theorem applyEnvironment_eq (env : Environment) (base : Config) : applyEnvironment env base =
    (settle env base .level >>= fun level => settle env base .format >>= fun format =>
      settle env base .eventSizeMax >>= fun eventSizeMax => settle env base .throttleMs >>= fun throttleMs =>
        settle env base .agentId >>= fun agentId => settle env base .userId >>= fun userId =>
          .ok { base with
            identity := ⟨userId, agentId⟩
            logging := ⟨level, format⟩
            publishing := { base.publishing with eventSizeMax, throttleMs } }) := rfl

theorem applyEnvironment_error_iff {fault : ConfigFault} : applyEnvironment env base = .error fault ↔
    ∃ k text, FirstUnreadable env base Knob.all k text ∧ fault = .invalidVariable k.name (k.complaint text) := by
  rw [applyEnvironment_eq]
  refine bind_settle_error_iff fun level => bind_settle_error_iff fun format => bind_settle_error_iff fun size =>
    bind_settle_error_iff fun throttle => bind_settle_error_iff fun agent => bind_settle_error_iff fun user => ?_
  simp [FirstUnreadable]

theorem exists_of_bind_ok {ε α β : Type} {x : Except ε α} {next : α → Except ε β} {b : β}
    (h : x >>= next = .ok b) : ∃ a, x = .ok a ∧ next a = .ok b := by
  cases x with
  | error e => cases h
  | ok a => exact ⟨a, rfl, h⟩

theorem applyEnvironment_ok_iff {c : Config} : applyEnvironment env base = .ok c ↔ Layered env base c := by
  rw [applyEnvironment_eq]
  constructor
  · intro h
    obtain ⟨level, hlevel, h⟩ := exists_of_bind_ok h
    obtain ⟨format, hformat, h⟩ := exists_of_bind_ok h
    obtain ⟨size, hsize, h⟩ := exists_of_bind_ok h
    obtain ⟨throttle, hthrottle, h⟩ := exists_of_bind_ok h
    obtain ⟨agent, hagent, h⟩ := exists_of_bind_ok h
    obtain ⟨user, huser, h⟩ := exists_of_bind_ok h
    cases h
    refine ⟨fun k => ?_, rfl, rfl, rfl⟩
    cases k with
    | level => exact settle_ok_iff.1 hlevel
    | format => exact settle_ok_iff.1 hformat
    | eventSizeMax => exact settle_ok_iff.1 hsize
    | throttleMs => exact settle_ok_iff.1 hthrottle
    | agentId => exact settle_ok_iff.1 hagent
    | userId => exact settle_ok_iff.1 huser
  · intro h
    have hsettle : ∀ k : Knob, settle env base k = .ok (k.get c) := fun k => settle_ok_iff.2 (h.layer k)
    rw [hsettle .level, hsettle .format, hsettle .eventSizeMax, hsettle .throttleMs, hsettle .agentId, hsettle .userId]
    obtain ⟨-, hthinking, hattachments, hdelimiting⟩ := h
    obtain ⟨identity, logging, ⟨size, throttle, thinking⟩, attachments, delimiting⟩ := c
    cases hthinking
    cases hattachments
    cases hdelimiting
    rfl

/-- Loading after the file has been read, if there is one. -/
theorem load_eq {file : Option SourceFile} (hfile : file.elim (.ok default) SourceFile.config = .ok base)
    (env : Environment) : load file env = applyEnvironment env base >>= validated := by
  rw [load, hfile]
  rfl

theorem outcome_of_load {file : Option SourceFile} (hfile : file.elim (.ok default) SourceFile.config = .ok base)
    (env : Environment) : Outcome env base (load file env) := by
  rw [load_eq hfile]
  cases happly : applyEnvironment env base with
  | error fault =>
    obtain ⟨k, text, hfirst, rfl⟩ := applyEnvironment_error_iff.1 happly
    exact .unreadable hfirst
  | ok c =>
    have hlayered := applyEnvironment_ok_iff.1 happly
    show Outcome env base (validated c)
    rw [validated]
    split
    next hnone => exact .loaded hlayered ((problems_eq_nil_iff c).1 hnone)
    next hbroken =>
      exact .invalid (fun k => readable_of_layer (hlayered.layer k)) hlayered (reports_problems c) hbroken

theorem load_of_outcome {file : Option SourceFile} (hfile : file.elim (.ok default) SourceFile.config = .ok base)
    {env : Environment} {result : Except ConfigFault Config} (h : Outcome env base result) : load file env = result := by
  rw [load_eq hfile]
  cases h with
  | @loaded c hlayered hvalid =>
    rw [applyEnvironment_ok_iff.2 hlayered]
    exact if_pos ((problems_eq_nil_iff c).2 hvalid)
  | unreadable hfirst =>
    rw [applyEnvironment_error_iff.2 ⟨_, _, hfirst, rfl⟩]
    rfl
  | @invalid c problems _ hlayered hreports hbroken =>
    rw [applyEnvironment_ok_iff.2 hlayered]
    obtain rfl := hreports.eq_problems
    exact if_neg hbroken

/-- Only variables whose fields the file left at their defaults have a say. -/
theorem applyEnvironment_congr {env' : Environment}
    (h : ∀ k : Knob, k.get base = k.get default → env' k.name = env k.name) :
    applyEnvironment env' base = applyEnvironment env base := by
  have hsettle : ∀ k, settle env' base k = settle env base k := by
    intro k
    by_cases hleft : k.get base = k.get default
    · rw [settle, settle, override, override, h k hleft]
    · rw [settle_changed hleft, settle_changed hleft]
  simp only [applyEnvironment_eq, hsettle]

/-- **Configuration layering.** Whatever configuration a file holds, or the
default one when there is none, and whatever variables are set: loading gives
the layered configuration, if it breaks no rule, or else reports the first
variable that cannot be read of those whose fields the file left at their
defaults, or, when there is none, each rule that is broken. Nothing else comes
of it, and what the other variables say has no effect. -/
theorem load_layers {file : Option SourceFile} {base : Config}
    (hfile : file.elim (.ok default) SourceFile.config = .ok base) (env : Environment) :
    (∀ result, load file env = result ↔ Outcome env base result) ∧
      ∀ env' : Environment, (∀ k : Knob, k.get base = k.get default → env' k.name = env k.name) →
        load file env' = load file env := by
  refine ⟨fun result => ⟨fun h => h ▸ outcome_of_load hfile env, load_of_outcome hfile⟩, fun env' h => ?_⟩
  rw [load_eq hfile, load_eq hfile, applyEnvironment_congr h]

/-! A file that sets one field, and an environment that has this one wrong and sets two others. -/

def sizedFile : SourceFile := ⟨"bot.json", some "\x7b\"publisher\": \x7b\"event_size_max\": 2048\x7d\x7d".toUTF8⟩

def sized : Config := { default with publishing.eventSizeMax := 2048 }

def hugeEnvironment : Environment := fun name =>
  [("RELAYBOT_EVENT_SIZE_MAX", "huge"), ("RELAYBOT_THROTTLE_MS", "+100"), ("RELAYBOT_LOG_FORMAT", "JSON")].lookup name

theorem load_layers_sized :
    Option.elim (some sizedFile) (.ok default) SourceFile.config = .ok sized ∧
      load (some sizedFile) hugeEnvironment =
        .ok { sized with logging.format := .json, publishing.throttleMs := 100 } ∧
      (∀ result, load (some sizedFile) hugeEnvironment = result ↔ Outcome hugeEnvironment sized result) ∧
      ∀ env' : Environment, (∀ k : Knob, k.get sized = k.get default → env' k.name = hugeEnvironment k.name) →
        load (some sizedFile) env' = load (some sizedFile) hugeEnvironment := by
  have hfile : Option.elim (some sizedFile) (.ok default) SourceFile.config = .ok sized := by
    decide +kernel
  exact ⟨hfile, by decide +kernel, load_layers hfile hugeEnvironment⟩

end Layers

end ReplyStream.Config
