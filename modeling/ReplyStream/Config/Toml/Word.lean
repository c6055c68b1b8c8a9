/-
What a bare word of TOML stands for: a truth value, an integer, a float, or a
date and time of day. Digits may have underscores between them, and no number
begins with a zero that is not its only digit before the point.
-/
import ReplyStream.Config.Decimal

namespace ReplyStream.Config.Toml

/-! ## Integers -/

/-- Takes out underscores, each of which stands between two digits. -/
def ungroup? (base : Nat) : List Char → Option (List Char)
  | [] => some []
  | d :: '_' :: e :: cs =>
    if (Setting.digitValue? base d).isSome ∧ (Setting.digitValue? base e).isSome then
      (ungroup? base (e :: cs)).map (d :: ·)
    else none
  | c :: cs => if c = '_' then none else (ungroup? base cs).map (c :: ·)

/-- Digits of a base, at least one. -/
def digits? (base : Nat) (cs : List Char) : Option Nat := (ungroup? base cs).bind (Setting.digits? base)

/-- Whether a zero stands in front of another digit. -/
def hasLeadingZero : List Char → Bool
  | '0' :: c :: _ => c.isDigit || c == '_'
  | _ => false

/-- An integer, decimal or behind the mark of its base. -/
def integer? (cs : List Char) : Option Int :=
  match cs with
  | '0' :: 'x' :: ds => (digits? 16 ds).map fun n => (n : Int)
  | '0' :: 'o' :: ds => (digits? 8 ds).map fun n => (n : Int)
  | '0' :: 'b' :: ds => (digits? 2 ds).map fun n => (n : Int)
  | _ =>
    let (negative, ds) := Decimal.signed cs
    if hasLeadingZero ds then none
    else (digits? 10 ds).map fun n => if negative then -(n : Int) else n

/-- Whether an integer is one of 128 bits. -/
def isWide (n : Int) : Bool := -Int.pow 2 127 ≤ n && n < Int.pow 2 128

/-! ## Floats -/

/-- Whether a run of digits, with underscores between them, is well formed. -/
def isRun (cs : List Char) : Bool := (digits? 10 cs).isSome

/-- Whether what follows the whole part of a float is well formed: a fraction,
an exponent, or both. -/
def isTail (cs : List Char) : Bool :=
  let isMark (c : Char) : Bool := c == 'e' || c == 'E'
  match cs with
  | '.' :: cs =>
    isRun (cs.takeWhile (!isMark ·)) &&
      match cs.dropWhile (!isMark ·) with
      | [] => true
      | _ :: exponent => isRun (Decimal.signed exponent).2
  | mark :: exponent => isMark mark && isRun (Decimal.signed exponent).2
  | [] => false

/-- Whether a word is a float. The digits of one that is too large do not
count. -/
def isFloat (cs : List Char) : Bool :=
  let unsigned := (Decimal.signed cs).2
  let isWhole (c : Char) : Bool := c.isDigit || c == '_'
  ["inf", "nan"].contains (String.ofList unsigned) ||
    (!hasLeadingZero unsigned && isRun (unsigned.takeWhile isWhole) && isTail (unsigned.dropWhile isWhole) &&
      ((Decimal.ofChars? (cs.filter (· != '_'))).bind Decimal.double?).isSome)

/-! ## Dates and times -/

/-- A number of exactly `count` digits at the start of a text. -/
def fixed? (count : Nat) (cs : List Char) : Option (Nat × List Char) :=
  let ds := cs.take count
  if ds.length = count ∧ ds.all Decimal.isDigit then some (Decimal.number ds, cs.drop count) else none

def isLeap (year : Nat) : Bool := year % 4 == 0 && (year % 100 != 0 || year % 400 == 0)

def daysOf (year month : Nat) : Nat :=
  if month = 2 then if isLeap year then 29 else 28
  else if [4, 6, 9, 11].contains month then 30
  else 31

/-- What follows a date. -/
def date? (cs : List Char) : Option (List Char) :=
  match fixed? 4 cs with
  | some (year, '-' :: cs) =>
    match fixed? 2 cs with
    | some (month, '-' :: cs) =>
      (fixed? 2 cs).bind fun (day, rest) =>
        if 1 ≤ month ∧ month ≤ 12 ∧ 1 ≤ day ∧ day ≤ daysOf year month then some rest else none
    | _ => none
  | _ => none

/-- What follows hours and minutes. -/
def minutes? (cs : List Char) : Option (List Char) :=
  match fixed? 2 cs with
  | some (hour, ':' :: cs) =>
    (fixed? 2 cs).bind fun (minute, rest) => if hour < 24 ∧ minute < 60 then some rest else none
  | _ => none

/-- What follows a time of day, whose seconds may be missing. -/
def time? (cs : List Char) : Option (List Char) :=
  (minutes? cs).bind fun rest =>
    match rest with
    | ':' :: cs =>
      (fixed? 2 cs).bind fun (second, rest) =>
        if 60 < second then none
        else
          match rest with
          | '.' :: cs => if cs.head?.any Decimal.isDigit then some (cs.dropWhile Decimal.isDigit) else none
          | rest => some rest
    | rest => some rest

/-- Whether this is the offset of a time, or nothing. -/
def isOffset (cs : List Char) : Bool :=
  match cs with
  | [] | ['Z'] | ['z'] => true
  | '+' :: cs | '-' :: cs => minutes? cs == some []
  | _ => false

/-- Whether a word is a date, a time of day, or both with an offset. -/
def isMoment (cs : List Char) : Bool :=
  match date? cs with
  | some [] => true
  | some (mark :: rest) => (mark == 'T' || mark == 't' || mark == ' ') && (time? rest).any isOffset
  | none => time? cs == some []

/-! ## Words -/

/-- The setting a bare word stands for. -/
def ofWord? (cs : List Char) : Option Setting :=
  match integer? cs with
  | some n => if isWide n then some (.number n) else none
  | none =>
    if ["true", "false"].contains (String.ofList cs) || isFloat cs || isMoment cs then some .other else none

/-- Whether a bare word goes on with this character. -/
def isWordChar (c : Char) : Bool := c.isAlphanum || c == '_' || c == '+' || c == '-' || c == '.' || c == ':'

/-- A bare word at the start of a text. A time may stand behind a date with a
space between them. -/
def word (cs : List Char) : List Char × List Char :=
  let first := cs.takeWhile isWordChar
  let rest := cs.dropWhile isWordChar
  match date? first, rest with
  | some [], ' ' :: c :: cs =>
    if c.isDigit then (first ++ ' ' :: (c :: cs).takeWhile isWordChar, (c :: cs).dropWhile isWordChar)
    else (first, rest)
  | _, _ => (first, rest)

end ReplyStream.Config.Toml
