/-
Number literals. `Literal` is what the grammar of JSON numbers gives: a
sign, the digits before and after the point and the exponent, without a
leading zero. `Literal.value?` is the number it stands for: an integer where
it is written as one and fits (`-0` excepted), else a double.

A double is made from a significand of at most 64 bits: the digits are
gathered while they fit, further digits before the point only raise the
exponent, and further digits behind it are dropped.
-/
import ReplyStream.Json.Basic

namespace ReplyStream.Json

/-- An exponent as written: its sign and its digits. -/
structure ExponentPart where
  negative : Bool
  digits : List Nat
deriving Repr

/-- A number as written. `fraction` and `exponent` are present when there is
a point or an exponent mark. -/
structure Literal where
  negative : Bool
  whole : List Nat
  fraction : Option (List Nat)
  exponent : Option ExponentPart
deriving Repr

namespace Literal

/-- The value of a digit character. -/
def digit? (c : Char) : Option Nat :=
  if '0' ≤ c ∧ c ≤ '9' then some (c.toNat - '0'.toNat) else none

/-- The digits at the start of a text, and the rest. -/
def digits : List Char → List Nat × List Char
  | [] => ([], [])
  | c :: cs =>
    match digit? c with
    | some d => let (ds, rest) := digits cs; (d :: ds, rest)
    | none => ([], c :: cs)

/-- The sign and digits behind an exponent mark. -/
def scanExponent (cs : List Char) : Option (ExponentPart × List Char) :=
  let (negative, cs) := match cs with
    | '+' :: cs => (false, cs)
    | '-' :: cs => (true, cs)
    | cs => (false, cs)
  match digits cs with
  | ([], _) => none
  | (ds, rest) => some (⟨negative, ds⟩, rest)

/-- Reads a literal at the start of a text. The digits before the point have
no leading zero; behind a point and an exponent mark stands a digit. -/
def scan (cs : List Char) : Option (Literal × List Char) :=
  let (negative, cs) := match cs with
    | '-' :: cs => (true, cs)
    | cs => (false, cs)
  match digits cs with
  | ([], _) => none
  | (0 :: _ :: _, _) => none
  | (whole, cs) => do
    let (fraction, cs) ← match cs with
      | '.' :: cs =>
        match digits cs with
        | ([], _) => none
        | (ds, rest) => some (some ds, rest)
      | cs => some (none, cs)
    let (exponent, cs) ← match cs with
      | 'e' :: cs | 'E' :: cs => (scanExponent cs).map fun (e, rest) => (some e, rest)
      | cs => some (none, cs)
    some (⟨negative, whole, fraction, exponent⟩, cs)

/-- The bound of a significand. -/
def significandBound : Nat := Nat.pow 2 64

/-- The bound of an exponent as written. -/
def exponentBound : Nat := Nat.pow 2 31

/-- Appends digits while the number stays below `bound`, and counts how many
digits were left over. -/
def gather (bound : Nat) : Nat → List Nat → Nat × Nat
  | n, [] => (n, 0)
  | n, d :: ds => if n * 10 + d < bound then gather bound (n * 10 + d) ds else (n, ds.length + 1)

/-- The double a literal stands for. An exponent beyond its bound makes
infinity, which is no value, or zero. -/
def double? (l : Literal) : Option Double :=
  let (whole, dropped) := gather significandBound 0 l.whole
  let fraction := l.fraction.getD []
  let (significand, ignored) := gather significandBound whole fraction
  let scale : Int := dropped - (fraction.length - ignored : Nat)
  match l.exponent with
  | none => Double.scaled? l.negative significand scale
  | some ⟨down, ds⟩ =>
    let (e, beyond) := gather exponentBound 0 ds
    if beyond = 0 then Double.scaled? l.negative significand (if down then scale - e else scale + e)
    else if significand ≠ 0 ∧ ¬ down then none
    else some (Double.zero l.negative)

/-- The number a literal stands for, if it is finite. -/
def value? (l : Literal) : Option Json :=
  match l.fraction, l.exponent with
  | none, none =>
    let n : Int := (gather significandBound 0 l.whole).1
    let whole := (gather significandBound 0 l.whole).2 = 0
    if whole ∧ ¬ l.negative then some (.int n)
    else if whole ∧ n ≠ 0 ∧ minInt ≤ -n then some (.int (-n))
    else l.double?.map .double
  | _, _ => l.double?.map .double

end Literal

end ReplyStream.Json
