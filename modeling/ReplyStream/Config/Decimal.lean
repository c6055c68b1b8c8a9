/-
Decimal numbers with a fraction or an exponent, held as written: a number of
digits and a power of ten. `double?` is the nearest double, and `natural?`
the natural a number counts as when its double is whole.
-/
import ReplyStream.Config.Setting

namespace ReplyStream.Config

/-- `significand * 10 ^ exponent`, up to the sign. -/
structure Decimal where
  negative : Bool
  significand : Nat
  exponent : Int
deriving DecidableEq, Repr

namespace Decimal

/-- No double reaches this power of ten. -/
def ceiling : Int := 310

/-- Every number below this power of ten is nearest to zero. -/
def floor : Int := -330

/-- The nearest double, or nothing when that would be infinite. -/
def double? (d : Decimal) : Option Json.Double :=
  let top : Int := d.exponent + (Nat.toDigits 10 d.significand).length
  if d.significand = 0 ∨ top < floor then some (Json.Double.zero d.negative)
  else if ceiling < top then none
  else if d.exponent < 0 then
    Json.Double.nearest? d.negative d.significand (Nat.pow 10 d.exponent.natAbs)
  else Json.Double.nearest? d.negative (d.significand * Nat.pow 10 d.exponent.toNat) 1

/-- The magnitude of a double that is whole. -/
def whole? (d : Json.Double) : Option Nat :=
  if 0 ≤ d.exponent then some (d.mantissa * Nat.pow 2 d.exponent.toNat)
  else if d.mantissa % Nat.pow 2 d.exponent.natAbs = 0 then some (d.mantissa / Nat.pow 2 d.exponent.natAbs)
  else none

/-- The natural of 64 bits that the nearest double is. The double just beyond
them counts as the largest one. -/
def natural? (d : Decimal) : Option Nat :=
  match d.double? with
  | none => none
  | some x =>
    if x.negative ∧ x.mantissa ≠ 0 then none
    else (whole? x).bind fun n => if n ≤ Nat.pow 2 64 then some (min n (Nat.pow 2 64 - 1)) else none

/-! ## Reading -/

/-- The sign in front of a number, if there is one. -/
def signed : List Char → Bool × List Char
  | '-' :: cs => (true, cs)
  | '+' :: cs => (false, cs)
  | cs => (false, cs)

def isDigit (c : Char) : Bool := '0' ≤ c && c ≤ '9'

/-- The number of a run of digits; zero for none. -/
def number (cs : List Char) : Nat := cs.foldl (fun n c => n * 10 + (c.toNat - '0'.toNat)) 0

/-- The exponent behind its mark, which may be missing altogether. -/
def scale? : List Char → Option Int
  | [] => some 0
  | mark :: cs =>
    if mark ≠ 'e' ∧ mark ≠ 'E' then none
    else
      let (negative, ds) := signed cs
      if ds = [] ∨ !ds.all isDigit then none
      else some (if negative then -(number ds : Int) else number ds)

/-- Reads digits with a point at any place among them, or without one, and an
exponent. -/
def ofChars? (cs : List Char) : Option Decimal :=
  let (negative, cs) := signed cs
  let before := cs.takeWhile isDigit
  let cs := cs.dropWhile isDigit
  let (after, cs) := match cs with
    | '.' :: cs => (cs.takeWhile isDigit, cs.dropWhile isDigit)
    | cs => ([], cs)
  if before = [] ∧ after = [] then none
  else (scale? cs).map fun e => ⟨negative, number (before ++ after), e - after.length⟩

end Decimal

end ReplyStream.Config
