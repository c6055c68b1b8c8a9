/-
Binary floating-point numbers of 64 bits, as far as a JSON text can name
them: finite, with a sign of their own at zero. A value is held exactly, as
a sign and `mantissa * 2 ^ exponent`, so everything here is arithmetic on
naturals.

`nearest?` rounds a quotient to the nearest double (ties to the even
mantissa, nothing when it overflows); `scaled?` multiplies by a power of ten
in steps that each round; `shortest` chooses the fewest decimal digits that
round back to the value, and of two equally short ones the nearer.
-/

namespace ReplyStream.Json

/-- A finite double, `mantissa * 2 ^ exponent` up to the sign. -/
structure Double where
  negative : Bool
  mantissa : Nat
  exponent : Int
deriving DecidableEq, Repr

namespace Double

/-- The exponent of the subnormal numbers, the least there is. -/
def minExponent : Int := -1074

/-- The exponent of the largest doubles. -/
def maxExponent : Int := 971

def zero (negative : Bool) : Double := ⟨negative, 0, minExponent⟩

def isZero (d : Double) : Bool := d.mantissa == 0

/-- `num / den` times `2 ^ k`, as a quotient of naturals. -/
def shifted (num den : Nat) (k : Int) : Nat × Nat :=
  if k < 0 then (num, den * Nat.pow 2 k.natAbs) else (num * Nat.pow 2 k.toNat, den)

/-- The nearest natural to `num / den`; the even one of two. -/
def roundHalfEven (num den : Nat) : Nat :=
  let q := num / den
  let r := num % den
  if 2 * r < den then q
  else if den < 2 * r then q + 1
  else if q % 2 = 0 then q else q + 1

/-- The nearest double to `num / den`, or nothing when that would be infinite. -/
def nearest? (negative : Bool) (num den : Nat) : Option Double :=
  if num = 0 then some (zero negative)
  else
    -- the quotient lies between 2 ^ 52 and 2 ^ 54 at this exponent
    let guess : Int := (num.log2 : Int) - den.log2 - 53
    let wide := shifted num den (-guess)
    let exponent := max minExponent (if Nat.pow 2 53 ≤ wide.1 / wide.2 then guess + 1 else guess)
    let scaled := shifted num den (-exponent)
    let mantissa := roundHalfEven scaled.1 scaled.2
    let d : Double :=
      if mantissa = Nat.pow 2 53 then ⟨negative, Nat.pow 2 52, exponent + 1⟩ else ⟨negative, mantissa, exponent⟩
    if maxExponent < d.exponent then none else some d

/-- The value times `num / den`, rounded once. -/
def times? (d : Double) (num den : Nat) : Option Double :=
  if d.exponent < 0 then nearest? d.negative (d.mantissa * num) (Nat.pow 2 d.exponent.natAbs * den)
  else nearest? d.negative (d.mantissa * Nat.pow 2 d.exponent.toNat * num) den

/-- The power of ten as a double: what scaling multiplies or divides by. -/
def tenPower (k : Nat) : Double := (nearest? false (Nat.pow 10 k) 1).getD (zero false)

/-- The value times a double, rounded once. -/
def mul? (d p : Double) : Option Double :=
  if p.exponent < 0 then d.times? p.mantissa (Nat.pow 2 p.exponent.natAbs)
  else d.times? (p.mantissa * Nat.pow 2 p.exponent.toNat) 1

/-- The value divided by a double, rounded once. -/
def div? (d p : Double) : Option Double :=
  if p.exponent < 0 then d.times? (Nat.pow 2 p.exponent.natAbs) p.mantissa
  else d.times? 1 (p.mantissa * Nat.pow 2 p.exponent.toNat)

/-- The largest power of ten a double holds. -/
def largestTenPower : Nat := 308

/-- The value divided by `10 ^ k`, in steps of the largest power of ten.
Each step rounds, and a value that has become zero stays zero. -/
def divTenPower (d : Double) (k : Nat) : Option Double :=
  if k ≤ largestTenPower then d.div? (tenPower k)
  else if d.isZero then some d
  else (d.div? (tenPower largestTenPower)).bind fun e => e.divTenPower (k - largestTenPower)
termination_by k
decreasing_by simp only [largestTenPower] at *; omega

/-- `significand * 10 ^ exponent`: the significand becomes a double first
and is then scaled. Nothing when the result would be infinite. -/
def scaled? (negative : Bool) (significand : Nat) (exponent : Int) : Option Double :=
  (nearest? negative significand 1).bind fun d =>
    if exponent < 0 then d.divTenPower exponent.natAbs
    else if d.isZero then some d
    else if exponent.toNat ≤ largestTenPower then d.mul? (tenPower exponent.toNat)
    else none

/-! ## Shortest digits -/

/-- Whether `a * 10 ^ i` is less than, equal to or greater than `n * 2 ^ j`. -/
def compareScaled (a : Nat) (i : Int) (n : Nat) (j : Int) : Ordering :=
  compare (a * Nat.pow 10 i.toNat * Nat.pow 2 (-j).toNat) (n * Nat.pow 2 j.toNat * Nat.pow 10 (-i).toNat)

/-- Whether `digits * 10 ^ k` rounds to the magnitude of `d`: it lies between
the middles of the gaps to the two neighbours, ends included when the
mantissa is even. -/
def readsBack (d : Double) (digits : Nat) (k : Int) : Bool :=
  let narrow := d.mantissa == Nat.pow 2 52 && minExponent < d.exponent
  let lo := if narrow then 4 * d.mantissa - 1 else 4 * d.mantissa - 2
  let hi := 4 * d.mantissa + 2
  let ends := d.mantissa % 2 == 0
  let below := compareScaled digits k lo (d.exponent - 2)
  let above := compareScaled digits k hi (d.exponent - 2)
  (below == .gt || (ends && below == .eq)) && (above == .lt || (ends && above == .eq))

/-- The magnitude of `d` over `10 ^ k`, as a quotient of naturals. -/
def overTenPower (d : Double) (k : Int) : Nat × Nat :=
  (d.mantissa * Nat.pow 2 d.exponent.toNat * Nat.pow 10 (-k).toNat, Nat.pow 2 (-d.exponent).toNat * Nat.pow 10 k.toNat)

/-- The magnitude lies below `10 ^ k`. -/
def below (d : Double) (k : Int) : Bool := compareScaled 1 k d.mantissa d.exponent == .gt

/-- The least `k` with the magnitude below `10 ^ k`, for a value that is not
zero: an estimate from the binary logarithm, corrected by comparisons. -/
def magnitude (d : Double) : Int :=
  let guess : Int := ((d.mantissa.log2 : Int) + d.exponent) * 30103 / 100000 - 1
  if d.below guess then guess
  else if d.below (guess + 1) then guess + 1
  else if d.below (guess + 2) then guess + 2
  else guess + 3

/-- Of the two neighbours of the magnitude on the grid `10 ^ k`, the one that
reads back; the nearer of two, and the even one of two equally near. -/
def onGrid? (d : Double) (k : Int) : Option Nat :=
  let (num, den) := d.overTenPower k
  let low := num / den
  let middle := roundHalfEven num den
  match d.readsBack low k, d.readsBack (low + 1) k with
  | true, true => some middle
  | true, false => some low
  | false, true => some (low + 1)
  | false, false => none

/-- The first grid, from `count` more digits on, with a number that reads back. -/
def searchGrid (d : Double) (top : Int) : Nat → Nat → Option (Nat × Int)
  | 0, _ => none
  | steps + 1, count =>
    match d.onGrid? (top - count) with
    | some digits => some (digits, top - count)
    | none => searchGrid d top steps (count + 1)

/-- Drops trailing zeros of the digits into the exponent. -/
def stripZeros : Nat → Nat × Int → Nat × Int
  | 0, r => r
  | steps + 1, (digits, k) =>
    if digits % 10 = 0 ∧ digits ≠ 0 then stripZeros steps (digits / 10, k + 1) else (digits, k)

/-- The fewest digits that read back, as `digits * 10 ^ k`. Seventeen digits
always do. -/
def shortest (d : Double) : Nat × Int :=
  if d.isZero then (0, 0)
  else
    match d.searchGrid d.magnitude 17 1 with
    | some r => stripZeros 18 r
    | none =>
      let (num, den) := d.overTenPower minExponent
      stripZeros 400 (num / den, minExponent)

end Double

end ReplyStream.Json
