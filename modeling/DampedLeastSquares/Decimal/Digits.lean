import DampedLeastSquares.Decimal.Exact

/-!
# Decimal digits of a positive value

There are two ways to choose the digits of a value. One fixes their number and takes the nearest
decimal of that length, the even one if two are as near. The other takes the fewest digits that no
other float would be read from, and among decimals of that length the nearest; which one it takes
if two are as near is left to the caller.

For the second, a float `m · 2 ^ e` owns the interval of reals that round to it. Its ends are half
a step away, except that the step below a power of two is half as long; they belong to the interval
when `m` is even. If a decimal grid meets the interval at all, then it does so at one of the two
grid points next to the value, so it is enough to try those, on grids of 1, 2, … 17 digits.
-/

namespace DampedLeastSquares.Decimal

/-- The decimal `coefficient · 10 ^ exponent`. -/
structure Digits where
  /-- The digits, read as one natural number. -/
  coefficient : Nat
  /-- The place of the last digit. -/
  exponent : Int
  deriving DecidableEq, Repr

namespace Digits

/-- The digits as characters, without leading zeros. -/
def chars (d : Digits) : List Char := Nat.toDigits 10 d.coefficient

/-- The place of the first digit. -/
def leadingPlace (d : Digits) : Int := d.exponent + (d.chars.length : Int) - 1

/-- The nearest decimal whose last digit stands at the given place. -/
def atPlace (q : Quotient) (place : Int) : Digits :=
  ⟨(q.scale 10 (-place)).round .toEven, place⟩

/-- The nearest decimal of `count` digits, for a positive value and a positive count. A value that
rounds up to a power of ten keeps its number of digits. -/
def significant (q : Quotient) (count : Nat) : Digits :=
  let place := q.decimalExponent - (count : Int) + 1
  let d := atPlace q place
  if d.coefficient = Nat.pow 10 count then ⟨Nat.pow 10 (count - 1), place + 1⟩ else d

/-- Removes the last digits that are zero, at most `fuel` of them. -/
def dropZeros : Nat → Digits → Digits
  | 0, d => d
  | fuel + 1, d =>
    if d.coefficient ≠ 0 ∧ d.coefficient % 10 = 0 then
      dropZeros fuel ⟨d.coefficient / 10, d.exponent + 1⟩
    else d

/-- The decimal without zeros at its end. -/
def trim (d : Digits) : Digits := dropZeros d.chars.length d

end Digits

/-- The reals that round to the positive float `mantissa · 2 ^ exponent`, between `lower` and
`upper` quarters of a unit of `2 ^ exponent`. -/
structure RoundingInterval where
  /-- The lower end, in quarters of a unit. -/
  lower : Nat
  /-- The upper end, in quarters of a unit. -/
  upper : Nat
  /-- The exponent of the unit. -/
  exponent : Int
  /-- Whether the ends round to the float as well. -/
  closed : Bool

namespace RoundingInterval

/-- The interval of a float. Below a power of two, other than in the range of the least exponent,
the next float is only half as far away. -/
def ofBinary (mantissa : Nat) (exponent : Int) : RoundingInterval where
  lower :=
    if mantissa = leastMantissa ∧ exponent ≠ -1074 then 4 * mantissa - 1 else 4 * mantissa - 2
  upper := 4 * mantissa + 2
  exponent := exponent
  closed := mantissa % 2 = 0

/-- Whether a decimal lies in the interval: its ends and the decimal are put over one denominator
and compared as natural numbers. -/
def contains (i : RoundingInterval) (d : Digits) : Bool :=
  let decimal := Quotient.scale 10 ⟨d.coefficient, 1⟩ d.exponent
  let unit := Quotient.ofBinary 1 (i.exponent - 2)
  let value := decimal.numerator * unit.denominator
  let low := i.lower * unit.numerator * decimal.denominator
  let high := i.upper * unit.numerator * decimal.denominator
  if i.closed then decide (low ≤ value ∧ value ≤ high) else decide (low < value ∧ value < high)

end RoundingInterval

namespace Digits

/-- The decimal of the grid at `place` that is read back as the float with interval `i` and value
`q`: the nearer of the two grid points around the value. -/
def onGrid? (tie : Tie) (i : RoundingInterval) (q : Quotient) (place : Int) : Option Digits :=
  let scaled := q.scale 10 (-place)
  let nearest : Digits := ⟨scaled.round tie, place⟩
  let below : Digits := ⟨scaled.floor, place⟩
  let above : Digits := ⟨scaled.floor + 1, place⟩
  [nearest, below, above].find? i.contains

/-- The shortest decimal that is read back as the positive float `mantissa · 2 ^ exponent`.
Seventeen digits always suffice. -/
def shortest (tie : Tie) (mantissa : Nat) (exponent : Int) : Digits :=
  let q := Quotient.ofBinary mantissa exponent
  let interval := RoundingInterval.ofBinary mantissa exponent
  let leading := q.decimalExponent
  let grids := (List.range 17).map fun (extra : Nat) ↦ leading - (extra : Int)
  ((grids.findSome? (onGrid? tie interval q)).getD (significant q 17)).trim

end Digits

end DampedLeastSquares.Decimal
