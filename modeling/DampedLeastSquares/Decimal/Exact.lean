/-!
# The exact value of a float

A finite float is a whole multiple of a power of two. Texts of floats are decided on that value
with natural numbers only, so nothing here rounds. Positive values are kept as quotients of
natural numbers, because a power of ten and a power of two then meet as factors on either side.
-/

namespace DampedLeastSquares.Decimal

/-- What a float stands for. -/
inductive Exact
  /-- No number at all. -/
  | undefined
  /-- Beyond every number, on one side. -/
  | infinite (negative : Bool)
  /-- The number `± mantissa · 2 ^ exponent`. -/
  | finite (negative : Bool) (mantissa : Nat) (exponent : Int)
  deriving DecidableEq, Repr

/-- The least mantissa of a double with a full number of digits, `2 ^ 52`. -/
def leastMantissa : Nat := 0x10000000000000

/-- Reads the three fields of a double: one bit of sign, eleven of exponent, 52 of fraction. -/
def Exact.ofFloat (x : Float) : Exact :=
  let bits : Nat := x.toBits.toNat
  let negative : Bool := 0x8000000000000000 ≤ bits
  let biased : Nat := bits / leastMantissa % 0x800
  let fraction : Nat := bits % leastMantissa
  if biased = 0x7ff then
    if fraction = 0 then .infinite negative else .undefined
  else if biased = 0 then .finite negative fraction (-1074)
  else .finite negative (leastMantissa + fraction) (biased - 1075)

/-- Which of two equally near numbers is taken. -/
inductive Tie
  /-- The even one. -/
  | toEven
  /-- The one further from zero. -/
  | away
  deriving DecidableEq, Repr

/-- A nonnegative quotient of natural numbers. -/
structure Quotient where
  /-- The dividend. -/
  numerator : Nat
  /-- The divisor. -/
  denominator : Nat
  deriving DecidableEq, Repr

namespace Quotient

/-- The quotient multiplied by a power of `base`, which may have a negative exponent. -/
def scale (base : Nat) (q : Quotient) : Int → Quotient
  | .ofNat e => ⟨q.numerator * Nat.pow base e, q.denominator⟩
  | .negSucc e => ⟨q.numerator, q.denominator * Nat.pow base (e + 1)⟩

/-- The number `mantissa · 2 ^ exponent`. -/
def ofBinary (mantissa : Nat) (exponent : Int) : Quotient := scale 2 ⟨mantissa, 1⟩ exponent

/-- The greatest natural number that is not above the quotient. -/
def floor (q : Quotient) : Nat := q.numerator / q.denominator

/-- The nearest natural number. -/
def round (tie : Tie) (q : Quotient) : Nat :=
  let below := q.floor
  let twice := 2 * (q.numerator % q.denominator)
  if twice < q.denominator then below
  else if q.denominator < twice then below + 1
  else
    match tie with
    | .toEven => below + below % 2
    | .away => below + 1

/-- The exponent `p` with `2 ^ p ≤ q < 2 ^ (p + 1)`, for a positive quotient `q`. -/
def binaryExponent (q : Quotient) : Int :=
  let p : Int := (q.numerator.log2 : Int) - q.denominator.log2
  let power := scale 2 ⟨1, 1⟩ p
  if power.numerator * q.denominator ≤ q.numerator * power.denominator then p else p - 1

/-- The float next to a quotient, and of two that are equally near the one with an even mantissa. A
mantissa that is rounded up to the next power of two carries into the exponent, since the fields of
a float lie side by side. -/
def toFloat (q : Quotient) : Float :=
  if q.numerator = 0 then 0
  else
    let exponent := max (-1074) (q.binaryExponent - 52)
    let bits := (exponent + 1074).toNat * leastMantissa + (q.scale 2 (-exponent)).round .toEven
    Float.ofBits (min bits (0x7ff * leastMantissa)).toUInt64

/-- The number of decimal digits of a natural number, where zero has none. -/
def digitCount (n : Nat) : Nat := if n = 0 then 0 else (Nat.toDigits 10 n).length

/-- The exponent `p` with `10 ^ p ≤ q < 10 ^ (p + 1)`, for a positive quotient `q`. -/
def decimalExponent (q : Quotient) : Int :=
  if q.denominator ≤ q.numerator then (digitCount q.floor : Int) - 1
  else
    let ceiling := (q.denominator + q.numerator - 1) / q.numerator
    Int.negOfNat (digitCount (ceiling - 1))

end Quotient

end DampedLeastSquares.Decimal
