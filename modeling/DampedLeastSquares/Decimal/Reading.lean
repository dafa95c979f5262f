import DampedLeastSquares.Decimal.Exact

/-!
# Reading numbers

Digits are read as a positional sum. A decimal becomes the nearest float; values too large for any
float become infinite and values too small become zero, and both are decided from the number of
digits before any large power is formed.
-/

namespace DampedLeastSquares.Decimal

/-- The value of a digit, letters counting from ten on. -/
def digitValue (c : Char) : Nat :=
  if c.isDigit then c.toNat - '0'.toNat
  else if c.isLower then c.toNat - 'a'.toNat + 10
  else c.toNat - 'A'.toNat + 10

/-- The natural number that digits write in the given base. -/
def readNat (base : Nat) (digits : List Char) : Nat :=
  digits.foldl (fun n c ↦ n * base + digitValue c) 0

/-- The float next to `± coefficient · 10 ^ exponent`. -/
def toFloat (negative : Bool) (coefficient : Nat) (exponent : Int) : Float :=
  let leading := exponent + (Quotient.digitCount coefficient : Int)
  let magnitude :=
    if coefficient = 0 ∨ leading < -330 then 0
    else if 310 < leading then 1 / 0
    else (Quotient.scale 10 ⟨coefficient, 1⟩ exponent).toFloat
  if negative then -magnitude else magnitude

/-- The float next to an integer. -/
def ofInt (n : Int) : Float := toFloat (decide (n < 0)) n.natAbs 0

/-- The parts of a decimal numeral: the digits before the point, those behind it, and the power of
ten. -/
structure Numeral where
  /-- The digits before the point. -/
  whole : List Char
  /-- The digits behind the point. -/
  fraction : List Char
  /-- The power of ten that follows. -/
  power : Int

/-- The float next to a numeral. -/
def Numeral.toFloat (negative : Bool) (n : Numeral) : Float :=
  Decimal.toFloat negative (readNat 10 (n.whole ++ n.fraction))
    (n.power - (n.fraction.length : Int))

end DampedLeastSquares.Decimal
