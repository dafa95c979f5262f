import DampedLeastSquares.Decimal.Exact

/-!
# Scalars

Every numerical algorithm of this library is written once, over a type of scalars. Floats make it
run; a field with a square root makes it a subject for exact statements. What the algorithms need
of either is collected here, and nothing more: arithmetic, the two order relations with their
decisions, a square root, the quotients of whole numbers, and a test for finite values that is
constantly true where every value is finite.

Order is asked for as two relations and never as one from the other, because floats have a value
that compares false with everything. For the same reason there is no equality: being zero is lying
on both sides of zero.
-/

namespace DampedLeastSquares

/-- What the algorithms need of a number. -/
class Scalar (R : Type) extends Zero R, One R, NatCast R, Add R, Sub R, Mul R, Div R, Neg R,
    LT R, LE R where
  /-- Strict order is decided by the type of scalars itself. -/
  decidableLT : DecidableLT R
  /-- Weak order is decided by the type of scalars itself. -/
  decidableLE : DecidableLE R
  /-- The square root. -/
  sqrt : R → R
  /-- Whether the value is neither infinite nor undefined. -/
  isFinite : R → Bool
  /-- The scalar next to the quotient of two natural numbers. It is rounded once, and so may be
  finite even if the numbers are too large for scalars. -/
  quotient : Nat → Nat → R

variable {R : Type} [Scalar R]

instance Scalar.instDecidableLT : DecidableLT R := Scalar.decidableLT

instance Scalar.instDecidableLE : DecidableLE R := Scalar.decidableLE

namespace Scalar

/-- Zero of either sign, and nothing else. -/
def isZero (a : R) : Bool := decide (a ≤ 0) && decide (0 ≤ a)

/-- The distance from zero. An undefined value stays undefined. -/
def abs (a : R) : R := if a < 0 then -a else a

/-- The quotient of two natural numbers. -/
def ratio (m n : Nat) : R := (m : R) / (n : R)

end Scalar

/-- Scalars with the circular functions, which rotations need. -/
class CircularScalar (R : Type) extends Scalar R where
  /-- The sine of an angle in radians. -/
  sin : R → R
  /-- The cosine of an angle in radians. -/
  cos : R → R
  /-- The angle in `[0, π]` that has the given cosine. -/
  arccos : R → R

instance Scalar.instFloat : Scalar Float where
  natCast := Float.ofNat
  decidableLT := inferInstance
  decidableLE := inferInstance
  sqrt := Float.sqrt
  isFinite := Float.isFinite
  quotient := fun m n ↦ Decimal.Quotient.toFloat ⟨m, n⟩

instance CircularScalar.instFloat : CircularScalar Float where
  sin := Float.sin
  cos := Float.cos
  arccos := Float.acos

end DampedLeastSquares
