import DampedLeastSquares.Fault
import DampedLeastSquares.Scalar

/-!
# Amounts

A setting may be given as a whole number or as a scalar. A whole number stays whole and exact, of
any size, as long as it is only multiplied by whole numbers. Where it meets a scalar, or is divided,
it is read as a scalar itself. That fails if it is too large for one, so an amount beyond all
scalars is no mistake until it is used.
-/

namespace DampedLeastSquares

/-- A whole number, or a scalar. -/
inductive Amount (R : Type)
  /-- A whole number, kept exactly. -/
  | whole (n : Int)
  /-- A scalar. -/
  | scalar (a : R)

namespace Amount

variable {R : Type} [Scalar R]

/-- The scalar next to a whole number, which is not finite if the number is too large. -/
def ofWhole : Int → R
  | .ofNat n => (n : R)
  | .negSucc n => -((n + 1 : Nat) : R)

/-- The scalar next to an amount. -/
def toScalar : Amount R → R
  | whole n => ofWhole n
  | scalar a => a

/-- The amount as a scalar. -/
def read : Amount R → Except Fault R
  | whole n => if Scalar.isFinite (ofWhole n : R) then .ok (ofWhole n) else .error .wholeTooLarge
  | scalar a => .ok a

/-- The product: exact if both amounts are whole. -/
def mul : Amount R → Amount R → Except Fault (Amount R)
  | whole m, whole n => .ok (.whole (m * n))
  | a, b => do return .scalar ((← a.read) * (← b.read))

/-- The scalar next to the quotient of two whole numbers. -/
def quotient (m n : Int) : R :=
  let magnitude := Scalar.quotient m.natAbs n.natAbs
  if m * n < 0 then -magnitude else magnitude

/-- The quotient. Of two whole numbers it is a scalar even if they are none. -/
def div : Amount R → Amount R → Except Fault (Amount R)
  | whole m, whole n => .ok (.scalar (quotient m n))
  | a, b => do return .scalar ((← a.read) / (← b.read))

/-- Whether a whole number fits into 64 bits, with a sign or without. -/
def fitsWord (n : Int) : Bool := -0x8000000000000000 ≤ n && n < 0x10000000000000000

/-- The amount as a scalar, in order to see whether it is finite. Whole numbers are looked at in
words of 64 bits. -/
def readWord : Amount R → Except Fault R
  | whole n => if fitsWord n then .ok (ofWhole n) else .error .wholeTooWide
  | scalar a => .ok a

@[simp] theorem read_scalar (a : R) : (scalar a).read = .ok a := rfl

@[simp] theorem readWord_scalar (a : R) : (scalar a).readWord = .ok a := rfl

@[simp] theorem mul_scalar (a b : R) : (scalar a).mul (scalar b) = .ok (scalar (a * b)) := rfl

@[simp] theorem div_scalar (a b : R) : (scalar a).div (scalar b) = .ok (scalar (a / b)) := rfl

end Amount

end DampedLeastSquares
