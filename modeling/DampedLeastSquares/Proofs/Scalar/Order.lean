import DampedLeastSquares.Scalar
import Mathlib.Algebra.Order.Ring.Rat

/-!
# Laws of comparison

Floats break most laws of a field, but not those of comparison: strict order is transitive and
irreflexive, the sign of a difference says which of two values is the greater, and an undefined
value compares false with everything. What the iteration does rests on comparisons alone, and so
these laws are all that most statements about it ask of their scalars.

Where a statement is to be seen at work on an example, the scalars are not floats, whose laws are
only assumed, but `PartialRat`: rational numbers, exact as far as they go, together with an
undefined value.
-/

namespace DampedLeastSquares

/-- An undefined value is told by comparing it with itself. -/
def Scalar.IsUndefined {R : Type} [Scalar R] (a : R) : Prop := ¬a ≤ a

/-- Scalars with the laws of comparison that floats obey. -/
class LawfulOrder (R : Type) [Scalar R] : Prop where
  /-- The sign of a difference says which value is the greater. -/
  sub_pos_iff {a b : R} : 0 < a - b ↔ b < a
  /-- Strict order is transitive. -/
  lt_trans {a b c : R} : a < b → b < c → a < c
  /-- No value is below itself. -/
  lt_irrefl (a : R) : ¬a < a
  /-- An undefined value is neither below nor above another. -/
  defined_of_lt {a b : R} : a < b → a ≤ a ∧ b ≤ b

theorem LawfulOrder.not_lt_of_lt {R : Type} [Scalar R] [LawfulOrder R] {a b c : R} (hab : ¬a < b)
    (hcb : c < b) : ¬a < c := fun hac ↦ hab (lt_trans hac hcb)

/-- A rational number, or the undefined value. -/
structure PartialRat where
  /-- The number, if the value is defined. -/
  value? : Option ℚ
  deriving DecidableEq

namespace PartialRat

/-- The value that is a number. -/
def ofRat (q : ℚ) : PartialRat := ⟨some q⟩

/-- The value of an operation, which is undefined if one of its arguments is. -/
def combine (f : ℚ → ℚ → Option ℚ) (a b : PartialRat) : PartialRat :=
  ⟨a.value?.bind fun x ↦ b.value?.bind (f x)⟩

/-- A comparison, which is false if one of the values is undefined. -/
def compare (r : ℚ → ℚ → Bool) (a b : PartialRat) : Bool :=
  match a.value?, b.value? with
  | some x, some y => r x y
  | _, _ => false

/-- The quotient, which is undefined if the divisor is zero. -/
def divide (x y : ℚ) : Option ℚ := if y = 0 then none else some (x / y)

/-- The root, exact for squares and undefined below zero. -/
def root (x : ℚ) : Option ℚ :=
  if x < 0 then none else some (mkRat (Nat.sqrt x.num.toNat) (Nat.sqrt x.den))

instance : Scalar PartialRat where
  zero := ofRat 0
  one := ofRat 1
  natCast n := ofRat n
  add := combine fun x y ↦ some (x + y)
  sub := combine fun x y ↦ some (x - y)
  mul := combine fun x y ↦ some (x * y)
  div := combine divide
  neg a := ⟨a.value?.map (- ·)⟩
  lt a b := compare (fun x y ↦ decide (x < y)) a b = true
  le a b := compare (fun x y ↦ decide (x ≤ y)) a b = true
  decidableLT := fun _ _ ↦ instDecidableEqBool _ _
  decidableLE := fun _ _ ↦ instDecidableEqBool _ _
  sqrt a := ⟨a.value?.bind root⟩
  isFinite a := a.value?.isSome
  quotient m n := ⟨divide m n⟩

/-- Of the angles only zero is known, with its sine and cosine. -/
instance : CircularScalar PartialRat where
  toScalar := inferInstance
  sin a := if a = 0 then 0 else ⟨none⟩
  cos a := if a = 0 then 1 else ⟨none⟩
  arccos a := if a = 1 then 0 else ⟨none⟩

theorem lt_iff {a b : PartialRat} :
    a < b ↔ ∃ x y, a.value? = some x ∧ b.value? = some y ∧ x < y := by
  change compare _ a b = true ↔ _
  rw [compare]
  cases a.value? <;> cases b.value? <;> simp

theorem le_iff {a b : PartialRat} :
    a ≤ b ↔ ∃ x y, a.value? = some x ∧ b.value? = some y ∧ x ≤ y := by
  change compare _ a b = true ↔ _
  rw [compare]
  cases a.value? <;> cases b.value? <;> simp

theorem value?_sub (a b : PartialRat) :
    (a - b).value? = a.value?.bind fun x ↦ b.value?.bind fun y ↦ some (x - y) := rfl

instance : LawfulOrder PartialRat where
  sub_pos_iff {a b} := by
    have hzero : (0 : PartialRat).value? = some 0 := rfl
    rw [lt_iff, lt_iff, hzero, value?_sub]
    cases a.value? <;> cases b.value? <;> simp
  lt_trans hab hbc := by
    obtain ⟨x, y, hx, hy, hxy⟩ := lt_iff.mp hab
    obtain ⟨y', z, hy', hz, hyz⟩ := lt_iff.mp hbc
    obtain rfl := Option.some.inj (hy.symm.trans hy')
    exact lt_iff.mpr ⟨x, z, hx, hz, hxy.trans hyz⟩
  lt_irrefl a h := by
    obtain ⟨x, y, hx, hy, hxy⟩ := lt_iff.mp h
    obtain rfl := Option.some.inj (hx.symm.trans hy)
    exact hxy.false
  defined_of_lt h := by
    obtain ⟨x, y, hx, hy, -⟩ := lt_iff.mp h
    exact ⟨le_iff.mpr ⟨x, x, hx, hx, le_refl x⟩, le_iff.mpr ⟨y, y, hy, hy, le_refl y⟩⟩

end PartialRat

end DampedLeastSquares
