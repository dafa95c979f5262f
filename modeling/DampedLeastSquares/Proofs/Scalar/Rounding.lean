import DampedLeastSquares.Proofs.Scalar.Order
import DampedLeastSquares.Solve.System
import Mathlib.Algebra.Order.Field.Basic
import Mathlib.Data.Rat.Cast.Order

/-!
# Laws of arithmetic

Rounding leaves little of the laws of a field, but some things are true of floats all the same. A
result that is finite was not computed from anything infinite or undefined; what is computed without
subtraction from values that are not negative is not negative; and dividing by more than one makes
nothing larger. These are the laws of `LawfulRounding`, and they are enough to follow a quantity
that is only ever multiplied and divided.

Where arithmetic is exact, more can be said. Scalars then stand for elements of a field, and the
operations on them for those of the field. No field is singled out: `IsExact` says of a reading of
scalars in a field that it respects multiplication and division.
-/

namespace DampedLeastSquares

/-- Scalars with the laws of arithmetic that floats obey. -/
class LawfulRounding (R : Type) [Scalar R] : Prop where
  /-- An infinite or undefined term makes a sum infinite or undefined. -/
  finite_of_add {a b : R} : Scalar.isFinite (a + b) = true →
    Scalar.isFinite a = true ∧ Scalar.isFinite b = true
  /-- An infinite or undefined factor makes a product infinite or undefined. -/
  finite_of_mul {a b : R} : Scalar.isFinite (a * b) = true →
    Scalar.isFinite a = true ∧ Scalar.isFinite b = true
  /-- An infinite or undefined dividend makes a quotient infinite or undefined. -/
  finite_of_div {a b : R} : Scalar.isFinite (a / b) = true → Scalar.isFinite a = true
  /-- Dividing by more than one does not lead beyond the finite values. -/
  finite_div {a b : R} : Scalar.isFinite a = true → 0 ≤ a → 1 < b → Scalar.isFinite (a / b) = true
  /-- Zero is not negative. -/
  zero_nonneg : (0 : R) ≤ 0
  /-- What is above one is not negative. -/
  nonneg_of_one_lt {a : R} : 1 < a → 0 ≤ a
  /-- A square is not negative. -/
  mul_self_nonneg {a : R} : Scalar.isFinite (a * a) = true → 0 ≤ a * a
  /-- A sum of terms that are not negative is not negative. -/
  add_nonneg {a b : R} : 0 ≤ a → 0 ≤ b → 0 ≤ a + b
  /-- A product of factors that are not negative is not negative. -/
  mul_nonneg {a b : R} : 0 ≤ a → 0 ≤ b → Scalar.isFinite (a * b) = true → 0 ≤ a * b
  /-- A quotient of what is not negative is not negative. -/
  div_nonneg {a b : R} : 0 ≤ a → 0 ≤ b → Scalar.isFinite (a / b) = true → 0 ≤ a / b
  /-- Natural numbers are not negative. -/
  natCast_nonneg (n : Nat) : 0 ≤ (n : R)
  /-- Natural numbers above one stay above one. -/
  one_lt_natCast {n : Nat} : 1 < n → 1 < (n : R)
  /-- The quotient of a natural number by one above one is not beyond the number itself. -/
  finite_quotient {m n : Nat} : Scalar.isFinite (m : R) = true → 1 < n →
    Scalar.isFinite (Scalar.quotient m n : R) = true
  /-- Quotients of natural numbers are not negative. -/
  quotient_nonneg {m n : Nat} : 1 < n → 0 ≤ (Scalar.quotient m n : R)

/-- A reading of scalars in a field for which their arithmetic is exact. -/
structure IsExact {R K : Type} [Scalar R] [Field K] (value : R → K) : Prop where
  /-- Products are read as products. -/
  mul (a b : R) : value (a * b) = value a * value b
  /-- Quotients are read as quotients. -/
  div (a b : R) : value (a / b) = value a / value b
  /-- Natural numbers are read as themselves. -/
  natCast (n : Nat) : value (n : R) = n
  /-- Quotients of natural numbers are read as what they should be. -/
  quotient (m n : Nat) : value (Scalar.quotient m n) = (m : K) / n

/-! ## Scalars to compute with -/

namespace PartialRat

theorem isFinite_iff {a : PartialRat} : Scalar.isFinite a = true ↔ ∃ x, a.value? = some x :=
  Option.isSome_iff_exists

theorem nonneg_iff {a : PartialRat} : 0 ≤ a ↔ ∃ x, a.value? = some x ∧ 0 ≤ x := by
  have hzero : (0 : PartialRat).value? = some 0 := rfl
  rw [le_iff, hzero]
  simp

theorem one_lt_iff {a : PartialRat} : 1 < a ↔ ∃ x, a.value? = some x ∧ 1 < x := by
  have hone : (1 : PartialRat).value? = some 1 := rfl
  rw [lt_iff, hone]
  simp

theorem value?_combine {f : ℚ → ℚ → Option ℚ} {a b : PartialRat} {x y : ℚ}
    (ha : a.value? = some x) (hb : b.value? = some y) : (combine f a b).value? = f x y := by
  rw [combine, ha, hb]
  rfl

theorem isFinite_combine {f : ℚ → ℚ → Option ℚ} {a b : PartialRat}
    (h : Scalar.isFinite (combine f a b) = true) :
    Scalar.isFinite a = true ∧ Scalar.isFinite b = true := by
  obtain ⟨z, hz⟩ := isFinite_iff.mp h
  obtain ⟨x, hx, hrest⟩ := Option.bind_eq_some_iff.mp hz
  obtain ⟨y, hy, -⟩ := Option.bind_eq_some_iff.mp hrest
  exact ⟨isFinite_iff.mpr ⟨x, hx⟩, isFinite_iff.mpr ⟨y, hy⟩⟩

theorem divide_of_ne_zero (x : ℚ) {y : ℚ} (hy : y ≠ 0) : divide x y = some (x / y) := if_neg hy

theorem getD_divide (x y : ℚ) : (divide x y).getD 0 = x / y := by
  by_cases hy : y = 0
  · rw [divide, if_pos hy, hy, div_zero]
    rfl
  · rw [divide_of_ne_zero x hy]
    rfl

instance : LawfulRounding PartialRat where
  finite_of_add := isFinite_combine
  finite_of_mul := isFinite_combine
  finite_of_div h := (isFinite_combine h).1
  finite_div ha _ hb := by
    obtain ⟨x, hx⟩ := isFinite_iff.mp ha
    obtain ⟨y, hy, hlt⟩ := one_lt_iff.mp hb
    exact isFinite_iff.mpr ⟨x / y, (value?_combine hx hy).trans
      (divide_of_ne_zero x (zero_lt_one.trans hlt).ne')⟩
  zero_nonneg := nonneg_iff.mpr ⟨0, rfl, le_refl 0⟩
  nonneg_of_one_lt h := by
    obtain ⟨x, hx, hlt⟩ := one_lt_iff.mp h
    exact nonneg_iff.mpr ⟨x, hx, (zero_lt_one.trans hlt).le⟩
  mul_self_nonneg h := by
    obtain ⟨x, hx⟩ := isFinite_iff.mp (isFinite_combine h).1
    exact nonneg_iff.mpr ⟨x * x, value?_combine hx hx, mul_self_nonneg x⟩
  add_nonneg ha hb := by
    obtain ⟨x, hx, hx'⟩ := nonneg_iff.mp ha
    obtain ⟨y, hy, hy'⟩ := nonneg_iff.mp hb
    exact nonneg_iff.mpr ⟨x + y, value?_combine hx hy, Rat.add_nonneg hx' hy'⟩
  mul_nonneg ha hb _ := by
    obtain ⟨x, hx, hx'⟩ := nonneg_iff.mp ha
    obtain ⟨y, hy, hy'⟩ := nonneg_iff.mp hb
    exact nonneg_iff.mpr ⟨x * y, value?_combine hx hy, Rat.mul_nonneg hx' hy'⟩
  div_nonneg ha hb h := by
    obtain ⟨x, hx, hx'⟩ := nonneg_iff.mp ha
    obtain ⟨y, hy, hy'⟩ := nonneg_iff.mp hb
    obtain ⟨z, hz⟩ := isFinite_iff.mp h
    have hdivide := (value?_combine hx hy).symm.trans hz
    by_cases hzero : y = 0
    · rw [divide, if_pos hzero] at hdivide
      exact nomatch hdivide
    · rw [divide_of_ne_zero x hzero, Option.some.injEq] at hdivide
      exact nonneg_iff.mpr ⟨z, hz, hdivide ▸ Rat.div_nonneg hx' hy'⟩
  natCast_nonneg n := nonneg_iff.mpr ⟨n, rfl, Nat.cast_nonneg n⟩
  one_lt_natCast hn := one_lt_iff.mpr ⟨_, rfl, Nat.one_lt_cast.mpr hn⟩
  finite_quotient {m n} _ hn := by
    have hzero : (n : ℚ) ≠ 0 := Nat.cast_ne_zero.mpr (Nat.ne_zero_of_lt hn)
    exact isFinite_iff.mpr ⟨m / n, divide_of_ne_zero m hzero⟩
  quotient_nonneg {m n} hn := by
    have hzero : (n : ℚ) ≠ 0 := Nat.cast_ne_zero.mpr (Nat.ne_zero_of_lt hn)
    exact nonneg_iff.mpr ⟨m / n, divide_of_ne_zero m hzero,
      Rat.div_nonneg (Nat.cast_nonneg m) (Nat.cast_nonneg n)⟩

/-- Read with zero for the undefined value, which is also what a field divides by zero to, the
arithmetic of these scalars is exact. -/
theorem isExact_getD : IsExact fun a : PartialRat ↦ a.value?.getD 0 where
  mul a b := by
    change (combine (fun x y ↦ some (x * y)) a b).value?.getD 0 = _
    rw [combine]
    cases a.value? <;> cases b.value? <;> simp
  div a b := by
    change (combine divide a b).value?.getD 0 = _
    rw [combine]
    cases a.value? with
    | none => simp
    | some x =>
      cases b.value? with
      | none => simp
      | some y => exact getD_divide x y
  natCast _ := rfl
  quotient m n := getD_divide m n

end PartialRat

/-! ## Sums -/

section sums

variable {R : Type} [Scalar R] [LawfulRounding R]

namespace Linear

theorem finite_of_foldl_add {v : List R} {b : R}
    (h : Scalar.isFinite (v.foldl (· + ·) b) = true) : Scalar.isFinite b = true := by
  induction v generalizing b with
  | nil => exact h
  | cons a v ih => exact (LawfulRounding.finite_of_add (ih h)).1

theorem nonneg_foldl_add {v : List R} (hv : ∀ a ∈ v, Scalar.isFinite a = true → 0 ≤ a) {b : R}
    (hb : 0 ≤ b) (h : Scalar.isFinite (v.foldl (· + ·) b) = true) : 0 ≤ v.foldl (· + ·) b := by
  induction v generalizing b with
  | nil => exact hb
  | cons a v ih =>
    have ha : Scalar.isFinite a = true :=
      (LawfulRounding.finite_of_add (finite_of_foldl_add h)).2
    obtain ⟨hnonneg, hrest⟩ := List.forall_mem_cons.mp hv
    exact ih hrest (LawfulRounding.add_nonneg hb (hnonneg ha)) h

theorem nonneg_sum {v : List R} (hv : ∀ a ∈ v, Scalar.isFinite a = true → 0 ≤ a)
    (h : Scalar.isFinite (sum v) = true) : 0 ≤ sum v :=
  nonneg_foldl_add hv LawfulRounding.zero_nonneg h

theorem nonneg_mean {v : List R} (hv : ∀ a ∈ v, Scalar.isFinite a = true → 0 ≤ a)
    (h : Scalar.isFinite (mean v) = true) : 0 ≤ mean v :=
  LawfulRounding.div_nonneg (nonneg_sum hv (LawfulRounding.finite_of_div h))
    (LawfulRounding.natCast_nonneg v.length) h

theorem nonneg_dot_self {v : List R} (h : Scalar.isFinite (dot v v) = true) : 0 ≤ dot v v := by
  rw [dot, List.zipWith_self] at h ⊢
  refine nonneg_sum (fun a ha hfinite ↦ ?_) h
  obtain ⟨x, -, rfl⟩ := List.mem_map.mp ha
  exact LawfulRounding.mul_self_nonneg hfinite

end Linear

end sums

/-! ## Amounts -/

namespace Amount

section order

variable {R : Type} [Zero R] [One R] [LT R] [LE R]

/-- The amount is not negative. -/
def Nonneg : Amount R → Prop
  | whole n => 0 ≤ n
  | scalar a => 0 ≤ a

/-- The amount is above one. -/
def ExceedsOne : Amount R → Prop
  | whole n => 1 < n
  | scalar a => 1 < a

end order

variable {R : Type} [Scalar R] {a b c : Amount R} {x : R}

theorem toScalar_of_read (h : a.read = .ok x) : a.toScalar = x := by
  cases a with
  | scalar a => exact Except.ok.inj h
  | whole n =>
    rw [read] at h
    split at h
    · exact Except.ok.inj h
    · exact nomatch h

theorem toScalar_of_readWord (h : a.readWord = .ok x) : a.toScalar = x := by
  cases a with
  | scalar a => exact Except.ok.inj h
  | whole n =>
    rw [readWord] at h
    split at h
    · exact Except.ok.inj h
    · exact nomatch h

private theorem eq_scalar_of_read {f : R → R → R}
    (h : (do return scalar (f (← a.read) (← b.read)) : Except Fault (Amount R)) = .ok c) :
    c = scalar (f a.toScalar b.toScalar) := by
  cases ha : a.read with
  | error fault => simp [ha, bind, Except.bind] at h
  | ok x =>
    cases hb : b.read with
    | error fault => simp [ha, hb, bind, Except.bind] at h
    | ok y =>
      simp only [ha, hb, bind, Except.bind, pure, Except.pure, Except.ok.injEq] at h
      rw [toScalar_of_read ha, toScalar_of_read hb, h]

/-- A product is exact if both factors are whole, and otherwise one of scalars. -/
theorem mul_eq_ok (h : a.mul b = .ok c) :
    (∃ m n, a = whole m ∧ b = whole n ∧ c = whole (m * n)) ∨
      c = scalar (a.toScalar * b.toScalar) := by
  rw [mul.eq_def] at h
  split at h
  · exact Or.inl ⟨_, _, rfl, rfl, (Except.ok.inj h).symm⟩
  · exact Or.inr (eq_scalar_of_read h)

theorem div_eq_ok (h : a.div b = .ok c) :
    (∃ m n, a = whole m ∧ b = whole n ∧ c = scalar (quotient m n)) ∨
      c = scalar (a.toScalar / b.toScalar) := by
  rw [div.eq_def] at h
  split at h
  · exact Or.inl ⟨_, _, rfl, rfl, (Except.ok.inj h).symm⟩
  · exact Or.inr (eq_scalar_of_read h)

theorem quotient_natCast (m n : Nat) : (quotient m n : R) = Scalar.quotient m n := by
  have hnonneg : ¬((m : Int) * n < 0) := (Int.natCast_nonneg (m * n)).not_gt
  rw [quotient, if_neg hnonneg, Int.natAbs_natCast, Int.natAbs_natCast]

/-! ### Amounts that are not negative -/

section rounding

variable [LawfulRounding R]

theorem Nonneg.toScalar (h : a.Nonneg) : 0 ≤ a.toScalar := by
  cases a with
  | scalar a => exact h
  | whole n =>
    obtain ⟨m, rfl⟩ := Int.eq_ofNat_of_zero_le h
    exact LawfulRounding.natCast_nonneg m

theorem ExceedsOne.toScalar (h : a.ExceedsOne) : 1 < a.toScalar := by
  cases a with
  | scalar a => exact h
  | whole n =>
    obtain ⟨m, rfl⟩ := Int.eq_ofNat_of_zero_le (zero_le_one.trans h.le)
    exact LawfulRounding.one_lt_natCast (Int.ofNat_lt.mp h)

theorem Nonneg.mul (ha : a.Nonneg) (hb : b.ExceedsOne) (h : a.mul b = .ok c)
    (hfinite : Scalar.isFinite c.toScalar = true) : c.Nonneg := by
  rcases mul_eq_ok h with ⟨m, n, rfl, rfl, rfl⟩ | rfl
  · exact Int.mul_nonneg ha (zero_le_one.trans (le_of_lt hb))
  · exact LawfulRounding.mul_nonneg ha.toScalar (LawfulRounding.nonneg_of_one_lt hb.toScalar)
      hfinite

theorem Nonneg.div (ha : a.Nonneg) (hb : b.ExceedsOne) (h : a.div b = .ok c)
    (hfinite : Scalar.isFinite a.toScalar = true) :
    Scalar.isFinite c.toScalar = true ∧ c.Nonneg := by
  rcases div_eq_ok h with ⟨m, n, rfl, rfl, rfl⟩ | rfl
  · obtain ⟨m, rfl⟩ := Int.eq_ofNat_of_zero_le ha
    obtain ⟨n, rfl⟩ := Int.eq_ofNat_of_zero_le (zero_le_one.trans (le_of_lt hb))
    have hn : 1 < n := Int.ofNat_lt.mp hb
    rw [quotient_natCast]
    exact ⟨LawfulRounding.finite_quotient hfinite hn, LawfulRounding.quotient_nonneg hn⟩
  · have hone := hb.toScalar
    have hquotient := LawfulRounding.finite_div hfinite ha.toScalar hone
    exact ⟨hquotient, LawfulRounding.div_nonneg ha.toScalar
      (LawfulRounding.nonneg_of_one_lt hone) hquotient⟩

end rounding

/-! ### Amounts in a field -/

section exact

variable {K : Type} [Field K] {value : R → K}

theorem value_mul (hv : IsExact value) (ha : a.Nonneg) (hb : b.ExceedsOne)
    (h : a.mul b = .ok c) : value c.toScalar = value a.toScalar * value b.toScalar := by
  rcases mul_eq_ok h with ⟨m, n, rfl, rfl, rfl⟩ | rfl
  · obtain ⟨m, rfl⟩ := Int.eq_ofNat_of_zero_le ha
    obtain ⟨n, rfl⟩ := Int.eq_ofNat_of_zero_le (zero_le_one.trans (le_of_lt hb))
    have hproduct : value ((m * n : Nat) : R) = value (m : R) * value (n : R) := by
      rw [hv.natCast, hv.natCast, hv.natCast, Nat.cast_mul]
    exact hproduct
  · exact hv.mul _ _

theorem value_div (hv : IsExact value) (ha : a.Nonneg) (hb : b.ExceedsOne)
    (h : a.div b = .ok c) : value c.toScalar = value a.toScalar / value b.toScalar := by
  rcases div_eq_ok h with ⟨m, n, rfl, rfl, rfl⟩ | rfl
  · obtain ⟨m, rfl⟩ := Int.eq_ofNat_of_zero_le ha
    obtain ⟨n, rfl⟩ := Int.eq_ofNat_of_zero_le (zero_le_one.trans (le_of_lt hb))
    have hquotient : value (Scalar.quotient m n) = value (m : R) / value (n : R) := by
      rw [hv.quotient, hv.natCast, hv.natCast]
    rw [quotient_natCast]
    exact hquotient
  · exact hv.div _ _

end exact

end Amount

end DampedLeastSquares
