import DampedLeastSquares.Proofs.Scalar.Rounding
import Mathlib.Analysis.Real.Sqrt
import Mathlib.Analysis.SpecialFunctions.Trigonometric.Inverse

/-!
# Exact arithmetic

Over the real numbers every algorithm of this library is what it is meant to be: nothing rounds, no
value is infinite, and a square root is one. They are scalars like any others, except that they
cannot be computed with, so what is said of them is proved and never run.

Real numbers already have operations of their own. Those of scalars are the same ones, and a sum of
real numbers should mean the usual one wherever both are in sight. That is why the operations of
scalars are put behind all others here. What is defined for all scalars is led back to the usual
operations once, by the lemmas below, and then the usual theory applies.

Whole numbers are read exactly, but the algorithms still refuse to look at those beyond 64 bits.
This one limit remains.
-/

namespace DampedLeastSquares

attribute [instance(50)] Scalar.toZero Scalar.toOne Scalar.toNatCast Scalar.toAdd Scalar.toSub
  Scalar.toMul Scalar.toDiv Scalar.toNeg Scalar.toLT Scalar.toLE

open scoped Classical in
noncomputable instance Scalar.instReal : Scalar ℝ where
  decidableLT := fun a b ↦ inferInstanceAs (Decidable (a < b))
  decidableLE := fun a b ↦ inferInstanceAs (Decidable (a ≤ b))
  sqrt := Real.sqrt
  isFinite _ := true
  quotient m n := (m : ℝ) / n

noncomputable instance CircularScalar.instReal : CircularScalar ℝ where
  sin := Real.sin
  cos := Real.cos
  arccos := Real.arccos

/-! ## Scalars -/

theorem Scalar.isZero_iff {a : ℝ} : Scalar.isZero a = true ↔ a = 0 := by
  rw [isZero, Bool.and_eq_true, decide_eq_true_iff, decide_eq_true_iff]
  exact le_antisymm_iff.symm

theorem Scalar.abs_eq (a : ℝ) : Scalar.abs a = |a| := by
  rw [Scalar.abs]
  split
  next h => exact (abs_of_neg h).symm
  next h => exact (abs_of_nonneg (not_lt.mp h)).symm

/-! ## Vectors -/

namespace Linear

theorem sum_eq (v : List ℝ) : sum v = v.sum := by
  have hfold (b : ℝ) : v.foldl (· + ·) b = b + v.sum := by
    induction v generalizing b with
    | nil => exact (add_zero b).symm
    | cons a v ih => rw [List.foldl_cons, ih, List.sum_cons, add_assoc]
  exact (hfold 0).trans (zero_add _)

theorem dot_eq (u v : List ℝ) : dot u v = (List.zipWith (· * ·) u v).sum := sum_eq _

@[simp] theorem dot_nil (v : List ℝ) : dot [] v = 0 := rfl

@[simp] theorem dot_cons (a b : ℝ) (u v : List ℝ) :
    dot (a :: u) (b :: v) = a * b + dot u v := by
  rw [dot_eq, dot_eq, List.zipWith_cons_cons, List.sum_cons]

theorem dot_self_nonneg (v : List ℝ) : 0 ≤ dot v v := by
  induction v with
  | nil => exact le_rfl
  | cons a v ih =>
    rw [dot_cons]
    exact add_nonneg (mul_self_nonneg a) ih

@[simp] theorem dot_self_eq_zero_iff {v : List ℝ} : dot v v = 0 ↔ ∀ a ∈ v, a = 0 := by
  induction v with
  | nil => simp
  | cons a v ih =>
    rw [dot_cons, add_eq_zero_iff_of_nonneg (mul_self_nonneg a) (dot_self_nonneg v),
      mul_self_eq_zero, ih, List.forall_mem_cons]

theorem mean_eq (v : List ℝ) : mean v = v.sum / v.length := by
  rw [mean, sum_eq]

@[simp] theorem allFinite_eq (v : List ℝ) : allFinite v = true :=
  List.all_eq_true.mpr fun _ _ ↦ rfl

theorem rms_of_ne_nil {v : List ℝ} (hv : v ≠ []) :
    rms v = Real.sqrt (dot v v / v.length) := by
  rw [rms, if_neg (by rwa [List.isEmpty_iff]), mean_eq, List.length_map, dot_eq, List.zipWith_self]
  rfl

theorem rms_le_rms_iff {u v : List ℝ} (h : u.length = v.length) :
    rms u ≤ rms v ↔ dot u u ≤ dot v v := by
  by_cases hu : u = []
  · obtain rfl := hu
    obtain rfl := List.length_eq_zero_iff.mp h.symm
    exact iff_of_true le_rfl le_rfl
  · have hpos : (0 : ℝ) < v.length := by
      rw [← h]
      exact Nat.cast_pos.mpr (List.length_pos_of_ne_nil hu)
    have hv : v ≠ [] := fun hv ↦ hu (List.length_eq_zero_iff.mp (by rw [h, hv]; rfl))
    have hnonneg : 0 ≤ dot v v / v.length := div_nonneg (dot_self_nonneg v) hpos.le
    rw [rms_of_ne_nil hu, rms_of_ne_nil hv, Real.sqrt_le_sqrt_iff hnonneg, h,
      div_le_div_iff_of_pos_right hpos]

end Linear

/-! ## Amounts -/

namespace Amount

@[simp] theorem ofWhole_eq (n : ℤ) : (ofWhole n : ℝ) = n := by
  cases n with
  | ofNat n => exact (Int.cast_natCast n).symm
  | negSucc n => exact (Int.cast_negSucc n).symm

@[simp] theorem read_eq (a : Amount ℝ) : a.read = .ok a.toScalar := by
  cases a <;> rfl

theorem quotient_eq (m n : ℤ) : (quotient m n : ℝ) = m / n := by
  have hmagnitude : (Scalar.quotient m.natAbs n.natAbs : ℝ) = |(m : ℝ) / n| := by
    rw [abs_div, ← Int.cast_abs, ← Int.cast_abs, Int.abs_eq_natAbs, Int.abs_eq_natAbs]
    rfl
  have hsign : m * n < 0 ↔ (m : ℝ) / n < 0 := by
    rw [div_neg_iff, Int.cast_lt_zero]
    simp only [Int.cast_pos, Int.cast_lt_zero, mul_neg_iff]
  rw [quotient, hmagnitude]
  split
  next h => rw [abs_of_neg (hsign.mp h), neg_neg]
  next h => exact abs_of_nonneg (not_lt.mp (mt hsign.mpr h))

theorem exists_mul (a b : Amount ℝ) :
    ∃ c, a.mul b = .ok c ∧ c.toScalar = a.toScalar * b.toScalar := by
  cases a with
  | scalar a => cases b <;> exact ⟨_, rfl, rfl⟩
  | whole m =>
    cases b with
    | scalar b => exact ⟨_, rfl, rfl⟩
    | whole n => exact ⟨_, rfl, by simp only [toScalar, ofWhole_eq, Int.cast_mul]⟩

theorem exists_div (a b : Amount ℝ) :
    ∃ c, a.div b = .ok c ∧ c.toScalar = a.toScalar / b.toScalar := by
  cases a with
  | scalar a => cases b <;> exact ⟨_, rfl, rfl⟩
  | whole m =>
    cases b with
    | scalar b => exact ⟨_, rfl, rfl⟩
    | whole n => exact ⟨_, rfl, by simp only [toScalar, ofWhole_eq, quotient_eq]⟩

end Amount

end DampedLeastSquares
