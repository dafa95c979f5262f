import DampedLeastSquares.Proofs.Linear.Solver
import DampedLeastSquares.Proofs.Solve.Damping
import Mathlib.Data.List.GetD
import Mathlib.LinearAlgebra.Matrix.DotProduct

/-!
# The normal equations as matrices

Over the real numbers the lists of the normal equations are what their names say: the rows of `JᵀJ`,
with the damped diagonal added, and the entries of `Jᵀy`. Once that is known, whether there is a
step is a question about a matrix, `JᵀJ + λ diag(JᵀJ)`. It is answered by the square length that the
matrix gives to a vector `v`,

  `|J v|² + λ ∑ᵢ |Jᵢ|² vᵢ²`,

where `Jᵢ` are the columns. Damping alone makes this positive unless a column is zero; without
damping all depends on whether `J v` can be zero.

Inner products of lists of different lengths treat the missing entries as zeros. The matrix of some
columns may therefore have any number of rows that is large enough for them.
-/

open scoped Matrix

namespace DampedLeastSquares

/-! ## Gram matrices -/

section gram

variable {m n : ℕ} (A : Matrix (Fin m) (Fin n) ℝ) (a : ℝ)

/-- The matrix `AᵀA` with `a` times its diagonal added. -/
def dampedGram : Matrix (Fin n) (Fin n) ℝ := Aᵀ * A + a • Matrix.diagonal (Aᵀ * A).diag

theorem dampedGram_apply (i k : Fin n) : dampedGram A a i k
    = A.col i ⬝ᵥ A.col k + a * if i = k then A.col i ⬝ᵥ A.col k else 0 := by
  rw [dampedGram, Matrix.add_apply, Matrix.smul_apply, Matrix.diagonal_apply]
  split
  next h =>
    subst h
    rfl
  · rfl

theorem dampedGram_mulVec (v : Fin n → ℝ) : dampedGram A a *ᵥ v
    = Aᵀ *ᵥ (A *ᵥ v) + a • fun i ↦ (A.col i ⬝ᵥ A.col i) * v i := by
  rw [dampedGram, Matrix.add_mulVec, Matrix.smul_mulVec, Matrix.mulVec_mulVec]
  congr 2
  exact funext fun i ↦ Matrix.mulVec_diagonal _ v i

theorem dotProduct_dampedGram_mulVec (v : Fin n → ℝ) : v ⬝ᵥ dampedGram A a *ᵥ v
    = A *ᵥ v ⬝ᵥ A *ᵥ v + a * ∑ i, (A.col i ⬝ᵥ A.col i) * v i ^ 2 := by
  rw [dampedGram_mulVec, dotProduct_add, dotProduct_smul, Matrix.dotProduct_mulVec,
    Matrix.vecMul_transpose, smul_eq_mul, dotProduct]
  congr 2
  exact Finset.sum_congr rfl fun i _ ↦ by ring

theorem dotProduct_self_nonneg (v : Fin n → ℝ) : 0 ≤ v ⬝ᵥ v :=
  Finset.sum_nonneg fun i _ ↦ mul_self_nonneg (v i)

variable {A a}

theorem not_linearIndependent_col_iff :
    ¬LinearIndependent ℝ A.col ↔ ∃ v, v ≠ 0 ∧ A *ᵥ v = 0 := by
  rw [← Matrix.mulVec_injective_iff, Function.Injective]
  push Not
  constructor
  · rintro ⟨v, w, heq, hne⟩
    exact ⟨v - w, sub_ne_zero.mpr hne, by rw [Matrix.mulVec_sub, heq, sub_self]⟩
  · rintro ⟨v, hv, hzero⟩
    exact ⟨v, 0, by rw [hzero, Matrix.mulVec_zero], hv⟩

/-- **A damped Gram matrix is singular exactly for a zero column, or for dependent columns without
damping.** -/
theorem det_dampedGram_eq_zero_iff (ha : 0 ≤ a) : (dampedGram A a).det = 0 ↔
    (∃ i, A.col i = 0) ∨ a = 0 ∧ ¬LinearIndependent ℝ A.col := by
  rw [← Matrix.exists_mulVec_eq_zero_iff]
  constructor
  · rintro ⟨v, hv, hzero⟩
    have hnonneg : ∀ i, 0 ≤ (A.col i ⬝ᵥ A.col i) * v i ^ 2 := fun i ↦
      mul_nonneg (dotProduct_self_nonneg _) (sq_nonneg _)
    have hsum := dotProduct_dampedGram_mulVec A a v
    rw [hzero, dotProduct_zero, eq_comm, add_eq_zero_iff_of_nonneg (dotProduct_self_nonneg _)
      (mul_nonneg ha (Finset.sum_nonneg fun i _ ↦ hnonneg i)), dotProduct_self_eq_zero] at hsum
    rcases mul_eq_zero.mp hsum.2 with hundamped | hsquares
    · exact Or.inr ⟨hundamped, not_linearIndependent_col_iff.mpr ⟨v, hv, hsum.1⟩⟩
    · obtain ⟨i, hi⟩ := Function.ne_iff.mp hv
      have hterm := (Finset.sum_eq_zero_iff_of_nonneg fun i _ ↦ hnonneg i).mp hsquares i
        (Finset.mem_univ i)
      have hcolumn := (mul_eq_zero.mp hterm).resolve_right (pow_ne_zero 2 hi)
      exact Or.inl ⟨i, dotProduct_self_eq_zero.mp hcolumn⟩
  · rintro (⟨i, hi⟩ | ⟨rfl, hdependent⟩)
    · refine ⟨Pi.single i 1, by simp, funext fun k ↦ ?_⟩
      rw [Matrix.mulVec_single_one, Matrix.col_apply, dampedGram_apply, hi]
      simp
    · obtain ⟨v, hv, hzero⟩ := not_linearIndependent_col_iff.mp hdependent
      refine ⟨v, hv, ?_⟩
      rw [dampedGram_mulVec, hzero, Matrix.mulVec_zero, zero_smul, add_zero]

end gram

/-! ## Columns as a matrix -/

namespace Linear

/-- The first `m` entries of a list. Those that are missing are zero. -/
def vector (m : ℕ) (x : List ℝ) : Fin m → ℝ := fun r ↦ x.getD r 0

/-- The matrix with `m` rows and the given columns. -/
def ofColumns (m : ℕ) (columns : List (List ℝ)) : Matrix (Fin m) (Fin columns.length) ℝ :=
  Matrix.of fun r i ↦ vector m columns[i] r

theorem dot_eq_dotProduct {m : ℕ} {u : List ℝ} (hu : u.length ≤ m) (v : List ℝ) :
    dot u v = vector m u ⬝ᵥ vector m v := by
  induction m generalizing u v with
  | zero =>
    obtain rfl := List.length_eq_zero_iff.mp (Nat.le_zero.mp hu)
    rfl
  | succ m ih =>
    cases u with
    | nil => simp [dotProduct, vector]
    | cons a u =>
      cases v with
      | nil => simp [dot_eq, dotProduct, vector]
      | cons b v =>
        rw [dot_cons, ih (Nat.le_of_succ_le_succ hu), dotProduct, dotProduct, Fin.sum_univ_succ]
        rfl

variable {m : ℕ} {columns : List (List ℝ)}

theorem dot_getElem (h : ∀ u ∈ columns, u.length ≤ m) (i : Fin columns.length) (v : List ℝ) :
    dot columns[i] v = (ofColumns m columns).col i ⬝ᵥ vector m v :=
  dot_eq_dotProduct (h _ (List.getElem_mem _)) v

theorem exists_col_eq_zero_iff (h : ∀ u ∈ columns, u.length ≤ m) :
    (∃ i, (ofColumns m columns).col i = 0) ↔ ∃ u ∈ columns, ∀ a ∈ u, a = 0 := by
  have hcolumn (i : Fin columns.length) :
      (ofColumns m columns).col i = 0 ↔ ∀ a ∈ columns[i], a = 0 := by
    refine ⟨fun hzero a ha ↦ ?_, fun hzero ↦ funext fun r ↦ ?_⟩
    · obtain ⟨r, hr, rfl⟩ := List.getElem_of_mem ha
      have hentry := congrFun hzero ⟨r, hr.trans_le (h _ (List.getElem_mem i.isLt))⟩
      exact (List.getD_eq_getElem _ 0 hr).symm.trans hentry
    · change columns[i].getD r 0 = 0
      rcases Nat.lt_or_ge r columns[i].length with hr | hr
      · rw [List.getD_eq_getElem _ 0 hr]
        exact hzero _ (List.getElem_mem hr)
      · exact List.getD_eq_default _ 0 hr
  constructor
  · rintro ⟨i, hi⟩
    exact ⟨columns[i], List.getElem_mem i.isLt, (hcolumn i).mp hi⟩
  · rintro ⟨u, hu, hzero⟩
    obtain ⟨i, hi, rfl⟩ := List.getElem_of_mem hu
    exact ⟨⟨i, hi⟩, (hcolumn ⟨i, hi⟩).mpr hzero⟩

end Linear

/-! ## The equations of a Jacobian -/

/-- Every length is finite, and so every solution is a step. -/
theorem NormalEquations.step?_eq (s : NormalEquations ℝ) (a : ℝ) :
    s.step? a = Linear.solve? (s.damped a) (s.gradient.map (- ·)) := by
  rw [step?]
  split
  next hsolve => exact hsolve.symm
  next hsolve => exact hsolve.symm

namespace Jacobian

variable {j : Jacobian ℝ} {m : ℕ} {a : ℝ} {step : List ℝ}

theorem damped_normalEquations (h : ∀ u ∈ j.columns, u.length ≤ m) (y : List ℝ) (a : ℝ) :
    (j.normalEquations y).damped a
      = Linear.rowsOf (dampedGram (Linear.ofColumns m j.columns) a) := by
  refine List.ext_getElem ?_ fun i hi hi' ↦ List.ext_getElem ?_ fun k hk hk' ↦ ?_
  · simp [NormalEquations.damped, normalEquations, Linear.rowsOf]
  · simp [NormalEquations.damped, normalEquations, Linear.rowsOf]
  · have hi : i < j.columns.length := by simpa [Linear.rowsOf] using hi'
    have hk : k < j.columns.length := by simpa [Linear.rowsOf] using hk'
    have hdot : Linear.dot j.columns[i] j.columns[k] = (Linear.ofColumns m j.columns).col ⟨i, hi⟩
        ⬝ᵥ (Linear.ofColumns m j.columns).col ⟨k, hk⟩ := Linear.dot_getElem h ⟨i, hi⟩ _
    simp [NormalEquations.damped, normalEquations, Linear.rowsOf, dampedGram_apply, hdot]

theorem gradient_normalEquations (h : ∀ u ∈ j.columns, u.length ≤ m) (y : List ℝ) :
    (j.normalEquations y).gradient.map (- ·)
      = List.ofFn (-((Linear.ofColumns m j.columns)ᵀ *ᵥ Linear.vector m y)) := by
  refine List.ext_getElem (by simp [normalEquations]) fun i hi hi' ↦ ?_
  have hi : i < j.columns.length := by simpa using hi'
  simp only [normalEquations, List.map_map, List.getElem_map, List.getElem_ofFn, Pi.neg_apply]
  exact congrArg Neg.neg (Linear.dot_getElem h ⟨i, hi⟩ y)

theorem step?_eq_solve? (h : ∀ u ∈ j.columns, u.length ≤ m) (y : List ℝ) (a : ℝ) :
    (j.normalEquations y).step? a
      = Linear.solve? (Linear.rowsOf (dampedGram (Linear.ofColumns m j.columns) a))
        (List.ofFn (-((Linear.ofColumns m j.columns)ᵀ *ᵥ Linear.vector m y))) := by
  rw [NormalEquations.step?_eq, damped_normalEquations h, gradient_normalEquations h]

/-- **A step solves the damped normal equations.** -/
theorem mulVec_of_step? (h : ∀ u ∈ j.columns, u.length ≤ m) {y : List ℝ}
    (hstep : (j.normalEquations y).step? a = some step) :
    ∃ v, step = List.ofFn v ∧ dampedGram (Linear.ofColumns m j.columns) a *ᵥ v
      = -((Linear.ofColumns m j.columns)ᵀ *ᵥ Linear.vector m y) := by
  rw [step?_eq_solve? h] at hstep
  exact Linear.isSolver_solve?.mulVec hstep

/-- **There is no step exactly for a zero column, or for dependent columns without damping.** -/
theorem step?_eq_none_iff (h : ∀ u ∈ j.columns, u.length ≤ m) (y : List ℝ) (ha : 0 ≤ a) :
    (j.normalEquations y).step? a = none ↔ (∃ u ∈ j.columns, ∀ b ∈ u, b = 0) ∨
      a = 0 ∧ ¬LinearIndependent ℝ (Linear.ofColumns m j.columns).col := by
  rw [step?_eq_solve? h, Linear.isSolver_solve?.eq_none_iff_det, det_dampedGram_eq_zero_iff ha,
    Linear.exists_col_eq_zero_iff h]

end Jacobian

end DampedLeastSquares
