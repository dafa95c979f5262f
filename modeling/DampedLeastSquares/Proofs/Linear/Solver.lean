import DampedLeastSquares.Proofs.Linear.Elimination
import Mathlib.LinearAlgebra.Matrix.ToLinearEquiv

/-!
# What is asked of a solver

Steps are found by solving a square system. What follows from a step over the real numbers uses two
things about the solver: that it finds a solution, and that it finds one unless the system is
singular. A system that is not singular has one solution at most, and so nothing else about the
system matters than its solutions, and nothing about the solver at all. For systems that are given
as matrices to be singular is to have the determinant zero.

Elimination is such a solver.
-/

namespace DampedLeastSquares.Linear

/-- What is asked of a solver for square systems over the real numbers. -/
structure IsSolver (solve : List (List ℝ) → List ℝ → Option (List ℝ)) : Prop where
  /-- What it finds is a solution. -/
  solves : ∀ {rows : List (List ℝ)} {rhs xs : List ℝ},
    IsSquare rhs.length (List.zipWith Equation.mk rows rhs) → solve rows rhs = some xs →
      xs.length = rhs.length ∧
      ∀ e ∈ List.zipWith Equation.mk rows rhs, dot e.coefficients xs = e.rhs
  /-- It finds none exactly if the system is singular. -/
  eq_none_iff : ∀ {rows : List (List ℝ)} {rhs : List ℝ},
    IsSquare rhs.length (List.zipWith Equation.mk rows rhs) →
      (solve rows rhs = none ↔ ¬Nonsingular rhs.length (List.zipWith Equation.mk rows rhs))

/-- **Elimination is a solver.** -/
theorem isSolver_solve? : IsSolver solve? where
  solves h hxs := by
    rw [solve?_eq_eliminate] at hxs
    exact h.solves_of_eliminate hxs
  eq_none_iff h := by
    rw [solve?_eq_eliminate]
    exact h.eliminate_eq_none_iff

section

variable {solve : List (List ℝ) → List ℝ → Option (List ℝ)} {rows : List (List ℝ)} {rhs xs : List ℝ}

theorem IsSolver.nonsingular (h : IsSolver solve)
    (hsquare : IsSquare rhs.length (List.zipWith Equation.mk rows rhs))
    (hxs : solve rows rhs = some xs) :
    Nonsingular rhs.length (List.zipWith Equation.mk rows rhs) := by
  by_contra hsingular
  exact nomatch hxs.symm.trans ((h.eq_none_iff hsquare).mpr hsingular)

/-- **All that a solver depends on are the solutions.** Two systems in as many unknowns with the
same solutions, and the same ones with zeros on the right, are answered alike. -/
theorem IsSolver.congr (h : IsSolver solve)
    (hsquare : IsSquare rhs.length (List.zipWith Equation.mk rows rhs)) {rows' : List (List ℝ)}
    {rhs' : List ℝ} (hlength : rhs'.length = rhs.length)
    (hsquare' : IsSquare rhs'.length (List.zipWith Equation.mk rows' rhs'))
    (hzero : ∀ zs, (∀ e ∈ List.zipWith Equation.mk rows' rhs', dot e.coefficients zs = 0) ↔
      ∀ e ∈ List.zipWith Equation.mk rows rhs, dot e.coefficients zs = 0)
    (hsolves : ∀ zs, (∀ e ∈ List.zipWith Equation.mk rows' rhs', dot e.coefficients zs = e.rhs) ↔
      ∀ e ∈ List.zipWith Equation.mk rows rhs, dot e.coefficients zs = e.rhs) :
    solve rows' rhs' = solve rows rhs := by
  have hiff : Nonsingular rhs'.length (List.zipWith Equation.mk rows' rhs') ↔
      Nonsingular rhs.length (List.zipWith Equation.mk rows rhs) := by
    simp only [Nonsingular, hzero, hlength]
  by_cases hnonsingular : Nonsingular rhs.length (List.zipWith Equation.mk rows rhs)
  · obtain ⟨xs, hxs⟩ := Option.ne_none_iff_exists'.mp
      (mt (h.eq_none_iff hsquare).mp (not_not.mpr hnonsingular))
    obtain ⟨ys, hys⟩ := Option.ne_none_iff_exists'.mp
      (mt (h.eq_none_iff hsquare').mp (not_not.mpr (hiff.mpr hnonsingular)))
    obtain ⟨hxlength, hsolution⟩ := h.solves hsquare hxs
    obtain ⟨hylength, hsolution'⟩ := h.solves hsquare' hys
    rw [hxs, hys, hnonsingular.unique (hylength.trans hlength) hxlength
      ((hsolves ys).mp hsolution') hsolution]
  · rw [(h.eq_none_iff hsquare).mpr hnonsingular,
      (h.eq_none_iff hsquare').mpr (mt hiff.mp hnonsingular)]

end

/-! ## Systems given by matrices -/

variable {n : Nat} {xs : List ℝ} {solve : List (List ℝ) → List ℝ → Option (List ℝ)}

/-- The rows of a matrix as lists. -/
def rowsOf (M : Matrix (Fin n) (Fin n) ℝ) : List (List ℝ) :=
  List.ofFn fun i ↦ List.ofFn (M i)

theorem dot_ofFn (u v : Fin n → ℝ) : dot (List.ofFn u) (List.ofFn v) = u ⬝ᵥ v := by
  induction n with
  | zero => simp
  | succ n ih =>
    rw [List.ofFn_succ, List.ofFn_succ, dot_cons, ih, dotProduct, dotProduct, Fin.sum_univ_succ]

theorem exists_ofFn_eq (hxs : xs.length = n) : ∃ v : Fin n → ℝ, xs = List.ofFn v := by
  subst hxs
  exact ⟨xs.get, (List.ofFn_get xs).symm⟩

/-- The equations of a matrix and a right-hand side. -/
def equationsOf (M : Matrix (Fin n) (Fin n) ℝ) (b : Fin n → ℝ) : List (Equation ℝ) :=
  List.ofFn fun i ↦ ⟨List.ofFn (M i), b i⟩

section matrix

variable (M : Matrix (Fin n) (Fin n) ℝ) (b : Fin n → ℝ)

theorem zipWith_rowsOf : List.zipWith Equation.mk (rowsOf M) (List.ofFn b) = equationsOf M b := by
  refine List.ext_getElem ?_ fun i hi hi' ↦ ?_ <;> simp [rowsOf, equationsOf]

theorem isSquare_equationsOf : IsSquare n (equationsOf M b) where
  length_eq := List.length_ofFn
  length_coefficients e he := by
    obtain ⟨i, rfl⟩ := List.mem_ofFn.mp he
    exact List.length_ofFn

theorem forall_mem_equationsOf {holds : Equation ℝ → Prop} :
    (∀ e ∈ equationsOf M b, holds e) ↔ ∀ i, holds ⟨List.ofFn (M i), b i⟩ := by
  simp [equationsOf, List.mem_ofFn]

theorem nonsingular_equationsOf_iff : Nonsingular n (equationsOf M b) ↔ M.det ≠ 0 := by
  have hdot (v : Fin n → ℝ) : (∀ e ∈ equationsOf M b, dot e.coefficients (List.ofFn v) = 0) ↔
      M.mulVec v = 0 := by
    rw [forall_mem_equationsOf, funext_iff]
    exact forall_congr' fun i ↦ by rw [dot_ofFn]; rfl
  rw [Ne, ← Matrix.exists_mulVec_eq_zero_iff]
  constructor
  · rintro hnonsingular ⟨v, hv, hzero⟩
    refine hv (funext fun i ↦ ?_)
    exact hnonsingular _ List.length_ofFn ((hdot v).mpr hzero) _ (List.mem_ofFn.mpr ⟨i, rfl⟩)
  · intro hno zs hzs hzero a ha
    obtain ⟨v, rfl⟩ := exists_ofFn_eq hzs
    obtain ⟨i, rfl⟩ := List.mem_ofFn.mp ha
    by_contra hne
    exact hno ⟨v, fun hv ↦ hne (congrFun hv i), (hdot v).mp hzero⟩

theorem isSquare_rowsOf : IsSquare (List.ofFn b).length
    (List.zipWith Equation.mk (rowsOf M) (List.ofFn b)) := by
  rw [zipWith_rowsOf, List.length_ofFn]
  exact isSquare_equationsOf M b

variable {M b}

/-- **A solution of a system given by a matrix is one.** -/
theorem IsSolver.mulVec (h : IsSolver solve) (hxs : solve (rowsOf M) (List.ofFn b) = some xs) :
    ∃ v, xs = List.ofFn v ∧ M.mulVec v = b := by
  obtain ⟨hlength, hsolves⟩ := h.solves (isSquare_rowsOf M b) hxs
  rw [List.length_ofFn] at hlength
  rw [zipWith_rowsOf] at hsolves
  obtain ⟨v, rfl⟩ := exists_ofFn_eq hlength
  refine ⟨v, rfl, funext fun i ↦ ?_⟩
  have hi := (forall_mem_equationsOf M b).mp hsolves i
  rwa [dot_ofFn] at hi

/-- **There is none exactly if the determinant is zero.** -/
theorem IsSolver.eq_none_iff_det (h : IsSolver solve) :
    solve (rowsOf M) (List.ofFn b) = none ↔ M.det = 0 := by
  rw [h.eq_none_iff (isSquare_rowsOf M b), zipWith_rowsOf, List.length_ofFn,
    nonsingular_equationsOf_iff, not_not]

end matrix

end DampedLeastSquares.Linear
