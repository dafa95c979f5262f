import DampedLeastSquares.Problem.Basic
import DampedLeastSquares.Proofs.Linear.Gram

/-!
# Residuals in other units

A residual function times a constant measures the same deviations in other units. Every number that
a step is made from is homogeneous in the residuals: columns and residuals are multiplied by the
constant, the equations by its square, and the error by its absolute value. The solution of the
equations is the same, since the square is on both sides. Here this is shown of each computation in
turn. It needs exact arithmetic, and of the constant no more than that it is not zero.
-/

namespace DampedLeastSquares

/-! ## Vectors -/

namespace Linear

/-- A multiple of a vector. -/
noncomputable def scale (c : ℝ) (v : List ℝ) : List ℝ := v.map (c * ·)

variable (c : ℝ) (u v : List ℝ)

@[simp] theorem length_scale : (scale c v).length = v.length := List.length_map _

@[simp] theorem scale_eq_nil_iff : scale c v = [] ↔ v = [] := List.map_eq_nil_iff

theorem getD_scale (i : Nat) : (scale c v).getD i 0 = c * v.getD i 0 := by
  rw [List.getD_eq_getElem?_getD, List.getD_eq_getElem?_getD, scale, List.getElem?_map]
  cases v[i]? with
  | none => exact (mul_zero c).symm
  | some a => rfl

theorem dot_scale_left : dot (scale c u) v = c * dot u v := by
  have hcomm : scale c u = u.map (· * c) := List.map_congr_left fun a _ ↦ mul_comm c a
  rw [hcomm, dot_map_mul]

theorem dot_scale_scale : dot (scale c u) (scale c v) = c * c * dot u v := by
  have hzip : List.zipWith (· * ·) (scale c u) (scale c v)
      = (List.zipWith (· * ·) u v).map (c * c * ·) := by
    rw [scale, scale, List.zipWith_map, List.map_zipWith]
    congr
    funext a b
    ring
  rw [dot_eq, dot_eq, hzip, List.sum_map_mul_left, List.map_id']

theorem rms_scale : rms (scale c v) = |c| * rms v := by
  by_cases hv : v = []
  · obtain rfl := hv
    exact (mul_zero |c|).symm
  · rw [rms_of_ne_nil (mt (scale_eq_nil_iff c v).mp hv), rms_of_ne_nil hv, dot_scale_scale,
      length_scale, mul_div_assoc, Real.sqrt_mul (mul_self_nonneg c), Real.sqrt_mul_self_eq_abs]

/-- A multiple of an equation. -/
noncomputable def Equation.scale (c : ℝ) (e : Equation ℝ) : Equation ℝ :=
  ⟨Linear.scale c e.coefficients, c * e.rhs⟩

variable {c} {n : Nat} {equations : List (Equation ℝ)}

theorem IsSquare.scale (h : IsSquare n equations) :
    IsSquare n (equations.map (Equation.scale c)) where
  length_eq := by rw [List.length_map, h.length_eq]
  length_coefficients e he := by
    obtain ⟨e', he', rfl⟩ := List.mem_map.mp he
    exact (length_scale c _).trans (h.length_coefficients e' he')

/-- **Multiples of equations have the same solution.** -/
theorem IsSolver.scale {solve : List (List ℝ) → List ℝ → Option (List ℝ)} (h : IsSolver solve)
    {rows : List (List ℝ)} {rhs : List ℝ}
    (hsquare : IsSquare rhs.length (List.zipWith Equation.mk rows rhs)) (hc : c ≠ 0) :
    solve (rows.map (Linear.scale c)) (Linear.scale c rhs) = solve rows rhs := by
  have hequations : List.zipWith Equation.mk (rows.map (Linear.scale c)) (Linear.scale c rhs)
      = (List.zipWith Equation.mk rows rhs).map (Equation.scale c) := by
    rw [Linear.scale.eq_def c rhs, List.zipWith_map, List.map_zipWith]
    rfl
  refine h.congr hsquare (length_scale c rhs) ?_ (fun zs ↦ ?_) fun zs ↦ ?_
  · rw [hequations, length_scale]
    exact hsquare.scale
  · rw [hequations]
    simp only [List.forall_mem_map, Equation.scale, dot_scale_left, mul_eq_zero, or_iff_right hc]
  · rw [hequations]
    simp only [List.forall_mem_map, Equation.scale, dot_scale_left, mul_right_inj' hc]

end Linear

open Linear (scale)

/-! ## Jacobians -/

section

variable {P α β : Type}

/-- The same calls, with another result. -/
def Called.map (g : α → β) (called : Called P α) : Called P β :=
  ⟨called.points, called.outcome.map g⟩

/-- A residual function in other units. -/
noncomputable def scaleResidual (c : ℝ) (f : Nat → P → Except Fault (List ℝ)) :
    Nat → P → Except Fault (List ℝ) :=
  fun calls x ↦ (f calls x).map (scale c)

theorem Tensor.ofList_scale (c : ℝ) (residuals : List ℝ) :
    Tensor.ofList (scale c residuals) = (Tensor.ofList residuals).map (c * ·) := by
  rw [ofList, map, Tensor.mk.injEq]
  exact ⟨congrArg (fun n ↦ [n]) (Linear.length_scale c residuals), rfl⟩

end

namespace Jacobian

variable {P : Type} (c : ℝ)

/-- The Jacobian in other units. -/
noncomputable def scale (j : Jacobian ℝ) : Jacobian ℝ :=
  { j with columns := j.columns.map (Linear.scale c) }

theorem applyMask_scale (mask : Tensor Bool) (column : List ℝ) :
    applyMask mask (Linear.scale c column) = (applyMask mask column).map (Linear.scale c) := by
  have hkeep (kept : Bool) (a : ℝ) :
      (if kept = true then c * a else 0) = c * (if kept = true then a else 0) := by
    rw [mul_ite, mul_zero]
  rw [applyMask, applyMask]
  simp only [Linear.length_scale]
  generalize dropUnitAxes _ = shape
  split
  · rfl
  · split
    · split
      next kept _ =>
        refine congrArg Except.ok ?_
        rw [Linear.scale, Linear.scale, List.map_map, List.map_map]
        exact List.map_congr_left fun a _ ↦ hkeep kept a
      next entries _ =>
        refine congrArg Except.ok ?_
        rw [Linear.scale, Linear.scale, List.zipWith_map_right, List.map_zipWith]
        congr
        funext kept a
        exact hkeep kept a
    · rfl

theorem quotient_scale (baseline : Tensor ℝ) (h : ℝ) (s : Slice) (perturbed : List ℝ) :
    quotient (baseline.map (c * ·)) h s (Linear.scale c perturbed)
      = (quotient baseline h s perturbed).map (Linear.scale c) := by
  have hcolumn : List.zipWith (fun a b ↦ (a - b) / h) (Linear.scale c perturbed)
        (baseline.map (c * ·)).entries
      = Linear.scale c (List.zipWith (fun a b ↦ (a - b) / h) perturbed baseline.entries) := by
    rw [Linear.scale, Linear.scale, Tensor.map, List.zipWith_map, List.map_zipWith]
    refine congrArg (List.zipWith · _ _) (funext fun a ↦ funext fun b ↦ ?_)
    rw [← mul_sub, mul_div_assoc]
  have hshape : (baseline.map (c * ·)).shape = baseline.shape := rfl
  rw [quotient, quotient, hshape, Linear.length_scale]
  split
  · cases s.mask with
    | none => exact congrArg Except.ok hcolumn
    | some mask =>
      rw [← applyMask_scale, ← hcolumn]
  · rfl

variable (f : Nat → P → Except Fault (List ℝ)) (move : Int → Except Fault P) (baseline : Tensor ℝ)
  (h : ℝ)

theorem differentiate_scale (calls : Nat) (s : Slice) :
    differentiate (scaleResidual c f) move (baseline.map (c * ·)) h calls s
      = (differentiate f move baseline h calls s).map (Linear.scale c) := by
  rw [differentiate, differentiate]
  cases move s.var with
  | error fault => rfl
  | ok point =>
    refine congrArg (Called.mk [point]) ?_
    change ((f calls point).map (Linear.scale c)).bind _
      = ((f calls point).bind (quotient baseline h s)).map (Linear.scale c)
    cases f calls point with
    | error fault => rfl
    | ok perturbed => exact quotient_scale c baseline h s perturbed

theorem runWorker_scale (work : List Slice) (calls : Nat) (matrix : List (List ℝ)) :
    runWorker (scaleResidual c f) move (baseline.map (c * ·)) h work calls
        (matrix.map (Linear.scale c))
      = (runWorker f move baseline h work calls matrix).map (List.map (Linear.scale c)) := by
  induction work generalizing calls matrix with
  | nil => rfl
  | cons s rest ih =>
    rw [runWorker, runWorker, differentiate_scale]
    cases hfirst : differentiate f move baseline h calls s with
    | mk points outcome =>
      cases outcome with
      | error fault => rfl
      | ok column =>
        simp only [Called.map, Except.map]
        rw [← List.map_set, ih]
        rfl

theorem runWorkers_scale (works : List (List Slice)) (calls : Nat) (matrix : List (List ℝ)) :
    runWorkers (scaleResidual c f) move (baseline.map (c * ·)) h works calls
        (matrix.map (Linear.scale c))
      = (runWorkers f move baseline h works calls matrix).map (List.map (Linear.scale c)) := by
  induction works generalizing calls matrix with
  | nil => rfl
  | cons work rest ih =>
    rw [runWorkers, runWorkers, runWorker_scale]
    cases hfirst : runWorker f move baseline h work calls matrix with
    | mk points outcome =>
      -- A worker that fails leaves the matrix as it was, in either unit.
      cases outcome with
      | error fault =>
        simp only [Called.map, Except.map]
        rw [ih]
        rfl
      | ok filled =>
        simp only [Called.map, Except.map]
        rw [ih]
        rfl

/-- **A Jacobian is homogeneous in the residuals.** -/
theorem computeBy_scale (calls : Nat) (active : List Int) (workers : Except Fault Workers)
    (pattern : Option (Tensor Bool)) :
    computeBy move (scaleResidual c f) calls (baseline.map (c * ·)) active h workers pattern
      = (computeBy move f calls baseline active h workers pattern).map (scale c) := by
  have hsize : (baseline.map (c * ·)).size = baseline.size := List.length_map _
  have hblank : List.replicate active.length (List.replicate baseline.size (0 : ℝ))
      = (List.replicate active.length (List.replicate baseline.size 0)).map (Linear.scale c) := by
    rw [List.map_replicate, Linear.scale, List.map_replicate, mul_zero]
  rw [computeBy, computeBy, hsize]
  cases workers.bind fun w ↦ slices active w pattern with
  | error fault => rfl
  | ok work =>
    dsimp only
    rw [hblank, runWorkers_scale, ← hblank]
    cases runWorkers f move baseline h work calls _ with
    | mk points outcome => cases outcome <;> rfl

end Jacobian

namespace Problem

/-- The problem with its residuals in other units. -/
noncomputable def scale (c : ℝ) (p : Problem ℝ) : Problem ℝ :=
  { p with residual := scaleResidual c p.residual }

theorem jacobianFrom_scale (c : ℝ) (p : Problem ℝ) (calls : Nat) (x residuals : List ℝ) :
    (p.scale c).jacobianFrom calls x (Tensor.ofList (Linear.scale c residuals))
      = (p.jacobianFrom calls x (Tensor.ofList residuals)).map (Jacobian.scale c) := by
  have hsize : ((Tensor.ofList residuals).map (c * ·)).size = (Tensor.ofList residuals).size :=
    List.length_map _
  rw [Tensor.ofList_scale, jacobianFrom, jacobianFrom, jacobianBy, jacobianBy, hsize]
  change (if _ = p.conditions then _ else _) = _
  split
  · exact Jacobian.computeBy_scale c p.residual _ _ _ calls _ p.workers p.pattern
  · rfl

end Problem

/-! ## The normal equations -/

namespace NormalEquations

/-- A multiple of the equations. -/
noncomputable def scale (k : ℝ) (s : NormalEquations ℝ) : NormalEquations ℝ :=
  ⟨s.matrix.map (Linear.scale k), Linear.scale k s.gradient⟩

/-- There are as many equations as unknowns. -/
structure IsSquare (s : NormalEquations ℝ) : Prop where
  /-- Each row has an entry on the right. -/
  length_matrix : s.matrix.length = s.gradient.length
  /-- Each row has a coefficient for each unknown. -/
  length_row : ∀ row ∈ s.matrix, row.length = s.gradient.length

end NormalEquations

namespace Jacobian

theorem isSquare_normalEquations (j : Jacobian ℝ) (residuals : List ℝ) :
    (j.normalEquations residuals).IsSquare where
  length_matrix := by rw [normalEquations, List.length_map, List.length_map]
  length_row row hrow := by
    obtain ⟨u, -, rfl⟩ := List.mem_map.mp hrow
    rw [normalEquations, List.length_map, List.length_map]

/-- **The equations are homogeneous of degree two in the residuals.** -/
theorem normalEquations_scale (c : ℝ) (j : Jacobian ℝ) (residuals : List ℝ) :
    (j.scale c).normalEquations (Linear.scale c residuals)
      = (j.normalEquations residuals).scale (c * c) := by
  have hrow (u : List ℝ) : (j.scale c).columns.map (Linear.dot (Linear.scale c u))
      = Linear.scale (c * c) (j.columns.map (Linear.dot u)) := by
    rw [scale, Linear.scale.eq_def (c * c), List.map_map, List.map_map]
    exact List.map_congr_left fun v _ ↦ Linear.dot_scale_scale c u v
  have hmatrix : (j.scale c).columns.map (fun u ↦ (j.scale c).columns.map (Linear.dot u))
      = (j.columns.map fun u ↦ j.columns.map (Linear.dot u)).map (Linear.scale (c * c)) := by
    rw [scale, List.map_map, List.map_map]
    exact List.map_congr_left fun u _ ↦ hrow u
  have hgradient : (j.scale c).columns.map (fun u ↦ Linear.dot u (Linear.scale c residuals))
      = Linear.scale (c * c) (j.columns.map fun u ↦ Linear.dot u residuals) := by
    rw [scale, Linear.scale.eq_def (c * c), List.map_map, List.map_map]
    exact List.map_congr_left fun u _ ↦ Linear.dot_scale_scale c u residuals
  rw [normalEquations, hmatrix, hgradient]
  rfl

end Jacobian

namespace NormalEquations

section

variable (k : ℝ) (s : NormalEquations ℝ)

theorem diagonal_scale : (s.scale k).diagonal = Linear.scale k s.diagonal := by
  refine List.ext_getElem (by simp [diagonal, scale]) fun i hi hi' ↦ ?_
  simp only [diagonal, scale, List.getElem_mapIdx, List.getElem_map, Linear.getD_scale]
  simp only [Linear.scale, List.getElem_map, List.getElem_mapIdx]

theorem damped_scale (damping : ℝ) :
    (s.scale k).damped damping = (s.damped damping).map (Linear.scale k) := by
  refine List.ext_getElem (by simp [damped, scale]) fun i hi hi' ↦ ?_
  refine List.ext_getElem (by simp [damped, scale]) fun m hm hm' ↦ ?_
  simp only [damped, scale, Linear.scale, List.getElem_mapIdx, List.getElem_map]
  split <;> ring

theorem unresponsive_scale {k : ℝ} (hk : k ≠ 0) : (s.scale k).unresponsive = s.unresponsive := by
  have hzero (a : ℝ) : Scalar.isZero (k * a) = Scalar.isZero a := by
    rw [Bool.eq_iff_iff, Scalar.isZero_iff, Scalar.isZero_iff, mul_eq_zero, or_iff_right hk]
  rw [unresponsive, unresponsive, diagonal_scale, Linear.scale, List.zipIdx_map,
    List.filterMap_map]
  simp only [Function.comp_def, Prod.map_fst, Prod.map_snd, hzero]
  rfl

end

variable {s : NormalEquations ℝ}

theorem IsSquare.damped (hs : s.IsSquare) (damping : ℝ) :
    Linear.IsSquare (s.gradient.map (- ·)).length
      (List.zipWith Linear.Equation.mk (s.damped damping) (s.gradient.map (- ·))) where
  length_eq := by
    rw [List.length_zipWith, NormalEquations.damped, List.length_mapIdx, List.length_map,
      hs.length_matrix, Nat.min_self]
  length_coefficients e he := by
    obtain ⟨i, hi, rfl⟩ := List.getElem_of_mem he
    rw [List.getElem_zipWith, List.length_map]
    simp only [NormalEquations.damped, List.getElem_mapIdx, List.length_mapIdx]
    exact hs.length_row _ (List.getElem_mem _)

/-- **The step does not depend on the unit.** -/
theorem IsSquare.step?_scale (hs : s.IsSquare) {k : ℝ} (hk : k ≠ 0) (damping : ℝ) :
    (s.scale k).step? damping = s.step? damping := by
  have hgradient : (s.scale k).gradient.map (- ·) = Linear.scale k (s.gradient.map (- ·)) := by
    rw [scale, Linear.scale, Linear.scale, List.map_map, List.map_map]
    exact List.map_congr_left fun a _ ↦ (mul_neg k a).symm
  rw [step?_eq, step?_eq, damped_scale, hgradient,
    Linear.isSolver_solve?.scale (hs.damped damping) hk]

end NormalEquations

end DampedLeastSquares
