import DampedLeastSquares.Proofs.Solve.Step

/-!
# Pure residual functions

A residual function is given the number of calls made before, and may answer accordingly. If it
makes no use of that number then a Jacobian does not depend on when it is computed, and one can
speak of the step that leads from a point rather than of the step that was once found there. What
such a step is, and where steps lead, is defined without reference to any run.
-/

namespace DampedLeastSquares

variable {P R : Type} [Scalar R]

namespace Jacobian

section

variable {f : Nat → P → Except Fault (List R)} (hf : ∀ n x, f n x = f 0 x)
  (move : Int → Except Fault P) (baseline : Tensor R) (h : R)

include hf

theorem differentiate_of_pure (calls calls' : Nat) (s : Slice) :
    differentiate f move baseline h calls s = differentiate f move baseline h calls' s := by
  rw [differentiate, differentiate]
  cases move s.var with
  | error fault => rfl
  | ok point => simp only [hf calls point, hf calls' point]

theorem runWorker_of_pure (work : List Slice) (calls calls' : Nat) (matrix : List (List R)) :
    runWorker f move baseline h work calls matrix
      = runWorker f move baseline h work calls' matrix := by
  induction work generalizing calls calls' matrix with
  | nil => rfl
  | cons s rest ih =>
    rw [runWorker, runWorker]
    simp only [differentiate_of_pure hf move baseline h calls calls' s]
    split
    · rfl
    next column _ => rw [ih _ (calls' + _)]

theorem runWorkers_of_pure (works : List (List Slice)) (calls calls' : Nat)
    (matrix : List (List R)) :
    runWorkers f move baseline h works calls matrix
      = runWorkers f move baseline h works calls' matrix := by
  induction works generalizing calls calls' matrix with
  | nil => rfl
  | cons work rest ih =>
    rw [runWorkers, runWorkers]
    simp only [runWorker_of_pure hf move baseline h work calls calls' matrix]
    -- The other workers run whether or not this one fails.
    split
    · rw [ih _ (calls' + _)]
    · rw [ih _ (calls' + _)]

theorem computeBy_of_pure (calls calls' : Nat) (active : List Int) (workers : Except Fault Workers)
    (pattern : Option (Tensor Bool)) :
    computeBy move f calls baseline active h workers pattern
      = computeBy move f calls' baseline active h workers pattern := by
  rw [computeBy, computeBy]
  split
  · rfl
  · simp only [runWorkers_of_pure hf move baseline h _ calls calls']

end

end Jacobian

namespace Problem

/-- The residual function answers by the point alone. -/
def IsPure (p : Problem R) : Prop := ∀ n x, p.residual n x = p.residual 0 x

variable {p : Problem R}

theorem IsPure.jacobianFrom (hp : p.IsPure) (calls : Nat) (x : List R) (baseline : Tensor R) :
    p.jacobianFrom calls x baseline = p.jacobianFrom 0 x baseline := by
  rw [Problem.jacobianFrom, Problem.jacobianFrom, jacobianBy, jacobianBy,
    Jacobian.computeBy_of_pure hp _ _ _ calls 0]

/-! ## Steps without a run -/

/-- The error at a point, if there are residuals. -/
def errorAt? (p : Problem R) (x : List R) : Option R :=
  (p.residual 0 x).toOption.map Linear.rms

/-- The equations for the steps from a point, if there are any. -/
def equationsAt? (p : Problem R) (x : List R) : Option (NormalEquations R) := do
  let residuals ← (p.residual 0 x).toOption
  let jacobian ← (p.jacobianFrom 0 x (Tensor.ofList residuals)).outcome.toOption
  return jacobian.normalEquations residuals

theorem errorAt?_of_residual {x residuals : List R} (h : p.residual 0 x = .ok residuals) :
    p.errorAt? x = some (Linear.rms residuals) := by
  rw [errorAt?, h]
  rfl

theorem equationsAt?_of_jacobianFrom {x residuals : List R} {points : List (List R)}
    {jacobian : Jacobian R} (h : p.residual 0 x = .ok residuals)
    (hcalled : p.jacobianFrom 0 x (Tensor.ofList residuals) = ⟨points, .ok jacobian⟩) :
    p.equationsAt? x = some (jacobian.normalEquations residuals) := by
  simp only [equationsAt?, h, Except.toOption, hcalled, bind, Option.bind, pure]

/-- Where the step of a trial leads from a point, if it leads anywhere. -/
def follow? (p : Problem R) (x : List R) (t : Trial R) : Option (List R) := do
  let equations ← p.equationsAt? x
  let a ← t.damping.read.toOption
  let step ← equations.step? a
  (p.applyUpdate x step).toOption

theorem follow?_of_step {x step y : List R} {t : Trial R} {equations : NormalEquations R} {a : R}
    (hequations : p.equationsAt? x = some equations) (hread : t.damping.read = .ok a)
    (hstep : equations.step? a = some step) (hmoved : p.applyUpdate x step = .ok y) :
    p.follow? x t = some y := by
  simp only [follow?, hequations, hread, Except.toOption, hstep, hmoved, bind, Option.bind]

/-- Where the steps of the accepted trials lead, one after another. -/
def retrace? (p : Problem R) (start : List R) (trials : List (Trial R)) : Option (List R) :=
  (trials.filter Trial.accepted).foldlM p.follow? start

@[simp] theorem retrace?_nil (p : Problem R) (start : List R) : p.retrace? start [] = some start :=
  rfl

variable {start : List R} {trials : List (Trial R)} {t : Trial R}

theorem retrace?_append_of_accepted (h : t.accepted = true) :
    p.retrace? start (trials ++ [t]) = (p.retrace? start trials).bind (p.follow? · t) := by
  rw [retrace?, List.filter_append, List.filter_cons_of_pos h, List.filter_nil,
    List.foldlM_append]
  simp [retrace?, bind]

theorem retrace?_append_of_rejected (h : t.accepted = false) :
    p.retrace? start (trials ++ [t]) = p.retrace? start trials := by
  rw [retrace?, List.filter_append, List.filter_cons_of_neg (by rw [h]; exact Bool.false_ne_true),
    List.filter_nil, List.append_nil, retrace?]

end Problem

end DampedLeastSquares
