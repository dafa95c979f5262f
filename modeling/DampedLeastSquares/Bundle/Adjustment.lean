import DampedLeastSquares.Bundle.Reprojection
import DampedLeastSquares.Bundle.Sparsity
import DampedLeastSquares.Solve.Basic

/-!
# Bundle adjustment

To adjust a bundle is to move poses and points until the residuals are as small as they get. The
bundle is the model and also the store of the solution: what is committed is restored into it. Since
the residual function looks only at lenses, labels and observations, and these stay, committing does
not change the problem.

Where all cameras may move, nothing says where the whole lies in space. The camera with the lowest
label is therefore usually held.
-/

namespace DampedLeastSquares

variable {R : Type} [CircularScalar R]

/-- A bundle with the problem of adjusting it. -/
structure Adjustment (R : Type) where
  /-- The bundle. -/
  bundle : Bundle R
  /-- The problem, whose residuals are those of the bundle. -/
  problem : Problem R

namespace Adjustment

/-- Whether a point has an entry for each parameter of the bundle. -/
def fits (bundle : Bundle R) (point : List R) : Bool := point.length = bundle.dimension

/-- The problem of adjusting a bundle. If the first camera is held, its six numbers may not move. -/
def make (bundle : Bundle R) (holdFirst : Bool) (diffStep : Amount R)
    (workers : Except Fault Workers) : Except Fault (Adjustment R) := do
  let sparsity ← bundle.sparsity
  let problem ← Problem.make bundle.conditions bundle.dimension (fun _ ↦ bundle.residual) diffStep
    workers (some sparsity.toTensor) (fits bundle)
  return ⟨bundle, if holdFirst then problem.holdBelow 6 else problem⟩

/-- The adjustment of another bundle with the same problem otherwise. -/
def withBundle (a : Adjustment R) (bundle : Bundle R) : Adjustment R :=
  ⟨bundle, { a.problem with residual := fun _ ↦ bundle.residual, accepts := fits bundle }⟩

/-- Restores a vector into the bundle, if it has the right size. -/
def restore (a : Adjustment R) (vector : Tensor R) : Option (Adjustment R) :=
  (a.bundle.restore vector).map a.withBundle

/-- Restricts the parameters that may move. -/
def setActive? (a : Adjustment R) (indices : List Number) :
    Except Fault (Option (Adjustment R)) :=
  (a.problem.setActive? indices).map fun p? ↦ p?.map fun problem ↦ { a with problem }

/-- The Jacobian at the parameters of the bundle. -/
def jacobian (a : Adjustment R) : Except Fault (Called (List R) (Jacobian R)) := do
  match ← a.bundle.store with
  | some x => return a.problem.jacobian x
  | none => throw (.tooManyIndices 0 1)

/-- The adjustment after a solve: the point that was committed is restored into the bundle. -/
def afterSolve (a : Adjustment R) (outcome : Outcome R) : Adjustment R :=
  (outcome.committed.bind fun x ↦ a.restore (.ofList x)).getD a

/-- Solves the problem from a given start or from the parameters of the bundle, and restores the
solution into the bundle. There is no outcome if the iteration goes on for ever. -/
def solve (a : Adjustment R) (settings : Settings R) (start : Option (List R)) :
    Except Fault (Option (Outcome R × Adjustment R)) := do
  let start ← match start with
    | some x => pure (some x)
    | none => a.bundle.store
  return (a.problem.solve settings start).map fun outcome ↦ (outcome, a.afterSolve outcome)

end Adjustment

/-- What came of adjusting a bundle. -/
structure Adjusted (R : Type) where
  /-- How the solve went. -/
  outcome : Outcome R
  /-- The bundle: the adjusted one, or, if the solve failed, the given one. -/
  bundle : Bundle R
  /-- What was reported. -/
  records : List (Record R)

/-- What is returned after a solve, given the adjustment that the solve has left. The first and the
last error are reported; a solve that succeeds without having evaluated anything has none, which is
a fault. -/
def Bundle.adjusted (b : Bundle R) (outcome : Outcome R) (a : Adjustment R) :
    Except Fault (Adjusted R) :=
  if outcome.success then
    match outcome.trace.errors.head?, outcome.trace.errors.getLast? with
    | some before, some after =>
      let record := Record.adjusted before after outcome.trace.updates
      .ok ⟨outcome, a.bundle, outcome.records ++ [record]⟩
    | _, _ => .error .emptyHistory
  else .ok ⟨outcome, b, outcome.records ++ [.adjustmentFailed outcome.status]⟩

/-- Adjusts a bundle. Nothing is returned if the iteration goes on for ever. -/
def Bundle.adjust (b : Bundle R) (holdFirst : Bool) (settings : Settings R) (diffStep : Amount R)
    (workers : Except Fault Workers) : Except Fault (Option (Adjusted R)) := do
  let a ← Adjustment.make b holdFirst diffStep workers
  (← a.solve settings none).mapM fun (outcome, a) ↦ b.adjusted outcome a

end DampedLeastSquares
