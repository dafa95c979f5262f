import DampedLeastSquares.Jacobian.Basic
import DampedLeastSquares.Linear.System

/-!
# The normal equations

At a point with Jacobian `J` and residuals `y`, the Gauss–Newton step solves `JᵀJ δ = -Jᵀy`. Damping
adds `λ` times the diagonal of `JᵀJ` to the matrix, which turns the step toward steepest descent and
shortens it as `λ` grows.

A system is ill-posed when some column of `J` is zero, so that its variable cannot be told from the
residuals, or when there is no step or none of finite length.
-/

namespace DampedLeastSquares

/-- The matrix `JᵀJ` and the vector `Jᵀy`. -/
structure NormalEquations (R : Type) where
  /-- The rows of the matrix. -/
  matrix : List (List R)
  /-- The gradient. -/
  gradient : List R

variable {R : Type} [Scalar R]

/-- The normal equations of a Jacobian and the residuals at the same point. -/
def Jacobian.normalEquations (j : Jacobian R) (residuals : List R) : NormalEquations R where
  matrix := j.columns.map fun u ↦ j.columns.map (Linear.dot u)
  gradient := j.columns.map fun u ↦ Linear.dot u residuals

namespace NormalEquations

/-- The diagonal of the matrix. -/
def diagonal (s : NormalEquations R) : List R := s.matrix.mapIdx fun i row ↦ row.getD i 0

/-- The matrix with `damping` times its diagonal added. Entries off the diagonal get `damping` times
zero, which is not zero if the damping is infinite. -/
def damped (s : NormalEquations R) (damping : R) : List (List R) :=
  s.matrix.mapIdx fun i row ↦ row.mapIdx fun j a ↦ a + damping * (if i = j then a else 0)

/-- The mean of the diagonal, which is the damping to begin with unless one is given. -/
def initialDamping (s : NormalEquations R) : R := Linear.mean s.diagonal

/-- The positions on the diagonal that are zero. -/
def unresponsive (s : NormalEquations R) : List Nat :=
  s.diagonal.zipIdx.filterMap fun (a, i) ↦ if Scalar.isZero a then some i else none

/-- The step of finite length that solves the damped equations. -/
def step? (s : NormalEquations R) (damping : R) : Option (List R) :=
  match Linear.solve? (s.damped damping) (s.gradient.map (- ·)) with
  | some step => if Scalar.isFinite (Linear.norm step) then some step else none
  | none => none

/-- Whether the damping, or its product with an entry of the diagonal, is not finite. -/
def overflows (s : NormalEquations R) (damping : Amount R) : Except Fault Bool :=
  damping.readWord.map fun d ↦
    !(Scalar.isFinite d && s.diagonal.all fun a ↦ Scalar.isFinite (d * a))

end NormalEquations

end DampedLeastSquares
