import DampedLeastSquares.Config.Basic
import DampedLeastSquares.Fault
import DampedLeastSquares.Scalar

/-!
# What a solve leaves behind

A solve reports its outcome and its whole history. The history has three views: the `Trace` of
errors, improvements and trials; the `Interaction`s with the problem, in order, each with the points
at which the residual function was called; and the `Record`s that tell a reader what happened.
-/

namespace DampedLeastSquares

/-- How a solve ended. -/
inductive Status
  /-- A stopping rule applied and the best point was committed. -/
  | converged
  /-- The equations for a step had no usable solution. -/
  | illPosed
  /-- The residual function, or the Jacobian made from it, failed, or the damping was unusable. -/
  | evaluationError
  /-- There was no point to start from. -/
  | serializationError
  /-- The best point was refused. -/
  | solutionRejected
  deriving DecidableEq, Repr

/-- The word for a status. -/
def Status.word : Status → String
  | converged => "converged"
  | illPosed => "ill_posed"
  | evaluationError => "evaluation_error"
  | serializationError => "serialization_error"
  | solutionRejected => "solution_rejected"

/-- One step that was tried, and what was decided on it. -/
structure Trial (R : Type) where
  /-- The number of steps accepted before. -/
  update : Nat
  /-- The damping of the step. -/
  damping : Amount R
  /-- The error at the end of the step. -/
  error : R
  /-- Whether the step was accepted. -/
  accepted : Bool
  /-- The damping after the decision. -/
  dampingAfter : Amount R

/-- The course of a solve. -/
structure Trace (R : Type) where
  /-- The error at the start and after each accepted step. -/
  errors : List R := []
  /-- By how much each accepted step reduced the error. -/
  improvements : List R := []
  /-- All steps that were tried. -/
  trials : List (Trial R) := []
  /-- The number of accepted steps. -/
  updates : Nat := 0

/-- One use that a solve makes of its problem. -/
inductive Interaction (R : Type)
  /-- The residuals at a point were asked for. -/
  | evaluate (point : List R)
  /-- The Jacobian at a point was asked for, given the residuals there; this took calls of the
  residual function at `points`. -/
  | differentiate (point baseline : List R) (points : List (List R))
  /-- A point was offered as the solution. -/
  | commit (point : List R) (accepted : Bool)

/-- The points at which an interaction called the residual function. -/
def Interaction.calls {R : Type} : Interaction R → List (List R)
  | evaluate point => [point]
  | differentiate _ _ points => points
  | commit _ _ => []

/-- How much a record matters. -/
inductive Level
  /-- Of interest when looking for a mistake. -/
  | debug
  /-- Of interest to follow the course of a solve. -/
  | info
  /-- A sign of trouble. -/
  | warning
  /-- A failure. -/
  | error
  deriving DecidableEq, Repr

/-- The part of the library that a record comes from. -/
inductive Source
  /-- The damped iteration. -/
  | solver
  /-- The problem. -/
  | problem
  /-- The difference quotients. -/
  | jacobian
  /-- The adjustment of cameras and points. -/
  | bundle
  deriving DecidableEq, Repr

/-- Something that a reader may want to know. -/
inductive Record (R : Type)
  /-- There is no point to start from. -/
  | noGuess
  /-- No variable may move. -/
  | nothingActive
  /-- A fault ended the iteration. -/
  | caught (fault : Fault)
  /-- The best point was refused. -/
  | refused (point : List R)
  /-- A line across the table of progress. -/
  | rule
  /-- The heads of the columns of the table. -/
  | heading
  /-- The row for the start. -/
  | start (error : R) (damping : Option R)
  /-- The row for one Jacobian and the steps tried with it. A step has no ratio to a position of
  length zero. -/
  | row (updates : Nat) (error damping : R) (stepRatio : Option R) (gainRatio : R)
  /-- The residuals do not respond to a variable. -/
  | unresponsive (var : Nat)
  /-- The equations for a step have no usable solution. -/
  | illPosed
  /-- A Jacobian was computed. -/
  | differentiated (conditions columns workers : Nat)
  /-- A model has no vector to be evaluated at. -/
  | noVector
  /-- An adjustment failed. -/
  | adjustmentFailed (status : Status)
  /-- An adjustment succeeded. -/
  | adjusted (before after : R) (updates : Nat)

namespace Record

variable {R : Type}

/-- How much a record matters. -/
def level : Record R → Level
  | noGuess | caught _ | refused _ | illPosed | noVector => .error
  | nothingActive | unresponsive _ | adjustmentFailed _ => .warning
  | rule | heading | start .. | row .. | adjusted .. => .info
  | differentiated .. => .debug

/-- Where a record comes from. -/
def source : Record R → Source
  | differentiated .. => .jacobian
  | noVector => .problem
  | adjustmentFailed _ | adjusted .. => .bundle
  | _ => .solver

/-- The fault that a record is about. -/
def fault? : Record R → Option Fault
  | caught fault => some fault
  | _ => none

end Record

/-- A bound on counts: a number, or no bound. -/
inductive Limit
  /-- Counts from here on have reached the bound. -/
  | atMost (bound : Nat)
  /-- No count reaches the bound. -/
  | unbounded
  deriving DecidableEq, Repr

namespace Limit

/-- Whether a count has reached the bound. -/
def reached : Limit → Nat → Bool
  | atMost bound, count => bound ≤ count
  | unbounded, _ => false

end Limit

/-- The bound on counts that a stopping rule sets. -/
def Stopping.limit (s : Stopping) : Limit :=
  match s.maxCount.ceiling? with
  | some bound => .atMost bound
  | none => .unbounded

/-- What steers the iteration. -/
structure Settings (R : Type) where
  /-- The bound on accepted steps, and on trials for each Jacobian. -/
  limit : Limit
  /-- Below this ratio progress is too small. -/
  epsilon : R
  /-- The first damping, unless it is taken from the first Jacobian. -/
  initialDamping : Option (Amount R)
  /-- The factor by which damping grows and shrinks. -/
  eta : Amount R
  /-- Whether progress is reported. -/
  verbose : Bool

/-- The settings of a configuration over floats. -/
def Damping.settings (d : Damping) : Settings Float where
  limit := d.stopping.limit
  epsilon := d.stopping.epsilon.toFloat
  initialDamping := d.initialLambda.map Number.toAmount
  eta := d.eta.toAmount
  verbose := d.verbose.any Number.isTrue

end DampedLeastSquares
