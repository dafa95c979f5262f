import DampedLeastSquares.Solve.Iteration

/-!
# Solving a problem

A solve starts from a given point, runs the iteration over the active variables, and offers the best
point to the problem. Only a point that a finished iteration found is offered, it is offered once,
and nothing follows: a solve that ends otherwise leaves everything as it was. Without active
variables the start itself is offered.

When the residual function fails, the reported point is the start; when the equations are ill-posed,
it is the best point reached.
-/

namespace DampedLeastSquares

variable {R : Type} [Scalar R]

/-- What a solve returns. -/
structure Outcome (R : Type) where
  /-- How it ended. -/
  status : Status
  /-- The point it ended with, if there was any. -/
  point : Option (List R)
  /-- Its course. -/
  trace : Trace R
  /-- Its interactions with the problem, in order. -/
  interactions : List (Interaction R)
  /-- What it reported, in order. -/
  records : List (Record R)

namespace Outcome

/-- Whether a solution was found and committed. -/
def success (o : Outcome R) : Bool := o.status = .converged

/-- The number of calls of the residual function. -/
def calls (o : Outcome R) : Nat := callCount o.interactions

/-- The point that was committed, if one was. -/
def committed (o : Outcome R) : Option (List R) :=
  match o.interactions.getLast? with
  | some (.commit point true) => some point
  | _ => none

end Outcome

namespace Problem

/-- Offers a point as the solution, after everything else. -/
def commit (p : Problem R) (point : List R) (trace : Trace R)
    (interactions : List (Interaction R)) (records : List (Record R)) : Outcome R :=
  if p.accepts point then
    ⟨.converged, some point, trace, interactions ++ [.commit point true], records⟩
  else
    ⟨.solutionRejected, some point, trace, interactions ++ [.commit point false],
      records ++ [.refused point]⟩

/-- The outcome of an iteration that began at `start` and ended in a state. -/
def outcome (p : Problem R) (start : List R) : Ending → State R → Outcome R
  | .finished, s => p.commit s.best.point s.trace s.interactions s.records
  | .illPosed, s => ⟨.illPosed, some s.best.point, s.trace, s.interactions, s.records⟩
  | .failed fault, s =>
    ⟨.evaluationError, some start, s.trace, s.interactions, s.records ++ [.caught fault]⟩

/-- Iterates from a point over a nonempty set of active variables. -/
def iterate (p : Problem R) (settings : Settings R) (start : List R) : Option (Outcome R) :=
  match p.residual 0 start with
  | .error fault =>
    some ⟨.evaluationError, some start, {}, [.evaluate start], [.caught fault]⟩
  | .ok residuals =>
    let begun := State.begin settings (.ofResiduals start residuals)
    (begun.finish p settings).map fun (ending, s) ↦ p.outcome start ending s

/-- Minimises the root mean square of the residuals from a point. There is no outcome if the
iteration goes on for ever. -/
def solve (p : Problem R) (settings : Settings R) : Option (List R) → Option (Outcome R)
  | none => some ⟨.serializationError, none, {}, [], [.noGuess]⟩
  | some start =>
    if p.active.isEmpty then some (p.commit start {} [] [.nothingActive])
    else p.iterate settings start

end Problem

end DampedLeastSquares
