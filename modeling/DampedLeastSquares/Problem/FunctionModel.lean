import DampedLeastSquares.Solve.Basic

/-!
# A function with its solution

A residual function becomes a model by keeping the last solution that was committed. That solution
is also where the next solve starts, unless the model does not offer it.
-/

namespace DampedLeastSquares

/-- A problem together with its committed solution. -/
structure FunctionModel (R : Type) where
  /-- The problem. -/
  problem : Problem R
  /-- The committed solution, or what was given in its place. -/
  solution : Option (Tensor R)
  /-- Whether the solution is offered as a start. -/
  offersStart : Bool := true

namespace FunctionModel

variable {R : Type} [Scalar R]

/-- Whether a point has an entry for each variable. -/
def fits (dimension : Int) (point : List R) : Bool := (point.length : Int) = dimension

/-- The model of a residual function, which accepts the points that have an entry for each variable.
What is given as the solution is taken as it is. -/
def make (conditions dimension : Int) (residual : Residual R) (diffStep : Amount R)
    (workers : Except Fault Workers) (pattern : Option (Tensor Bool))
    (solution : Option (Tensor R)) : Except Fault (FunctionModel R) :=
  (Problem.make conditions dimension residual diffStep workers pattern
    (fits dimension)).map fun problem ↦ { problem, solution }

omit [Scalar R] in
/-- A model that is made has a problem that is made, and offers what was given. -/
theorem exists_of_make {conditions dimension : Int} {residual : Residual R} {diffStep : Amount R}
    {workers : Except Fault Workers} {pattern : Option (Tensor Bool)}
    {solution : Option (Tensor R)} {m : FunctionModel R}
    (h : make conditions dimension residual diffStep workers pattern solution = .ok m) :
    ∃ problem, Problem.make conditions dimension residual diffStep workers pattern
      (fits dimension) = .ok problem ∧ m = { problem, solution } := by
  rw [make] at h
  cases hmade : Problem.make conditions dimension residual diffStep workers pattern
    (fits dimension) with
  | error fault =>
    rw [hmade] at h
    exact nomatch h
  | ok problem =>
    rw [hmade] at h
    exact ⟨problem, rfl, (Except.ok.inj h).symm⟩

/-- Where a solve starts if it is not told. -/
def initialGuess (m : FunctionModel R) : Option (Tensor R) :=
  if m.offersStart then m.solution else none

/-- Commits a solution, if it is a vector that the problem accepts. -/
def setSolution (m : FunctionModel R) (x : Tensor R) : Option (FunctionModel R) :=
  match x.toList? with
  | some point =>
    if m.problem.accepts point then some { m with solution := some (.ofList point) } else none
  | none => none

/-- Restricts the variables that may move. -/
def setActive? (m : FunctionModel R) (indices : List Number) :
    Except Fault (Option (FunctionModel R)) :=
  (m.problem.setActive? indices).map fun p? ↦ p?.map fun problem ↦ { m with problem }

omit [Scalar R] in
/-- Where other variables are to move, the problem changes and nothing else. -/
theorem exists_of_setActive? {m m' : FunctionModel R} {indices : List Number}
    (h : m.setActive? indices = .ok (some m')) :
    ∃ problem, m.problem.setActive? indices = .ok (some problem) ∧ m' = { m with problem } := by
  rw [setActive?] at h
  cases hset : m.problem.setActive? indices with
  | error fault =>
    rw [hset] at h
    exact nomatch h
  | ok p? =>
    rw [hset] at h
    obtain ⟨p, rfl, rfl⟩ := Option.map_eq_some_iff.mp (Except.ok.inj h)
    exact ⟨p, rfl, rfl⟩

/-- The model after a solve: the point that was committed is its solution. -/
def afterSolve (m : FunctionModel R) (outcome : Outcome R) : FunctionModel R :=
  match outcome.committed with
  | some point => { m with solution := some (.ofList point) }
  | none => m

/-- Solves the problem from a given start or from the initial guess, and commits the solution. There
is no outcome if the iteration goes on for ever. -/
def solve (m : FunctionModel R) (settings : Settings R) (start : Option (Tensor R)) :
    Option (Outcome R × FunctionModel R) :=
  let start := start.orElse fun _ ↦ m.initialGuess
  (m.problem.solve settings (start.map Tensor.entries)).map fun outcome ↦
    (outcome, m.afterSolve outcome)

end FunctionModel

end DampedLeastSquares
