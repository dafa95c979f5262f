import DampedLeastSquares.Problem.Basic
import DampedLeastSquares.Solve.System
import DampedLeastSquares.Solve.Trace

/-!
# The damped iteration

The iteration alternates between two phases. In one it needs a Jacobian at the best point; in the
other it has one and tries steps of varying damping. A step that reduces the error is accepted:
damping shrinks, and a new Jacobian is needed. A step that does not is rejected: damping grows, and
the next step is tried with the same Jacobian.

Both phases are cases of one step of a machine, `State.step`, rather than two nested loops. What
holds at the start and is kept by a step then holds throughout, whichever way the loops would have
been left. The iteration is this step repeated until one ends it. Under a limit that counts can
reach some step always does; without one the iteration may go on for ever, and then it has no
result.

## When a step is final

The iteration ends after a trial if the limit of accepted steps is reached, if two steps have been
accepted and progress has become too small, or if a rejected step leaves nothing to try: damping
is zero and cannot grow, it cannot grow without overflow, or the limit of trials is reached.
-/

namespace DampedLeastSquares

variable {R : Type} [Scalar R]

/-- A point with the residuals there and their root mean square. -/
structure Visited (R : Type) where
  /-- The point. -/
  point : List R
  /-- The residuals. -/
  residuals : List R
  /-- The root mean square of the residuals. -/
  error : R

/-- A point at which the residuals are known. -/
def Visited.ofResiduals (point residuals : List R) : Visited R :=
  ⟨point, residuals, Linear.rms residuals⟩

/-- What the iteration does next. -/
inductive Phase (R : Type)
  /-- A Jacobian is needed. Without a damping, the Jacobian will give it. -/
  | linearise (damping : Option (Amount R))
  /-- A step is tried; `tried` steps have been tried with this Jacobian. -/
  | attempt (equations : NormalEquations R) (damping : Amount R) (tried : Nat)

/-- The state between two steps of the iteration. -/
structure State (R : Type) where
  /-- The best point so far. -/
  best : Visited R
  /-- What is to be done next. -/
  phase : Phase R
  /-- The course so far. -/
  trace : Trace R
  /-- The interactions with the problem so far. -/
  interactions : List (Interaction R)
  /-- What has been reported so far. -/
  records : List (Record R)

/-- How the iteration ended. -/
inductive Ending
  /-- A trial was final. -/
  | finished
  /-- The equations for a step had no usable solution. -/
  | illPosed
  /-- The residual function failed, or the Jacobian made from it, or the damping was unusable. -/
  | failed (fault : Fault)
  deriving DecidableEq, Repr

/-- What a step of the iteration leads to. -/
inductive Progress (R : Type)
  /-- The iteration goes on. -/
  | running (state : State R)
  /-- The iteration has ended. -/
  | ended (ending : Ending) (state : State R)

/-- The number of calls of the residual function in a list of interactions. -/
def callCount (interactions : List (Interaction R)) : Nat :=
  (interactions.flatMap Interaction.calls).length

/-- What is reported about a Jacobian. One without columns takes no work and is not mentioned. -/
def Problem.reportJacobian (p : Problem R) (j : Jacobian R) : List (Record R) :=
  let columns := j.columns.length
  match p.workers with
  | .ok workers =>
    if columns = 0 then []
    else [.differentiated j.conditions columns (Jacobian.busyWorkers columns workers)]
  | .error _ => []

/-! ## Decisions on a trial -/

/-- What a trial comes to: the trial itself and the quantities on which the iteration may end. -/
structure Decision (R : Type) where
  /-- The damping of the trial. -/
  damping : Amount R
  /-- Whether the step is accepted. -/
  accepted : Bool
  /-- Whether the step is rejected and damping cannot grow. -/
  stalled : Bool
  /-- The damping for the next step. -/
  dampingAfter : Amount R

/-- Decides on a trial by the reduction of the error. -/
def decideTrial (eta : Amount R) (equations : NormalEquations R) (damping : Amount R)
    (reduction : R) : Except Fault (Decision R) :=
  if 0 < reduction then do
    let shrunk ← damping.div eta
    return { damping, accepted := true, stalled := false, dampingAfter := shrunk }
  else do
    let grown ← damping.mul eta
    let stalled ← equations.overflows grown
    return { damping, accepted := false, stalled
             dampingAfter := if stalled then damping else grown }

/-- The ratio of the last two improvements, or one if there are not two. -/
def gainRatio (improvements : List R) : R :=
  match improvements.reverse with
  | last :: previous :: _ => last / previous
  | _ => 1

/-- The length of a step relative to that of a point. -/
def stepRatio (step point : List R) : Option R :=
  let length := Linear.norm point
  if Scalar.isZero length then none else some (Linear.norm step / length)

/-- Whether a ratio is below a bound. A missing ratio is that of a step to nothing, which is above
every bound. -/
def ratioBelow (bound : R) : Option R → Bool
  | none => false
  | some ratio => ratio < bound

/-- Whether the iteration ends after a trial: `updates` and `improvements` count the trial itself if
it is accepted, and `tried` is the number of trials with this Jacobian. -/
def isFinal (settings : Settings R) (d : Decision R) (updates tried : Nat) (improvements : List R)
    (ratio : Option R) : Bool :=
  settings.limit.reached updates ||
  (decide (1 < updates) && decide (gainRatio improvements < settings.epsilon)) ||
  (decide (1 < updates) && ratioBelow settings.epsilon ratio) ||
  (!d.accepted &&
    (Scalar.isZero d.dampingAfter.toScalar || d.stalled || settings.limit.reached tried))

/-- The course with one more trial. -/
def Trace.record (t : Trace R) (d : Decision R) (error reduction : R) : Trace R where
  errors := if d.accepted then t.errors ++ [error] else t.errors
  improvements := if d.accepted then t.improvements ++ [reduction] else t.improvements
  trials := t.trials ++ [⟨t.updates, d.damping, error, d.accepted, d.dampingAfter⟩]
  updates := if d.accepted then t.updates + 1 else t.updates

/-! ## The step -/

namespace State

/-- The state after a Jacobian was needed. -/
def linearise (p : Problem R) (s : State R) (damping : Option (Amount R)) : Progress R :=
  let called := p.jacobianFrom (callCount s.interactions) s.best.point
    (Tensor.ofList s.best.residuals)
  let interactions := s.interactions ++
    [.differentiate s.best.point s.best.residuals called.points]
  match called.outcome with
  | .error fault => .ended (.failed fault) { s with interactions }
  | .ok jacobian =>
    let equations := jacobian.normalEquations s.best.residuals
    .running { s with
      interactions
      phase := .attempt equations (damping.getD (.scalar equations.initialDamping)) 0
      records := s.records ++ p.reportJacobian jacobian }

/-- The best point after a decision on a step. -/
def bestAfter (s : State R) (d : Decision R) (reached : Visited R) : Visited R :=
  if d.accepted then reached else s.best

/-- The course after a decision on a step. -/
def traceAfter (s : State R) (d : Decision R) (reached : Visited R) : Trace R :=
  s.trace.record d reached.error (s.best.error - reached.error)

/-- Whether the iteration ends with a decision on a step. -/
def finalAfter (settings : Settings R) (s : State R) (d : Decision R) (tried : Nat)
    (step : List R) (reached : Visited R) : Bool :=
  let trace := s.traceAfter d reached
  isFinal settings d trace.updates (tried + 1) trace.improvements
    (stepRatio step (s.bestAfter d reached).point)

/-- What has been reported after a decision on a step. A row is for the last step that was tried
with a Jacobian. -/
def recordsAfter (settings : Settings R) (s : State R) (d : Decision R) (tried : Nat)
    (step : List R) (reached : Visited R) : List (Record R) :=
  let trace := s.traceAfter d reached
  let best := s.bestAfter d reached
  let row := Record.row trace.updates best.error d.dampingAfter.toScalar
    (stepRatio step best.point) (gainRatio trace.improvements)
  if settings.verbose && (d.accepted || s.finalAfter settings d tried step reached) then
    s.records ++ [row]
  else s.records

/-- The state after a decision on a step. -/
def after (settings : Settings R) (s : State R) (equations : NormalEquations R) (d : Decision R)
    (tried : Nat) (step : List R) (reached : Visited R) : State R :=
  { s with
    best := s.bestAfter d reached
    trace := s.traceAfter d reached
    records := s.recordsAfter settings d tried step reached
    phase := if d.accepted then .linearise (some d.dampingAfter)
      else .attempt equations d.dampingAfter (tried + 1) }

/-- What a decision on a step to a point with known residuals leads to. -/
def conclude (settings : Settings R) (s : State R) (equations : NormalEquations R)
    (d : Decision R) (tried : Nat) (step : List R) (reached : Visited R) : Progress R :=
  let state := s.after settings equations d tried step reached
  if s.finalAfter settings d tried step reached then .ended .finished state else .running state

/-- The state after a step to a point with known residuals. -/
def judge (settings : Settings R) (s : State R) (equations : NormalEquations R)
    (damping : Amount R) (tried : Nat) (step : List R) (reached : Visited R) : Progress R :=
  match decideTrial settings.eta equations damping (s.best.error - reached.error) with
  | .error fault => .ended (.failed fault) s
  | .ok d => s.conclude settings equations d tried step reached

/-- The state after a step was tried. -/
def attempt (p : Problem R) (settings : Settings R) (s : State R) (equations : NormalEquations R)
    (damping : Amount R) (tried : Nat) : Progress R :=
  match damping.read with
  | .error fault => .ended (.failed fault) s
  | .ok a =>
    match equations.unresponsive, equations.step? a with
    | [], some step =>
      match p.applyUpdate s.best.point step with
      | .error fault => .ended (.failed fault) s
      | .ok point =>
        let s' := { s with interactions := s.interactions ++ [.evaluate point] }
        match p.residual (callCount s.interactions) point with
        | .error fault => .ended (.failed fault) s'
        | .ok residuals =>
          s'.judge settings equations damping tried step (.ofResiduals point residuals)
    | still, _ =>
      let warnings := still.map fun i ↦ Record.unresponsive (p.active.getD i 0)
      .ended .illPosed { s with records := s.records ++ warnings ++ [.illPosed] }

/-- One step of the iteration. -/
def step (p : Problem R) (settings : Settings R) (s : State R) : Progress R :=
  match s.phase with
  | .linearise damping => s.linearise p damping
  | .attempt equations damping tried => s.attempt p settings equations damping tried

variable (p : Problem R) (settings : Settings R) in
/-- The iteration: how it ends, and in which state. There is neither if it goes on for ever. -/
def run (s : State R) : Option (Ending × State R) :=
  match s.step p settings with
  | .ended ending s => some (ending, s)
  -- A plain call would leave its position in the file behind in the definition.
  | .running s => unop% run s
partial_fixpoint

/-- The state before the first Jacobian, given the residuals at the start. -/
def initial (settings : Settings R) (start : Visited R) : State R where
  best := start
  phase := .linearise settings.initialDamping
  trace := { errors := [start.error] }
  interactions := [.evaluate start.point]
  records := []

/-- The state before the first Jacobian with the head of the table of progress, if one is wanted. A
first damping that cannot be shown ends the iteration before it begins. -/
def begin (settings : Settings R) (start : Visited R) : Progress R :=
  let s := initial settings start
  if settings.verbose then
    let head := [.rule, .heading, .rule]
    match settings.initialDamping.mapM Amount.read with
    | .error fault => .ended (.failed fault) { s with records := head }
    | .ok damping => .running { s with records := head ++ [.start start.error damping] }
  else .running s

end State

/-- The iteration from what a step has led to. -/
def Progress.finish (p : Problem R) (settings : Settings R) :
    Progress R → Option (Ending × State R)
  | .ended ending s => some (ending, s)
  | .running s => s.run p settings

end DampedLeastSquares
