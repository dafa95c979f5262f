import DampedLeastSquares.Config.Basic
import DampedLeastSquares.Jacobian.Basic

/-!
# Least-squares problems

A problem is a residual function together with everything a solve needs to know about it: how many
conditions and variables there are, which variables may move and in which order, how to take
difference quotients, where the Jacobian can be other than zero, and which points may be committed
as solutions. Problems are values; a solve reads one and changes nothing.

The active variables are distinct and exist, and a pattern has the shape of the full Jacobian. Both
facts are kept with the problem, so that everything built from it can rely on them. The numbers of
conditions and variables are what the maker of the problem says. They are integers, since nothing
keeps anybody from saying a negative number, which then no residual and no point has.

Points are lists of coordinates. What a caller asks for at an array of another rank is computed by
the same functions, with another way to move along a coordinate.
-/

namespace DampedLeastSquares

/-- A least-squares problem. -/
structure Problem (R : Type) where
  /-- The number of conditions. -/
  conditions : Int
  /-- The number of variables. -/
  dimension : Int
  /-- The residual function. -/
  residual : Residual R
  /-- The step of a difference quotient. -/
  diffStep : Amount R
  /-- The workers that fill a Jacobian, or what keeps them from it. -/
  workers : Except Fault Workers
  /-- The entries of the full Jacobian that can be other than zero. -/
  pattern : Option (Tensor Bool)
  /-- The variables that may move, in the order of the columns of the Jacobian. -/
  active : List Nat
  /-- Whether a point can be committed. -/
  accepts : List R → Bool
  /-- A pattern covers the full Jacobian. -/
  pattern_shape : ∀ p ∈ pattern, p.shape.map Int.ofNat = [conditions, dimension]
  /-- No active variable is named twice. -/
  active_nodup : active.Nodup
  /-- Every active variable exists. -/
  active_lt : ∀ i ∈ active, (i : Int) < dimension

/-- The workers that a number asks for. They are counted in whole numbers, and a float is none even
if its value is. -/
def Number.workers : Number → Except Fault Workers
  | .int n =>
    if h : 0 < n.toNat then .ok ⟨n.toNat, h⟩ else .error (.noWorkers (Number.int n).text)
  | .truth true => .ok { count := 1 }
  | .truth false => .error (.noWorkers (Number.truth false).text)
  | .real x =>
    if (Number.real x).isBelow 1 then .error (.noWorkers (Number.real x).text)
    else .error .fractionalWorkers

/-- The workers that a caller asks for. -/
def Workers.requested : Option Number → Except Fault Workers
  | some n => n.workers
  | none => .error .workersMissing

/-- The workers: as configured, or, if their number is missing or zero, those of the host. -/
def Differencing.workers (d : Differencing) (host : Workers) : Except Fault Workers :=
  match d.threads with
  | none => .ok host
  | some n => if n.isTrue then n.workers else .ok host

namespace Problem

variable {P R : Type} [Scalar R]

/-- The problem in which every variable may move, if the pattern has the right shape. -/
def make (conditions dimension : Int) (residual : Residual R) (diffStep : Amount R)
    (workers : Except Fault Workers) (pattern : Option (Tensor Bool)) (accepts : List R → Bool) :
    Except Fault (Problem R) :=
  let problem := fun pattern hpattern ↦
    { conditions, dimension, residual, diffStep, workers, pattern, accepts
      active := List.range dimension.toNat
      pattern_shape := hpattern
      active_nodup := List.nodup_range
      active_lt := fun _ hi ↦ Int.lt_toNat.mp (List.mem_range.mp hi) : Problem R }
  match pattern with
  | none => .ok (problem none (by simp))
  | some p =>
    if h : p.shape.map Int.ofNat = [conditions, dimension] then
      .ok (problem (some p) (by simpa using h))
    else .error (.patternShape p.shape conditions dimension)

omit [Scalar R] in
/-- A problem that is made has what it was made from, and all variables may move. -/
theorem exists_of_make {conditions dimension : Int} {residual : Residual R} {diffStep : Amount R}
    {workers : Except Fault Workers} {pattern : Option (Tensor Bool)} {accepts : List R → Bool}
    {p : Problem R}
    (h : make conditions dimension residual diffStep workers pattern accepts = .ok p) :
    ∃ pattern_shape, p =
      { conditions, dimension, residual, diffStep, workers, pattern, accepts, pattern_shape
        active := List.range dimension.toNat
        active_nodup := List.nodup_range
        active_lt := fun _ hi ↦ Int.lt_toNat.mp (List.mem_range.mp hi) } := by
  rw [make.eq_def] at h
  cases pattern with
  | none => exact ⟨_, (Except.ok.inj h).symm⟩
  | some t =>
    dsimp only at h
    split at h
    · exact ⟨_, (Except.ok.inj h).symm⟩
    · exact nomatch h

/-- The problem in which only the given variables may move, in the given order. Fractions of indices
are dropped. If an index is repeated or no variable has it, then the set is refused, and nothing is
changed. -/
def setActive? (p : Problem R) (indices : List Number) : Except Fault (Option (Problem R)) := do
  let indices ← indices.mapM Number.truncate
  if hnodup : indices.Nodup then
    if hrange : ∀ i ∈ indices, 0 ≤ i ∧ i < p.dimension then
      return some { p with
        active := indices.map Int.toNat
        active_nodup := by
          refine List.pairwise_map.mpr (hnodup.imp_of_mem ?_)
          intro a b ha hb hab
          have h1 := hrange a ha
          have h2 := hrange b hb
          omega
        active_lt := by
          intro i hi
          obtain ⟨a, ha, rfl⟩ := List.mem_map.mp hi
          have h1 := hrange a ha
          omega }
    else return none
  else return none

omit [Scalar R] in
/-- Where other variables are to move, nothing else changes. -/
theorem exists_of_setActive? {p p' : Problem R} {indices : List Number}
    (h : p.setActive? indices = .ok (some p')) :
    ∃ active active_nodup active_lt, p' = { p with active, active_nodup, active_lt } := by
  rw [setActive?] at h
  cases hindices : indices.mapM Number.truncate with
  | error fault =>
    rw [hindices] at h
    exact nomatch h
  | ok truncated =>
    simp only [hindices, bind, Except.bind, pure, Except.pure] at h
    split at h
    · split at h
      · exact ⟨_, _, _, (Option.some.inj (Except.ok.inj h)).symm⟩
      · exact nomatch h
    · exact nomatch h

/-- The problem in which variables below a bound may not move. -/
def holdBelow (p : Problem R) (bound : Nat) : Problem R :=
  { p with
    active := p.active.filter fun i ↦ decide (bound ≤ i)
    active_nodup := p.active_nodup.filter _
    active_lt := fun i hi ↦ p.active_lt i (List.mem_filter.mp hi).1 }

/-- The Jacobian of `f` at a point of any kind with respect to the active variables, given the
residuals there: `move` moves the point along a coordinate. -/
def jacobianBy (p : Problem R) (move : Int → Except Fault P)
    (f : Nat → P → Except Fault (List R)) (calls : Nat) (baseline : Tensor R) :
    Called P (Jacobian R) :=
  if (baseline.size : Int) = p.conditions then
    Jacobian.computeBy move f calls baseline (p.active.map Int.ofNat) p.diffStep.toScalar p.workers
      p.pattern
  else ⟨[], .error (.wrongConditions baseline.size p.conditions)⟩

/-- The Jacobian at `x` with respect to the active variables, given the residuals there. -/
def jacobianFrom (p : Problem R) (calls : Nat) (x : List R) (baseline : Tensor R) :
    Called (List R) (Jacobian R) :=
  p.jacobianBy (moveEntry x · p.diffStep.read) p.residual calls baseline

/-- The Jacobian of `f` at a point of any kind with respect to the active variables: `move` moves
the point along a coordinate. -/
def jacobianAt (p : Problem R) (move : Int → Except Fault P)
    (f : Nat → P → Except Fault (List R)) (x : P) : Called P (Jacobian R) :=
  match f 0 x with
  | .error fault => ⟨[x], .error fault⟩
  | .ok baseline =>
    let rest := p.jacobianBy move f 1 (Tensor.ofList baseline)
    ⟨x :: rest.points, rest.outcome⟩

/-- The Jacobian at `x` with respect to the active variables. -/
def jacobian (p : Problem R) (x : List R) : Called (List R) (Jacobian R) :=
  p.jacobianAt (moveEntry x · p.diffStep.read) p.residual x

/-- An entry of an update. -/
def updateEntry (update : List R) (i : Nat) : Except Fault R :=
  match update[i]? with
  | some d => .ok d
  | none => .error (.indexOutOfBounds i 0 update.length)

/-- Moves a point along the coordinates that `active` names, one after another, by the entries of an
update. `i` is the number of the next entry. -/
def addUpdate (move : P → Int → Except Fault R → Except Fault P) (update : List R) :
    List Nat → Nat → P → Except Fault P
  | [], _, x => .ok x
  | var :: rest, i, x =>
    (move x var (updateEntry update i)).bind (addUpdate move update rest (i + 1))

/-- The point moved by an update, whose entries are in the order of the active variables. An update
must not be longer than the point. -/
def applyUpdate (p : Problem R) (x update : List R) : Except Fault (List R) :=
  if update.length ≤ x.length then addUpdate moveEntry update p.active 0 x
  else .error .updateTooLong

/-- The array moved by an update, whose entries are in the order of the active variables. An update
must not have more entries than the array. -/
def applyUpdateToRows (p : Problem R) (x : Tensor R) (update : List R) :
    Except Fault (Tensor R) :=
  if update.length ≤ x.size then addUpdate Tensor.moveRow update p.active 0 x
  else .error .updateTooLong

end Problem

end DampedLeastSquares
