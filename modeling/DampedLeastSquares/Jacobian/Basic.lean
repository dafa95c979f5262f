import DampedLeastSquares.Amount
import DampedLeastSquares.Jacobian.Slice
import DampedLeastSquares.Linear.Basic
import DampedLeastSquares.Point

/-!
# Difference quotients

A column of the Jacobian is the quotient `(f(x + h eᵢ) - f(x)) / h`, where `f(x)` is evaluated once
and shared by all columns. Workers fill the columns dealt to them in order, and each stops at its
own first failure. The others are not disturbed: all run to their own end, and of the failures the
one of the first worker counts.

A residual function may answer differently from call to call, so it receives the number of calls
made before. Here the workers run one after another. Since each fills columns of its own, another
order of their steps gives the same matrix as long as the answers depend on the point alone.

What a computation did is kept with what it returned: the points at which the residual function was
called, in order, are part of every result.

Points only have to be moved and handed to the residual function. How they are moved is therefore a
parameter, and points of any kind will do. Those of a solve are lists of coordinates.
-/

namespace DampedLeastSquares

/-- A residual function: given the number of calls before and a point, the residuals or a fault. -/
abbrev Residual (R : Type) := Nat → List R → Except Fault (List R)

/-- A matrix of partial derivatives, by columns. -/
structure Jacobian (R : Type) where
  /-- The number of rows. -/
  conditions : Nat
  /-- One column per active variable. -/
  columns : List (List R)

/-- What came of calling a residual function: the points of the calls, and the result. -/
structure Called (P α : Type) where
  /-- The points at which the residual function was called. -/
  points : List P
  /-- The result, or the fault that stands for it. -/
  outcome : Except Fault α

namespace Jacobian

variable {P R : Type} [Scalar R]

/-- A shape without the axes of extent one before its last axis, up to the first other axis. -/
def dropUnitAxes : List Nat → List Nat
  | 1 :: n :: shape => dropUnitAxes (n :: shape)
  | shape => shape

/-- The column with zeros where the mask does not keep it. The last axis of the mask goes along the
column. If one of the two has extent one, it stands for as many equal entries as the other has. What
comes of it has to fill the column again, so there may be no other axis along which the mask
extends. -/
def applyMask (mask : Tensor Bool) (column : List R) : Except Fault (List R) :=
  let keep := fun (kept : Bool) (a : R) ↦ if kept then a else 0
  let last := mask.shape.getLastD 1
  let shape := dropUnitAxes
    (mask.shape.dropLast ++ [if last = 1 then column.length else last])
  if last ≠ 1 ∧ column.length ≠ 1 ∧ last ≠ column.length then
    .error (.maskMismatch mask.shape column.length)
  else if shape = [column.length] then
    match mask.entries with
    | [kept] => .ok (column.map (keep kept))
    | entries => .ok (List.zipWith keep entries column)
  else .error (.cannotFill shape [column.length])

/-- The difference quotient between the residuals at a perturbed point and the baseline. -/
def quotient (baseline : Tensor R) (h : R) (s : Slice) (perturbed : List R) :
    Except Fault (List R) :=
  if baseline.shape = [perturbed.length] then
    let column := List.zipWith (fun a b ↦ (a - b) / h) perturbed baseline.entries
    match s.mask with
    | none => .ok column
    | some mask => applyMask mask column
  else .error (.shapeChanged s.var [perturbed.length] baseline.shape)

/-- Computes one column, `calls` calls after the start. -/
def differentiate (f : Nat → P → Except Fault (List R)) (move : Int → Except Fault P)
    (baseline : Tensor R) (h : R) (calls : Nat) (s : Slice) : Called P (List R) :=
  match move s.var with
  | .error fault => ⟨[], .error fault⟩
  | .ok point => ⟨[point], (f calls point).bind (quotient baseline h s)⟩

/-- Lets one worker fill its columns of the matrix up to its first failure. -/
def runWorker (f : Nat → P → Except Fault (List R)) (move : Int → Except Fault P)
    (baseline : Tensor R) (h : R) :
    List Slice → Nat → List (List R) → Called P (List (List R))
  | [], _, matrix => ⟨[], .ok matrix⟩
  | s :: rest, calls, matrix =>
    let first := differentiate f move baseline h calls s
    match first.outcome with
    | .error fault => ⟨first.points, .error fault⟩
    | .ok column =>
      let others := runWorker f move baseline h rest (calls + first.points.length)
        (matrix.set s.column column)
      ⟨first.points ++ others.points, others.outcome⟩

/-- Lets all workers fill their columns. A failure does not keep the later workers from running, but
it is the outcome. -/
def runWorkers (f : Nat → P → Except Fault (List R)) (move : Int → Except Fault P)
    (baseline : Tensor R) (h : R) :
    List (List Slice) → Nat → List (List R) → Called P (List (List R))
  | [], _, matrix => ⟨[], .ok matrix⟩
  | work :: rest, calls, matrix =>
    let first := runWorker f move baseline h work calls matrix
    let calls := calls + first.points.length
    match first.outcome with
    | .ok matrix =>
      let others := runWorkers f move baseline h rest calls matrix
      ⟨first.points ++ others.points, others.outcome⟩
    | .error fault =>
      let others := runWorkers f move baseline h rest calls matrix
      ⟨first.points ++ others.points, .error fault⟩

/-- The Jacobian at a point, given the residuals there, `calls` calls after the start: `move` moves
the point along a coordinate. Without workers nothing is called. -/
def computeBy (move : Int → Except Fault P) (f : Nat → P → Except Fault (List R)) (calls : Nat)
    (baseline : Tensor R) (active : List Int) (h : R) (workers : Except Fault Workers)
    (pattern : Option (Tensor Bool)) : Called P (Jacobian R) :=
  match workers.bind fun w ↦ slices active w pattern with
  | .error fault => ⟨[], .error fault⟩
  | .ok work =>
    let blank := List.replicate active.length (List.replicate baseline.size 0)
    let run := runWorkers f move baseline h work calls blank
    ⟨run.points, run.outcome.map fun columns ↦ ⟨baseline.size, columns⟩⟩

/-- The Jacobian at `x`, given the residuals there, `calls` calls after the start. -/
def compute (f : Residual R) (calls : Nat) (x : List R) (baseline : Tensor R) (active : List Int)
    (h : Amount R) (workers : Except Fault Workers) (pattern : Option (Tensor Bool)) :
    Called (List R) (Jacobian R) :=
  computeBy (moveEntry x · h.read) f calls baseline active h.toScalar workers pattern

/-- The number of workers that get columns. -/
def busyWorkers (columns : Nat) (workers : Workers) : Nat := min columns workers.count

/-- The matrix by rows. -/
def rows (j : Jacobian R) : List (List R) :=
  (List.range j.conditions).map fun i ↦ j.columns.filterMap (·[i]?)

end Jacobian

end DampedLeastSquares
