import DampedLeastSquares.Tensor

/-!
# Dealing out the columns

The columns of a Jacobian are dealt to workers like cards: the first to the first worker, the next
to the next, and so on round the table. Which worker gets a column depends on the number of the
column and the number of workers only. A worker may stay without columns.
-/

namespace DampedLeastSquares

/-- How many workers there are. -/
structure Workers where
  /-- Their number. -/
  count : Nat
  /-- There is at least one. -/
  count_pos : 0 < count := by decide

namespace Jacobian

/-- The work on one column: which column it is, which variable is perturbed, and which entries are
kept. -/
structure Slice where
  /-- The column to fill. -/
  column : Nat
  /-- The variable to perturb, counted from either end of the point. -/
  var : Int
  /-- The conditions that depend on the variable. Without it, all may. -/
  mask : Option (Tensor Bool)
  deriving DecidableEq, Repr

/-- The work on all columns in order. -/
def sliceList (active : List Int) (pattern : Option (Tensor Bool)) : Except Fault (List Slice) :=
  active.zipIdx.mapM fun (var, i) ↦
    match pattern with
    | none => .ok ⟨i, var, none⟩
    | some pattern => (pattern.column var).map fun mask ↦ ⟨i, var, some mask⟩

/-- Deals items round `n` places: the item number `i` goes behind those already at place `i % n`. -/
def deal {α : Type} (n : Nat) (items : List α) : List (List α) :=
  items.zipIdx.foldl (fun places (item, i) ↦ places.modify (i % n) (· ++ [item]))
    (List.replicate n [])

/-- The work of each worker. -/
def slices (active : List Int) (workers : Workers) (pattern : Option (Tensor Bool)) :
    Except Fault (List (List Slice)) :=
  (sliceList active pattern).map (deal workers.count)

end Jacobian

end DampedLeastSquares
