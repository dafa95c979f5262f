import DampedLeastSquares.Bundle.Basic

/-!
# Which residuals depend on which parameters

The two residuals of an observation depend on the six numbers of its camera and the three of its
point, and on nothing else. The columns of these are listed for each observation, and every other
entry of the Jacobian is known to be zero.

A list of indices goes with the observations one by one. If one of the two has a single entry, that
entry goes with all entries of the other.

The columns of a point are computed from its number in the words in which the numbers are given. If
these are too narrow for a column, another column is marked instead.
-/

namespace DampedLeastSquares

/-- The columns on which the residuals of each observation depend. -/
structure Sparsity where
  /-- The number of columns. -/
  columns : Nat
  /-- The columns of each observation. -/
  dependencies : List (List Nat)
  deriving DecidableEq, Repr

namespace Sparsity

/-- The number of rows: two for each observation. -/
def rows (s : Sparsity) : Nat := 2 * s.dependencies.length

/-- Whether the residuals of an observation depend on each column. -/
def line (columns : Nat) (dependencies : List Nat) : List Bool :=
  (List.range columns).map fun c ↦ dependencies.contains c

private theorem length_flatMap_line (columns : Nat) (dependencies : List (List Nat)) :
    (dependencies.flatMap fun d ↦ line columns d ++ line columns d).length =
      2 * dependencies.length * columns := by
  induction dependencies with
  | nil => simp
  | cons d rest ih =>
    rw [List.flatMap_cons, List.length_append, List.length_append, ih, List.length_cons, line,
      List.length_map, List.length_range, Nat.mul_add, Nat.add_mul]
    omega

/-- The pattern of the Jacobian. -/
def toTensor (s : Sparsity) : Tensor Bool :=
  ⟨[s.rows, s.columns], s.dependencies.flatMap fun d ↦ line s.columns d ++ line s.columns d, by
    rw [length_flatMap_line]; simp [rows, Tensor.count]⟩

/-- The columns of each row in ascending order. -/
def byRow (s : Sparsity) : List (List Nat) :=
  s.dependencies.flatMap fun d ↦
    let columns := (List.range s.columns).filter fun c ↦ d.contains c
    [columns, columns]

/-- The indices that go with each of `n` observations. -/
def distribute {α : Type} (n : Nat) (indices : List α) : Except Fault (List (List α)) :=
  if indices.length = n then .ok (indices.map ([·]))
  else match indices with
    | [a] => .ok (List.replicate n [a])
    | indices => if n = 1 then .ok [indices] else .error (.indexListMismatch n indices.length)

/-- The column that an index means, counted from either end. There are not more columns than there
are indices. -/
def column (columns : Nat) (index : Int) : Except Fault Nat :=
  if WordFormat.int64.Holds columns then
    match position? index columns with
    | some c => .ok c
    | none => .error (.columnOutOfBounds index)
  else .error .indexTooWide

/-- The columns that go with each of `n` observations, by their indices. -/
def place (n columns : Nat) (indices : List Int) : Except Fault (List (List Nat)) := do
  let groups ← distribute n indices
  groups.mapM fun group ↦ group.mapM (column columns)

/-- The index of column `s` of the block for which an index stands, if a block has `width` columns
and the block of the index zero starts at `start`. The index is given as a word, and so is all that
is computed from it. -/
def blockIndex (words : WordFormat) (start : Int) (width s : Nat) (index : Int) : Int :=
  words.asIndex.wrap (words.wrap (words.wrap (start + words.wrap (index * width)) + s))

/-- The columns that go with each of `n` observations, if an index stands for a block of `width`
columns. The block of the index zero starts at `start`, for which there has to be a word. -/
def placeBlocks (words : WordFormat) (n columns : Nat) (indices : List Int) (start width : Nat) :
    Except Fault (List (List Nat)) := do
  let start ← words.encode start
  (List.range width).foldlM (fun placed s ↦ do
    let more ← place n columns (indices.map (blockIndex words start width s))
    return List.zipWith (· ++ ·) placed more) (List.replicate n [])

/-- The columns on which observations depend, if the cameras have the given places and there are
the given number of points. -/
def ofObservations {R : Type} (places : Labelled Int) (o : Observations R) (points : Nat) :
    Except Fault Sparsity := do
  let n := o.images.length
  let columns := 6 * places.size + 3 * points
  let cameras ← o.cameras.mapM fun label ↦
    match places.get? label with
    | some place => .ok place
    | none => .error (.unknownCamera label)
  let cameras ← cameras.mapM WordFormat.int64.encode
  let onCameras ← placeBlocks .int64 n columns cameras 0 6
  let onPoints ← placeBlocks o.words n columns o.points (6 * places.size) 3
  return ⟨columns, List.zipWith (· ++ ·) onCameras onPoints⟩

end Sparsity

/-- The columns on which the observations of a bundle depend. -/
def Bundle.sparsity {R : Type} (b : Bundle R) : Except Fault Sparsity :=
  Sparsity.ofObservations (b.cameras.ranks.map fun _ (place : Nat) ↦ (place : Int)) b.observations
    b.points.length

end DampedLeastSquares
