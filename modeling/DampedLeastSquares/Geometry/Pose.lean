import DampedLeastSquares.Geometry.Rotation

/-!
# Poses

A pose says where a camera stands: it turns a point of space and then shifts it, which gives the
coordinates of the point as the camera sees it. Callers give the turn as a matrix and may give
arrays of any shape; the adjustment moves poses through six numbers, the vector of the rotation and
the shift behind it.

Six numbers always make a pose, and a pose whose shift has three entries always makes six numbers.
In between, the shift is kept as it is, and the vector of the rotation becomes the vector of its own
matrix.
-/

namespace DampedLeastSquares

variable {R : Type}

/-- Where a camera stands. -/
structure Pose (R : Type) where
  /-- The turn, as a matrix. -/
  rotation : Tensor R
  /-- The shift. -/
  shift : Tensor R

/-- The six numbers of a pose. -/
structure PoseVector (R : Type) where
  /-- The vector of the rotation. -/
  turn : Vec3 R
  /-- The shift. -/
  shift : Vec3 R

namespace PoseVector

/-- The numbers in order. -/
def toList (v : PoseVector R) : List R := v.turn.toList ++ v.shift.toList

/-- The pose of six numbers in order, if there are six. -/
def ofList? : List R → Option (PoseVector R)
  | [a, b, c, x, y, z] => some ⟨⟨a, b, c⟩, ⟨x, y, z⟩⟩
  | _ => none

@[simp] theorem ofList?_toList (v : PoseVector R) : ofList? v.toList = some v := rfl

@[simp] theorem length_toList (v : PoseVector R) : v.toList.length = 6 := rfl

/-- The poses whose numbers stand one behind the other at the start of a list, and the rest of it,
if there are `n` of them. -/
def takeMany? : Nat → List R → Option (List (PoseVector R) × List R)
  | 0, rest => some ([], rest)
  | n + 1, a :: b :: c :: x :: y :: z :: rest =>
    (takeMany? n rest).map fun (poses, rest) ↦ (⟨⟨a, b, c⟩, ⟨x, y, z⟩⟩ :: poses, rest)
  | _ + 1, _ => none

theorem takeMany?_flatMap_toList (poses : List (PoseVector R)) (rest : List R) :
    takeMany? poses.length (poses.flatMap toList ++ rest) = some (poses, rest) := by
  induction poses with
  | nil => rfl
  | cons v poses ih => simp [toList, Vec3.toList, takeMany?, ih]

variable [CircularScalar R]

/-- The pose with the given numbers. -/
def pose (v : PoseVector R) : Pose R :=
  ⟨(Rotation.ofVector v.turn).toTensor, .ofList v.shift.toList⟩

/-- A point as it is seen from the pose. -/
def view (v : PoseVector R) (point : Vec3 R) : Vec3 R :=
  ((Rotation.ofVector v.turn).apply point).add v.shift

end PoseVector

namespace Pose

variable [CircularScalar R]

/-- The vector of the rotation with the shift behind it. The shift must be a row, of any length; a
single number counts as a row of one. -/
def toVector (p : Pose R) : Except Fault (List R) := do
  let turn ← Rotation.columnOf p.rotation
  if p.shift.rank ≤ 1 then return turn.toList ++ p.shift.entries
  else throw (.rankMismatch 1 p.shift.rank)

/-- The pose of an array. Its first three rows have to be a rotation, and are written in the other
way; the shift is what there is of the next three. -/
def ofTensor (t : Tensor R) : Except Fault (Pose R) :=
  match t.rowsFrom? 0 3, t.rowsFrom? 3 3 with
  | some turn, some shift => (Rotation.convert turn).map fun rotation ↦ ⟨rotation, shift⟩
  | _, _ => .error (.tooManyIndices t.rank 1)

/-- On six numbers it is the pose of these. -/
theorem ofTensor_toList (v : PoseVector R) : ofTensor (.ofList v.toList) = .ok v.pose := rfl

end Pose

end DampedLeastSquares
