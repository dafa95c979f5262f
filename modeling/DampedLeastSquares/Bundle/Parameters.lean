import DampedLeastSquares.Geometry.Pose

/-!
# The layout of the parameters

An adjustment moves all poses and all points at once, as one vector: six numbers for each camera,
in the order of ascending labels, and behind them three numbers for each point. A vector can be read
back if the cameras' part is complete and the rest divides into points; how many points there are is
not asked.
-/

namespace DampedLeastSquares

variable {R : Type}

/-- What an adjustment moves. -/
structure Parameters (R : Type) where
  /-- The poses of the cameras by ascending labels. -/
  poses : List (PoseVector R)
  /-- The points. -/
  points : List (Vec3 R)

namespace Parameters

/-- The points whose coordinates stand one behind the other, if the entries divide into points. -/
def readPoints? : List R → Option (List (Vec3 R))
  | [] => some []
  | x :: y :: z :: rest => (readPoints? rest).map (⟨x, y, z⟩ :: ·)
  | _ => none

theorem readPoints?_flatMap_toList (points : List (Vec3 R)) :
    readPoints? (points.flatMap Vec3.toList) = some points := by
  induction points with
  | nil => rfl
  | cons p points ih => simp [Vec3.toList, readPoints?, ih]

/-- The points whose coordinates stand one behind the other. -/
def readPoints (entries : List R) : Except Fault (List (Vec3 R)) :=
  match readPoints? entries with
  | some points => .ok points
  | none => .error (.cannotReshape entries.length [3])

/-- The parameters as one vector. -/
def toVector (p : Parameters R) : List R :=
  p.poses.flatMap PoseVector.toList ++ p.points.flatMap Vec3.toList

/-- The parameters of a vector for the given number of cameras. -/
def ofVector (cameras : Nat) (v : List R) : Except Fault (Parameters R) :=
  match PoseVector.takeMany? cameras v with
  | none => .error (.cannotReshape v.length [cameras, 6])
  | some (poses, rest) => (readPoints rest).map fun points ↦ ⟨poses, points⟩

/-- The parameters of an array for the given number of cameras. Its first rows, six for each camera
or as many as there are, have to hold six numbers for each camera. The entries of the other rows are
those of the points. -/
def ofTensor (cameras : Nat) (t : Tensor R) : Except Fault (Parameters R) :=
  match t.rowsFrom? 0 (6 * cameras) with
  | some front =>
    if front.size = 6 * cameras then ofVector cameras t.entries
    else .error (.cannotReshape front.size [cameras, 6])
  | none => .error (.tooManyIndices t.rank 1)

theorem ofVector_toVector (p : Parameters R) :
    ofVector p.poses.length p.toVector = .ok p := by
  simp [ofVector, toVector, readPoints, PoseVector.takeMany?_flatMap_toList,
    readPoints?_flatMap_toList, Except.map]

end Parameters

end DampedLeastSquares
