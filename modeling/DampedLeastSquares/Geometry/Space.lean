import DampedLeastSquares.Scalar
import DampedLeastSquares.Tensor

/-!
# Vectors and matrices of space

Points, directions and rotations have three coordinates, and the matrices that act on them have
three rows.
-/

namespace DampedLeastSquares

/-- A point or direction. -/
structure Vec3 (R : Type) where
  /-- The first coordinate. -/
  x : R
  /-- The second coordinate. -/
  y : R
  /-- The third coordinate. -/
  z : R

/-- A matrix, by rows. -/
structure Mat3 (R : Type) where
  /-- The first row. -/
  a : Vec3 R
  /-- The second row. -/
  b : Vec3 R
  /-- The third row. -/
  c : Vec3 R

namespace Vec3

variable {R : Type}

/-- The coordinates in order. -/
def toList (v : Vec3 R) : List R := [v.x, v.y, v.z]

/-- The vector with the given coordinates, if there are three. -/
def ofList? : List R → Option (Vec3 R)
  | [x, y, z] => some ⟨x, y, z⟩
  | _ => none

@[simp] theorem ofList?_toList (v : Vec3 R) : ofList? v.toList = some v := rfl

variable [Scalar R]

/-- The sum. -/
def add (u v : Vec3 R) : Vec3 R := ⟨u.x + v.x, u.y + v.y, u.z + v.z⟩

/-- The difference. -/
def sub (u v : Vec3 R) : Vec3 R := ⟨u.x - v.x, u.y - v.y, u.z - v.z⟩

/-- The multiple by a scalar. -/
def scale (r : R) (v : Vec3 R) : Vec3 R := ⟨r * v.x, r * v.y, r * v.z⟩

/-- The inner product. -/
def dot (u v : Vec3 R) : R := u.x * v.x + u.y * v.y + u.z * v.z

/-- The Euclidean length. -/
def norm (v : Vec3 R) : R := Scalar.sqrt (v.dot v)

end Vec3

/-- How an array of a given shape is read as a grid of values: its rows, its columns, and the number
of values at each place. What has no second axis is a single column, and what has no third axis has
one value at each place. With more axes it is no grid. -/
def gridOf : List Nat → Option (Nat × Nat × Nat)
  | [] => some (1, 1, 1)
  | [rows] => some (rows, 1, 1)
  | [rows, columns] => some (rows, columns, 1)
  | [rows, columns, depth] => some (rows, columns, depth)
  | _ => none

namespace Mat3

variable {R : Type}

/-- The rows in order. -/
def toRows (m : Mat3 R) : List (Vec3 R) := [m.a, m.b, m.c]

/-- The entries in row-major order. -/
def toList (m : Mat3 R) : List R := m.toRows.flatMap Vec3.toList

/-- The matrix as an array. -/
def toTensor (m : Mat3 R) : Tensor R := ⟨[3, 3], m.toList, rfl⟩

/-- The matrix of an array with three rows of three entries. -/
def ofTensor? (t : Tensor R) : Option (Mat3 R) :=
  match gridOf t.shape, t.entries with
  | some (3, 3, 1), [xx, xy, xz, yx, yy, yz, zx, zy, zz] =>
    some ⟨⟨xx, xy, xz⟩, ⟨yx, yy, yz⟩, ⟨zx, zy, zz⟩⟩
  | _, _ => none

@[simp] theorem ofTensor?_toTensor (m : Mat3 R) : ofTensor? m.toTensor = some m := rfl

/-- The matrix with rows and columns exchanged. -/
def transpose (m : Mat3 R) : Mat3 R :=
  ⟨⟨m.a.x, m.b.x, m.c.x⟩, ⟨m.a.y, m.b.y, m.c.y⟩, ⟨m.a.z, m.b.z, m.c.z⟩⟩

variable [Scalar R]

/-- The image of a vector. -/
def apply (m : Mat3 R) (v : Vec3 R) : Vec3 R := ⟨m.a.dot v, m.b.dot v, m.c.dot v⟩

/-- The product, which acts like the first matrix after the second. -/
def mul (m n : Mat3 R) : Mat3 R :=
  let t := n.transpose
  ⟨t.apply m.a, t.apply m.b, t.apply m.c⟩

/-- The identity. -/
def identity : Mat3 R := ⟨⟨1, 0, 0⟩, ⟨0, 1, 0⟩, ⟨0, 0, 1⟩⟩

/-- The sum of the diagonal. -/
def trace (m : Mat3 R) : R := m.a.x + m.b.y + m.c.z

/-- The matrix that takes `v` to `u`, if `v` has length one, and all that is perpendicular to `v` to
zero. -/
def outer (u v : Vec3 R) : Mat3 R := ⟨v.scale u.x, v.scale u.y, v.scale u.z⟩

/-- The sum. -/
def add (m n : Mat3 R) : Mat3 R := ⟨m.a.add n.a, m.b.add n.b, m.c.add n.c⟩

end Mat3

end DampedLeastSquares
