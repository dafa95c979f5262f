import DampedLeastSquares.Geometry.Orthonormal

/-!
# Rotations

A rotation is written either as a matrix or as a vector along its axis whose length is the angle.
The matrix of a vector is `cos θ · 1 + (1 - cos θ) · k kᵗ + sin θ · [k]ₓ` with the unit vector `k`
along it. The vector of a matrix is read off its antisymmetric part, which is twice `sin θ` times
`[k]ₓ`; near half a turn that part vanishes and the axis is read off the diagonal instead.

A matrix need not be a rotation to be given a vector: it is first replaced by its orthogonal
factor. A matrix with entries out of all proportion gets the zero vector.
-/

namespace DampedLeastSquares.Rotation

variable {R : Type} [CircularScalar R]

/-- The angle below which a rotation is taken for none. -/
def leastAngle : R := Scalar.ratio 1 0x10000000000000

/-- The matrix of the rotation about `v` by its length. -/
def ofVector (v : Vec3 R) : Mat3 R :=
  let angle := v.norm
  if angle < leastAngle then Mat3.identity
  else
    let c := CircularScalar.cos angle
    let s := CircularScalar.sin angle
    let k := v.scale (1 / angle)
    let m := Mat3.outer k k
    let rest := 1 - c
    ⟨⟨c + rest * m.a.x, rest * m.a.y - s * k.z, rest * m.a.z + s * k.y⟩,
     ⟨rest * m.b.x + s * k.z, c + rest * m.b.y, rest * m.b.z - s * k.x⟩,
     ⟨rest * m.c.x - s * k.y, rest * m.c.y + s * k.x, c + rest * m.c.z⟩⟩

/-- Whether every entry is finite, at least -100, and below 100. -/
def inProportion (m : Mat3 R) : Bool :=
  m.toList.all fun a ↦
    Scalar.isFinite a && decide (-((100 : Nat) : R) ≤ a) && decide (a < ((100 : Nat) : R))

/-- The sine of the angle below which the axis is read off the diagonal. -/
def leastSine : R := Scalar.ratio 1 100000

/-- The value moved into the interval from -1 to 1. -/
def clampUnit (c : R) : R := if 1 < c then 1 else if c < -1 then -1 else c

/-- The square root, or zero for what has none. -/
def rootOrZero (a : R) : R := Scalar.sqrt (if 0 < a then a else 0)

/-- The vector along the axis of a rotation by half a turn. The signs of its coordinates are those
that fit the first row, and the sign of the last is corrected by the entry of the matrix that knows
it if the first coordinate is the smallest. -/
def halfTurnAxis (m : Mat3 R) : Vec3 R :=
  let half := fun (a : R) ↦ (a + 1) * Scalar.ratio 1 2
  let signed := fun (a size : R) ↦ if a < 0 then -size else size
  let x := rootOrZero (half m.a.x)
  let y := signed m.a.y (rootOrZero (half m.b.y))
  let z := signed m.a.z (rootOrZero (half m.c.z))
  let opposite := decide (0 < m.b.z) != decide (0 < y * z)
  if Scalar.abs x < Scalar.abs y ∧ Scalar.abs x < Scalar.abs z ∧ opposite then ⟨x, y, -z⟩
  else ⟨x, y, z⟩

/-- The vector of an orthogonal matrix. -/
def axisAngle (m : Mat3 R) : Vec3 R :=
  let skew : Vec3 R := ⟨m.c.y - m.b.z, m.a.z - m.c.x, m.b.x - m.a.y⟩
  let sine := Scalar.sqrt (skew.dot skew * Scalar.ratio 1 4)
  let cosine := clampUnit ((m.trace - 1) * Scalar.ratio 1 2)
  let angle := CircularScalar.arccos cosine
  if sine < leastSine then
    if 0 < cosine then ⟨0, 0, 0⟩
    else
      let axis := halfTurnAxis m
      axis.scale (angle / axis.norm)
  else skew.scale (1 / (sine * (2 : Nat)) * angle)

/-- The vector of a matrix. -/
def toVector (m : Mat3 R) : Vec3 R :=
  if inProportion m then axisAngle m.orthogonalFactor else ⟨0, 0, 0⟩

/-- The vector of an array of three numbers: in a column, in a row, or at a single place. -/
def vector? (t : Tensor R) : Option (Vec3 R) :=
  match gridOf t.shape with
  | some (3, 1, 1) | some (1, 3, 1) | some (1, 1, 3) => Vec3.ofList? t.entries
  | _ => none

/-- A rotation given as an array in the other way of writing it: a matrix as its vector, in a
column, and a vector as its matrix. -/
def convert (t : Tensor R) : Except Fault (Tensor R) :=
  match Mat3.ofTensor? t, vector? t with
  | some m, _ => .ok ⟨[3, 1], (toVector m).toList, rfl⟩
  | none, some v => .ok (ofVector v).toTensor
  | none, none => .error .malformedGeometry

/-- The vector that stands for a rotation given as an array. For a matrix it is its vector. A vector
is turned into its matrix, and then the first column of that matrix stands for it. -/
def columnOf (t : Tensor R) : Except Fault (Vec3 R) :=
  match Mat3.ofTensor? t, vector? t with
  | some m, _ => .ok (toVector m)
  | none, some v => .ok (ofVector v).transpose.a
  | none, none => .error .malformedGeometry

end DampedLeastSquares.Rotation
