import DampedLeastSquares.Geometry.Space

/-!
# From space to the image

A camera divides by depth, bends the result by the distortion of its lens, projects it to the plane
of its sensor, and scales it to pixels. The distortion has a radial part, which is a quotient of two
cubics in the squared radius, a tangential part, and a part for thin prisms. The sensor may be
tilted against the lens. If it stands square to the axis, projecting to it changes no finite
position; a position without a finite coordinate has no image at all.

Callers give the coefficients in a fixed order, in a row or in a column. Only certain numbers of
them have a meaning, and the missing ones are zero.
-/

namespace DampedLeastSquares

/-- A position in the image. -/
structure Pixel (R : Type) where
  /-- To the right. -/
  u : R
  /-- Down. -/
  v : R

/-- The coefficients of the distortion of a lens. -/
structure Distortion (R : Type) where
  /-- Radial, numerator, linear. -/
  k1 : R
  /-- Radial, numerator, quadratic. -/
  k2 : R
  /-- Tangential, along the vertical. -/
  p1 : R
  /-- Tangential, along the horizontal. -/
  p2 : R
  /-- Radial, numerator, cubic. -/
  k3 : R
  /-- Radial, denominator, linear. -/
  k4 : R
  /-- Radial, denominator, quadratic. -/
  k5 : R
  /-- Radial, denominator, cubic. -/
  k6 : R
  /-- Prism, horizontal, linear. -/
  s1 : R
  /-- Prism, horizontal, quadratic. -/
  s2 : R
  /-- Prism, vertical, linear. -/
  s3 : R
  /-- Prism, vertical, quadratic. -/
  s4 : R
  /-- The angle by which the sensor is tilted about the horizontal. -/
  tx : R
  /-- The angle by which the sensor is tilted about the vertical. -/
  ty : R

variable {R : Type}

section

variable [Scalar R]

namespace Distortion

/-- The distortion with the given coefficients, in the order of the fields. There may be none, and
they may end behind the second tangential one, behind the numerator, behind the denominator, behind
the prisms or at the end. -/
def ofList? : List R → Option (Distortion R)
  | [] => some ⟨0, 0, 0, 0, 0, 0, 0, 0, 0, 0, 0, 0, 0, 0⟩
  | [k1, k2, p1, p2] => some ⟨k1, k2, p1, p2, 0, 0, 0, 0, 0, 0, 0, 0, 0, 0⟩
  | [k1, k2, p1, p2, k3] => some ⟨k1, k2, p1, p2, k3, 0, 0, 0, 0, 0, 0, 0, 0, 0⟩
  | [k1, k2, p1, p2, k3, k4, k5, k6] => some ⟨k1, k2, p1, p2, k3, k4, k5, k6, 0, 0, 0, 0, 0, 0⟩
  | [k1, k2, p1, p2, k3, k4, k5, k6, s1, s2, s3, s4] =>
    some ⟨k1, k2, p1, p2, k3, k4, k5, k6, s1, s2, s3, s4, 0, 0⟩
  | [k1, k2, p1, p2, k3, k4, k5, k6, s1, s2, s3, s4, tx, ty] =>
    some ⟨k1, k2, p1, p2, k3, k4, k5, k6, s1, s2, s3, s4, tx, ty⟩
  | _ => none

/-- Where a lens puts what an ideal one would put at `(x, y)`. -/
def bend (d : Distortion R) (x y : R) : Pixel R :=
  let two : R := (2 : Nat)
  let r2 := x * x + y * y
  let r4 := r2 * r2
  let r6 := r4 * r2
  let outward := 1 + d.k1 * r2 + d.k2 * r4 + d.k3 * r6
  let inward := 1 / (1 + d.k4 * r2 + d.k5 * r4 + d.k6 * r6)
  let cross := two * x * y
  ⟨x * outward * inward + d.p1 * cross + d.p2 * (r2 + two * x * x) + d.s1 * r2 + d.s2 * r4,
   y * outward * inward + d.p1 * (r2 + two * y * y) + d.p2 * cross + d.s3 * r2 + d.s4 * r4⟩

end Distortion

/-- What turns a point before the camera into a position in the image. -/
structure Lens (R : Type) where
  /-- Pixels per unit to the right. -/
  fx : R
  /-- Pixels per unit down. -/
  fy : R
  /-- The position of the axis, to the right. -/
  cx : R
  /-- The position of the axis, down. -/
  cy : R
  /-- The distortion. -/
  distortion : Distortion R
  /-- How the plane of the sensor stands to the plane of the lens, as the matrix of a projection. -/
  sensor : Mat3 R

/-- The point divided by its depth. Depth zero counts as depth one. -/
def Vec3.flatten (p : Vec3 R) : Pixel R :=
  let inverse := if Scalar.isZero p.z then 1 else 1 / p.z
  ⟨p.x * inverse, p.y * inverse⟩

/-- Where a position behind the lens falls on the plane of the sensor. -/
def Pixel.onSensor (p : Pixel R) (sensor : Mat3 R) : Pixel R := (sensor.apply ⟨p.u, p.v, 1⟩).flatten

/-- The image of a point given in the coordinates of the camera. -/
def Lens.project (lens : Lens R) (p : Vec3 R) : Pixel R :=
  let ideal := p.flatten
  let seen := (lens.distortion.bend ideal.u ideal.v).onSensor lens.sensor
  ⟨seen.u * lens.fx + lens.cx, seen.v * lens.fy + lens.cy⟩

end

/-- What a caller knows of the inside of a camera. -/
structure Intrinsics (R : Type) where
  /-- The matrix that scales and shifts to pixels. -/
  matrix : Tensor R
  /-- The coefficients of the distortion. -/
  distortion : Tensor R

/-- The coefficients of the distortion, if they stand in a column or in a row. An array without
entries has none, unless it is a grid with places for them or has too many axes. -/
def Intrinsics.coefficients? (i : Intrinsics R) : Option (List R) :=
  match gridOf i.distortion.shape with
  | some (rows, columns, depth) =>
    if 0 < depth ∧ (rows * columns = 0 ∨ rows = 1 ∨ columns = 1) then some i.distortion.entries
    else none
  | none => if i.distortion.size = 0 ∧ i.distortion.rank < 32 then some [] else none

variable [CircularScalar R]

/-- The projection along the axis to a sensor that is turned about the horizontal and then about the
vertical: the turn, and then the shear that makes it a projection. A sensor that is not turned needs
none. -/
def Distortion.sensor (d : Distortion R) : Mat3 R :=
  if Scalar.isZero d.tx && Scalar.isZero d.ty then Mat3.identity
  else
    let (cx, sx) := (CircularScalar.cos d.tx, CircularScalar.sin d.tx)
    let (cy, sy) := (CircularScalar.cos d.ty, CircularScalar.sin d.ty)
    let aboutHorizontal : Mat3 R := ⟨⟨1, 0, 0⟩, ⟨0, cx, sx⟩, ⟨0, -sx, cx⟩⟩
    let aboutVertical : Mat3 R := ⟨⟨cy, 0, -sy⟩, ⟨0, 1, 0⟩, ⟨sy, 0, cy⟩⟩
    let turn := aboutVertical.mul aboutHorizontal
    let shear : Mat3 R := ⟨⟨turn.c.z, 0, -turn.a.z⟩, ⟨0, turn.c.z, -turn.b.z⟩, ⟨0, 0, 1⟩⟩
    shear.mul turn

/-- The lens, if the matrix is one of three by three and the number of coefficients has a meaning.
Entries of the matrix that a camera without skew does not have are not looked at. -/
def Intrinsics.lens? (i : Intrinsics R) : Option (Lens R) :=
  match Mat3.ofTensor? i.matrix, i.coefficients?.bind Distortion.ofList? with
  | some m, some d => some ⟨m.a.x, m.b.y, m.a.z, m.b.z, d, d.sensor⟩
  | _, _ => none

end DampedLeastSquares
