import DampedLeastSquares.Geometry.Space

/-!
# The orthogonal factor of a matrix

A matrix takes some three perpendicular directions to perpendicular directions, stretching each by a
singular value. Without the stretching it is orthogonal, and of all orthogonal matrices it is then
the nearest. The directions are found by plane rotations: whenever the images of two of them are not
perpendicular, both are turned in their plane until they are. A matrix that is orthogonal already
needs no rotation and comes out as it went in.

A direction that is taken to zero has no direction as image. It is given one perpendicular to those
already found, made from a fixed sequence of signs, so that the result is always the same.
-/

namespace DampedLeastSquares

variable {R : Type} [Scalar R]

/-- A direction, its image, and the square of the length of the image. -/
structure Axis (R : Type) where
  /-- The direction. -/
  source : Vec3 R
  /-- What the matrix makes of it. -/
  image : Vec3 R
  /-- The square of the length of the image. -/
  square : R

namespace Axis

/-- The direction with its image. -/
def make (source image : Vec3 R) : Axis R := ⟨source, image, image.dot image⟩

/-- How far from perpendicular two images may be, relative to their lengths. -/
def tolerance : R := Scalar.ratio 10 0x10000000000000

/-- The length of the hypotenuse, as a multiple of the longer leg. Squares of the legs themselves
may vanish where the length does not. -/
def hypotenuse (a b : R) : R :=
  let shorter := if Scalar.abs a < Scalar.abs b then Scalar.abs a else Scalar.abs b
  let longer := if Scalar.abs a < Scalar.abs b then Scalar.abs b else Scalar.abs a
  if Scalar.isZero longer then longer
  else
    let ratio := shorter / longer
    longer * Scalar.sqrt (1 + ratio * ratio)

/-- The cosine and sine of the angle by which two directions are turned to make their images
perpendicular, given twice the inner product of the images and the difference of their squares. -/
def turn (twice difference : R) : R × R :=
  let length := hypotenuse twice difference
  if difference < 0 then
    let s := Scalar.sqrt ((length - difference) * Scalar.ratio 1 2 / length)
    (twice / (length * s * (2 : Nat)), s)
  else
    let c := Scalar.sqrt ((length + difference) / (length * (2 : Nat)))
    (c, twice / (length * c * (2 : Nat)))

/-- Two directions turned so that their images are perpendicular, unless they are already. -/
def turned? (p q : Axis R) : Option (Axis R × Axis R) :=
  let product := p.image.dot q.image
  if Scalar.abs product ≤ tolerance * Scalar.sqrt (p.square * q.square) then none
  else
    let (c, s) := turn (product * (2 : Nat)) (p.square - q.square)
    let mix := fun (u v : Vec3 R) ↦ ((u.scale c).add (v.scale s), (u.scale (-s)).add (v.scale c))
    let (p1, q1) := mix p.source q.source
    let (p2, q2) := mix p.image q.image
    some (make p1 p2, make q1 q2)

end Axis

/-- Three directions with their images. -/
structure Axes (R : Type) where
  /-- One direction. -/
  p : Axis R
  /-- Another. -/
  q : Axis R
  /-- The third. -/
  r : Axis R

namespace Axes

/-- The directions of the coordinates, whose images are the columns of a matrix. -/
def ofMatrix (m : Mat3 R) : Axes R :=
  let t := m.transpose
  let i := Mat3.identity
  ⟨.make i.a t.a, .make i.b t.b, .make i.c t.c⟩

/-- Turns every two of the directions once. Tells whether any had to be turned. -/
def sweep (axes : Axes R) : Axes R × Bool :=
  let (axes, first) := match axes.p.turned? axes.q with
    | some (p, q) => ({ axes with p, q }, true)
    | none => (axes, false)
  let (axes, second) := match axes.p.turned? axes.r with
    | some (p, r) => ({ axes with p, r }, true)
    | none => (axes, false)
  let (axes, third) := match axes.q.turned? axes.r with
    | some (q, r) => ({ axes with q, r }, true)
    | none => (axes, false)
  (axes, first || second || third)

/-- Sweeps until nothing has to be turned, at most `fuel` times. -/
def settle : Nat → Axes R → Axes R
  | 0, axes => axes
  | fuel + 1, axes =>
    match axes.sweep with
    | (axes, true) => settle fuel axes
    | (axes, false) => axes

/-- The directions in the order of the lengths of their images, the longest first. -/
def sorted (axes : Axes R) : List (Axis R) :=
  let ⟨p, q, r⟩ := axes
  let length := fun (a : Axis R) ↦ a.image.norm
  let (p, q, r) :=
    if length p < length q then
      if length q < length r then (r, q, p) else (q, p, r)
    else if length p < length r then (r, q, p) else (p, q, r)
  if length q < length r then [p, r, q] else [p, q, r]

end Axes

/-! ## Directions without an image -/

/-- The next state of the sequence of signs. The state has two halves of 32 bits; the lower one is
multiplied by a constant and the upper one carried over. -/
def nextSignState (state : Nat) : Nat :=
  state % 0x100000000 * 4164903690 + state / 0x100000000

/-- A third with the sign of a state. -/
def signedThird (state : Nat) : R :=
  let third := Scalar.ratio 1 3
  if state / 0x100 % 2 = 1 then third else -third

/-- The state at which the sequence of signs starts. -/
def signSeed : Nat := 0x12345678

/-- The part of a vector that is perpendicular to unit vectors, scaled after each of them to a sum
of sizes of one. -/
def removeComponents (units : List (Vec3 R)) (v : Vec3 R) : Vec3 R :=
  units.foldl (fun v u ↦
    let v := v.sub (u.scale (v.dot u))
    let size := Scalar.abs v.x + Scalar.abs v.y + Scalar.abs v.z
    v.scale (if Axis.tolerance * (100 : Nat) < size then 1 / size else 0)) v

/-- The length below which an image has no direction. -/
def leastLength : R := Scalar.ratio 1 (Nat.pow 2 1022)

/-- A unit vector perpendicular to others, from the next signs, and the state after these. -/
def freshDirection (units : List (Vec3 R)) : Nat → Nat → Vec3 R × Nat
  | 0, state => (⟨0, 0, 0⟩, state)
  | fuel + 1, state =>
    let s1 := nextSignState state
    let s2 := nextSignState s1
    let s3 := nextSignState s2
    let v := removeComponents units (removeComponents units
      ⟨signedThird s1, signedThird s2, signedThird s3⟩)
    if leastLength < v.norm then (v.scale (1 / v.norm), s3) else freshDirection units fuel s3

/-- The directions of the images, in order, each of length one. -/
def unitImages : List (Axis R) → List (Vec3 R) → Nat → List (Vec3 R)
  | [], _, _ => []
  | axis :: rest, before, state =>
    let length := axis.image.norm
    if length ≤ leastLength then
      let (u, state) := freshDirection before 100 state
      u :: unitImages rest (before ++ [u]) state
    else
      let u := axis.image.scale (1 / length)
      u :: unitImages rest (before ++ [u]) state

/-- The orthogonal factor of a matrix: its directions go to unit vectors along their images. -/
def Mat3.orthogonalFactor (m : Mat3 R) : Mat3 R :=
  let axes := ((Axes.ofMatrix m).settle 30).sorted
  let units := unitImages axes [] signSeed
  let zero : Mat3 R := ⟨⟨0, 0, 0⟩, ⟨0, 0, 0⟩, ⟨0, 0, 0⟩⟩
  (List.zipWith (fun u (axis : Axis R) ↦ Mat3.outer u axis.source) units axes).foldl Mat3.add zero

end DampedLeastSquares
