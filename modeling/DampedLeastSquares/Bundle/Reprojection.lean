import DampedLeastSquares.Bundle.Basic
import DampedLeastSquares.Linear.Basic

/-!
# Residuals of a bundle

The residuals are the differences between where the cameras should see the points and where they saw
them, two for each observation. They are computed camera by camera: the observations of a camera are
picked out, their points are projected together, and the images are put back in their places. An
observation of a camera that is not there keeps the image at zero.

Picking and putting back are `selected` and `scatter`. Each observation belongs to at most one
camera, so no image is put anywhere twice.
-/

namespace DampedLeastSquares

/-! ## Masks -/

/-- The items that a mask keeps. -/
def selected {α : Type} : List Bool → List α → List α
  | true :: mask, x :: xs => x :: selected mask xs
  | false :: mask, _ :: xs => selected mask xs
  | _, _ => []

/-- The items with values put, in order, in the places that a mask keeps. -/
def scatter {α : Type} : List Bool → List α → List α → List α
  | true :: mask, v :: values, _ :: xs => v :: scatter mask values xs
  | false :: mask, values, x :: xs => x :: scatter mask values xs
  | _, _, xs => xs

@[simp] theorem length_scatter {α : Type} (mask : List Bool) (values xs : List α) :
    (scatter mask values xs).length = xs.length := by
  fun_induction scatter mask values xs <;> simp_all

/-- A mask must have an entry for each item. -/
def checkMask {α : Type} (mask : List Bool) (xs : List α) : Except Fault Unit :=
  if mask.length = xs.length then .ok () else .error (.maskLength xs.length mask.length)

variable {R : Type}

/-- The observations of a camera. -/
def Observations.ofCamera (o : Observations R) (label : Int) : List Bool :=
  o.cameras.map fun l ↦ l == label

/-- The point that an index means, counted from either end. -/
def pointAt (points : List (Vec3 R)) (index : Int) : Except Fault (Vec3 R) :=
  match (position? index points.length).bind (points[·]?) with
  | some p => .ok p
  | none => .error (.indexOutOfBounds index 0 points.length)

namespace Bundle

variable [CircularScalar R]

/-! ## Residuals -/

/-- The images of points in a camera with the given pose. -/
def project (intrinsics : Intrinsics R) (pose : PoseVector R) (points : List (Vec3 R)) :
    Except Fault (List (Pixel R)) :=
  match intrinsics.lens? with
  | some lens => .ok (points.map fun p ↦ lens.project (pose.view p))
  | none => .error .malformedGeometry

/-- The images with those of one camera put in their places. A camera that saw nothing is not looked
at. -/
def projectCamera (b : Bundle R) (p : Parameters R) (label : Int) (camera : Camera R)
    (images : List (Pixel R)) : Except Fault (List (Pixel R)) :=
  let mask := b.observations.ofCamera label
  match mask.any id, p.poses[b.cameras.labels.idxOf label]? with
  | true, some pose => do
    checkMask mask b.observations.points
    let points ← (selected mask b.observations.points).mapM (pointAt p.points)
    let own ← project camera.intrinsics pose points
    checkMask mask images
    return scatter mask own images
  | _, _ => .ok images

/-- The images of all observations. -/
def images (b : Bundle R) (p : Parameters R) : Except Fault (List (Pixel R)) :=
  b.cameras.entries.foldlM (fun images (label, camera) ↦ b.projectCamera p label camera images)
    (b.observations.images.map fun _ ↦ ⟨0, 0⟩)

/-- The difference of two positions in the image, as two numbers. -/
def difference (a b : Pixel R) : List R := [a.u - b.u, a.v - b.v]

/-- The residuals of the bundle if it had the given parameters. -/
def residualOf (b : Bundle R) (p : Parameters R) : Except Fault (List R) := do
  let images ← b.images p
  return (List.zipWith difference images b.observations.images).flatten

/-- The residuals of the bundle if it had the parameters of a vector. -/
def residual (b : Bundle R) (x : List R) : Except Fault (List R) := do
  b.residualOf (← Parameters.ofVector b.cameras.size x)

/-- The residuals of the bundle if it had the parameters of an array. -/
def residualOfTensor (b : Bundle R) (x : Tensor R) : Except Fault (List R) := do
  b.residualOf (← Parameters.ofTensor b.cameras.size x)

/-- The residuals where no vector is given. A missing vector has no axes along which it could be
divided. -/
def residualAt (b : Bundle R) : Option (List R) → Except Fault (List R)
  | some x => b.residual x
  | none => .error (.tooManyIndices 0 1)

/-! ## The size of the error -/

/-- How far the images are from where they should be. -/
structure Deviation (R : Type) where
  /-- Over all observations. -/
  overall : R
  /-- Over the observations of each camera that has some, by ascending labels. -/
  byCamera : List (Int × R)

/-- The lengths of the pairs of a list of residuals. -/
def distances : List R → List R
  | du :: dv :: rest => Linear.norm [du, dv] :: distances rest
  | _ => []

/-- The square root of the mean of the squares. Of nothing, it is undefined. -/
def rootMeanSquare (xs : List R) : R := Scalar.sqrt (Linear.mean (xs.map fun x ↦ x * x))

/-- How far the images of a bundle are from where they should be. -/
def deviation (b : Bundle R) : Except Fault (Deviation R) := do
  let residuals ← b.residualAt (← b.store)
  let lengths := distances residuals
  let seeing := b.cameras.labels.filter fun label ↦ (b.observations.ofCamera label).any id
  let byCamera ← seeing.mapM fun label ↦ do
    let mask := b.observations.ofCamera label
    checkMask mask lengths
    return (label, rootMeanSquare (selected mask lengths))
  return ⟨rootMeanSquare lengths, byCamera⟩

end Bundle

end DampedLeastSquares
