import DampedLeastSquares.Bundle.Labelled
import DampedLeastSquares.Bundle.Parameters
import DampedLeastSquares.Config.Number
import DampedLeastSquares.Geometry.Lens

/-!
# Bundles of rays

A bundle is what several cameras saw of a set of points: the cameras, the points, and for each
observation the camera, the point and the position in the image. The three lists of observations
come from the caller and are taken as they are; where they do not fit together, the computation
that notices says so.

Poses and points are what an adjustment moves. A bundle is therefore also a store for the vector of
its parameters: it gives the vector out, and takes another one in if it has the right size. Lenses
and observations stay as they are.
-/

namespace DampedLeastSquares

variable {R : Type}

/-- A camera. -/
structure Camera (R : Type) where
  /-- Its inside. -/
  intrinsics : Intrinsics R
  /-- Where it stands. -/
  pose : Pose R

/-- What was seen. The observation number `k` consists of the entries number `k`. -/
structure Observations (R : Type) where
  /-- The labels of the cameras. -/
  cameras : List Int
  /-- The positions in the images. -/
  images : List (Pixel R)
  /-- The numbers of the points. -/
  points : List Int
  /-- The format of the words in which the numbers of the points are given. -/
  words : WordFormat
  /-- Each of the numbers is an index for which there is a word. -/
  holds_points : ∀ index ∈ points, words.asIndex.Holds index

/-- The observations of the points with the given numbers. The numbers are words of the given format
and are read as indices. -/
def Observations.ofWords (words : WordFormat) (cameras : List Int) (images : List (Pixel R))
    (points : List Int) : Observations R where
  cameras := cameras
  images := images
  points := points.map words.asIndex.wrap
  words := words
  holds_points := fun _ hindex ↦ by
    obtain ⟨number, -, rfl⟩ := List.mem_map.mp hindex
    exact words.asIndex.holds_wrap number

/-- The positions whose coordinates stand one behind the other, if the entries divide into
positions. -/
def readPixels? : List R → Option (List (Pixel R))
  | [] => some []
  | u :: v :: rest => (readPixels? rest).map (⟨u, v⟩ :: ·)
  | _ => none

/-- The positions whose coordinates stand one behind the other. -/
def readPixels (entries : List R) : Except Fault (List (Pixel R)) :=
  match readPixels? entries with
  | some pixels => .ok pixels
  | none => .error (.cannotReshape entries.length [2])

/-- A label, or the number of a point, given as a number. Its fraction is dropped, and what is left
has to be a word. -/
def readLabel (words : WordFormat) (a : Number) : Except Fault Int := do
  words.encode (← a.truncate)

/-- Cameras, points, and what the cameras saw of the points. -/
structure Bundle (R : Type) where
  /-- The cameras. -/
  cameras : Labelled (Camera R)
  /-- The observations. -/
  observations : Observations R
  /-- The points. -/
  points : List (Vec3 R)

namespace Bundle

/-- The number of parameters. -/
def dimension (b : Bundle R) : Nat := 6 * b.cameras.size + 3 * b.points.length

/-- The number of residuals: two for each position in an image. -/
def conditions (b : Bundle R) : Nat := 2 * b.observations.images.length

variable [CircularScalar R]

/-- The six numbers of the pose of a camera. -/
def poseVector (c : Camera R) : Except Fault (PoseVector R) := do
  let entries ← c.pose.toVector
  match PoseVector.ofList? entries with
  | some v => return v
  | none => throw (.cannotFill [entries.length] [6])

/-- The parameters of a bundle. The poses are looked at in the order of the cameras. -/
def parameters (b : Bundle R) : Except Fault (Parameters R) := do
  let poses ← b.cameras.entries.mapM fun (label, camera) ↦
    (poseVector camera).map fun v ↦ (label, v)
  return ⟨(Labelled.sortByLabel poses).map Prod.snd, b.points⟩

/-- The vector of the parameters. Without cameras there is nothing to adjust and no vector. -/
def store (b : Bundle R) : Except Fault (Option (List R)) :=
  if b.cameras.size = 0 then .ok none else b.parameters.map fun p ↦ some p.toVector

/-- The bundle with other poses and points. A camera for which there is no pose stays where it
is. -/
def withParameters (b : Bundle R) (p : Parameters R) : Bundle R :=
  { b with
    cameras := b.cameras.map fun label camera ↦
      match p.poses[b.cameras.labels.idxOf label]? with
      | some v => { camera with pose := v.pose }
      | none => camera
    points := p.points }

/-- The bundle with the parameters of a vector. An array that is no vector, or a vector of another
size, is refused. -/
def restore (b : Bundle R) (vector : Tensor R) : Option (Bundle R) :=
  match vector.toList? with
  | some entries =>
    if entries.length = b.dimension then
      match Parameters.ofVector b.cameras.size entries with
      | .ok p => some (b.withParameters p)
      | .error _ => none
    else none
  | none => none

end Bundle

end DampedLeastSquares
