import DampedLeastSquares.Proofs.Bundle.SameResiduals
import DampedLeastSquares.Proofs.Geometry.Rotation

/-!
# What a store loses

A vector that is taken in is given out again, up to its rotations. Over the real numbers it is known
which rotations come back from their matrix, and so it is known which vectors a bundle gives back:
the ones all of whose rotations do. A vector with a rotation by a small angle is not among them, and
the rotation it gives back is none.

The residuals do not look at the vectors of rotations but at what the poses see. Where a rotation is
so small that it is taken for none they do not notice the loss.
-/

namespace DampedLeastSquares

/-! ## What the poses see -/

section views

variable {R : Type} [CircularScalar R] {b : Bundle R} {p q : Parameters R}

theorem Bundle.projectCamera_eq_of_views
    (hviews : q.poses.map PoseVector.view = p.poses.map PoseVector.view)
    (hpoints : q.points = p.points) (label : Int) (camera : Camera R) (images : List (Pixel R)) :
    b.projectCamera q label camera images = b.projectCamera p label camera images := by
  have hview : (q.poses[b.cameras.labels.idxOf label]?).map PoseVector.view
      = (p.poses[b.cameras.labels.idxOf label]?).map PoseVector.view := by
    rw [← List.getElem?_map, hviews, List.getElem?_map]
  rw [projectCamera, projectCamera, hpoints]
  cases hp : p.poses[b.cameras.labels.idxOf label]? with
  | none =>
    rw [hp, Option.map_none, Option.map_eq_none_iff] at hview
    rw [hview]
  | some pose =>
    rw [hp, Option.map_some, Option.map_eq_some_iff] at hview
    obtain ⟨pose', hq, hview⟩ := hview
    rw [hq]
    cases (b.observations.ofCamera label).any id with
    | false => rfl
    | true => simp only [isPointwise_project.congr hview]

/-- The residuals depend on poses only by what they see. -/
theorem Bundle.residualOf_eq_of_views
    (hviews : q.poses.map PoseVector.view = p.poses.map PoseVector.view)
    (hpoints : q.points = p.points) : b.residualOf q = b.residualOf p := by
  have hcamera : (fun images (entry : Int × Camera R) ↦
      b.projectCamera q entry.1 entry.2 images)
      = fun images (entry : Int × Camera R) ↦ b.projectCamera p entry.1 entry.2 images := by
    funext images entry
    exact projectCamera_eq_of_views hviews hpoints entry.1 entry.2 images
  rw [residualOf, residualOf, images, images]
  exact congrArg (fun f ↦ List.foldlM f _ b.cameras.entries >>= _) hcamera

end views

/-! ## There and back -/

/-- The vector of the rotation of the camera number `k`. -/
def rotationAt? {R : Type} (v : List R) (k : Nat) : Option (Vec3 R) :=
  Vec3.ofList? ((v.drop (6 * k)).take 3)

/-- All rotations of a vector for the given number of cameras are of a kind. -/
def EachRotation {R : Type} (cameras : Nat) (v : List R) (kind : Vec3 R → Prop) : Prop :=
  ∀ k < cameras, ∀ u, rotationAt? v k = some u → kind u

section

variable {R : Type} {p : Parameters R}

theorem rotationAt?_toVector {k : Nat} {pose : PoseVector R} (h : p.poses[k]? = some pose) :
    rotationAt? p.toVector k = some pose.turn := by
  have htake : ((p.toVector.drop (6 * k)).take 6).take 3 = (p.toVector.drop (6 * k)).take 3 :=
    List.take_take ..
  rw [rotationAt?, ← htake, p.take_drop_toVector h]
  rfl

theorem eachRotation_toVector {kind : Vec3 R → Prop} :
    EachRotation p.poses.length p.toVector kind ↔ ∀ pose ∈ p.poses, kind pose.turn := by
  constructor
  · intro h pose hpose
    obtain ⟨k, hk⟩ := List.mem_iff_getElem?.mp hpose
    exact h k (List.getElem?_eq_some_iff.mp hk).1 _ (rotationAt?_toVector hk)
  · intro h k hk u hu
    have hpose := List.getElem?_eq_getElem hk
    rw [rotationAt?_toVector hpose, Option.some.injEq] at hu
    exact hu ▸ h _ (List.mem_of_getElem? hpose)

end

theorem toVector_reread_eq_iff {p : Parameters ℝ}
    (hless : ∀ pose ∈ p.poses, pose.turn.norm < Real.pi) :
    (Parameters.mk (p.poses.map PoseVector.reread) p.points).toVector = p.toVector ↔
      ∀ pose ∈ p.poses, Rotation.ComesBack pose.turn := by
  have hpose : ∀ pose ∈ p.poses, pose.reread = pose ↔ Rotation.ComesBack pose.turn := by
    intro pose hmem
    rw [← (Rotation.isConversion.givenBack (hless pose hmem)).same_iff]
    constructor
    · exact fun h ↦ congrArg PoseVector.turn h
    · intro h
      rw [PoseVector.reread, h]
  constructor
  · intro heq pose hmem
    -- The parameters can be read off their vector, so equal vectors have equal poses.
    have hread := Parameters.ofVector_toVector ⟨p.poses.map PoseVector.reread, p.points⟩
    rw [heq, List.length_map, p.ofVector_toVector] at hread
    have hposes : p.poses = p.poses.map PoseVector.reread :=
      congrArg Parameters.poses (Except.ok.inj hread)
    exact (hpose pose hmem).mp
      (List.map_eq_map_iff.mp (hposes.symm.trans p.poses.map_id.symm) _ hmem)
  · intro h
    rw [List.map_congr_left fun pose hmem ↦ (hpose pose hmem).mpr (h pose hmem), List.map_id']

/-- A pose sees the same when its rotation has come back, and also when it is taken for none. -/
theorem view_reread {pose : PoseVector ℝ} (hless : pose.turn.norm < Real.pi)
    (h : Rotation.ComesBack pose.turn ∨ pose.turn.norm < Rotation.leastAngle) :
    pose.reread.view = pose.view := by
  have hmatrix : Rotation.ofVector pose.reread.turn = Rotation.ofVector pose.turn := by
    rcases h with h | h
    · exact congrArg Rotation.ofVector ((Rotation.isConversion.givenBack hless).same_iff.mpr h)
    · exact Rotation.isConversion.unnoticed h
  funext point
  rw [PoseVector.view, hmatrix]
  rfl

namespace Bundle

theorem isRegular_withParameters {R : Type} [CircularScalar R] (b : Bundle R) {p : Parameters R}
    (hlength : p.poses.length = b.cameras.size) : (b.withParameters p).IsRegular := by
  intro entry hentry
  obtain ⟨old, hold, rfl⟩ := List.mem_map.mp hentry
  have hrank : b.cameras.labels.idxOf old.1 < p.poses.length := by
    rw [hlength, ← Labelled.length_labels]
    exact List.idxOf_lt_length_of_mem (mem_labels_of_mem_entries hold)
  dsimp only
  rw [List.getElem?_eq_getElem hrank]
  exact Pose.isRegular_pose _

variable {b : Bundle ℝ}

/-- **What a bundle gives back.** A bundle with cameras takes in every vector of its size. If all
rotations are by less than half a turn, it gives back the same vector just if all of them come back.
Shifts and points are the same in any case, a small rotation that does not come back is given back
as none, and a large one keeps its angle. The residuals at the vector given back are those at the
vector taken in, if besides the rotations that come back there are only such as are taken for none.
-/
theorem exists_store_restore (hsome : b.cameras.size ≠ 0) {v : List ℝ}
    (hlength : v.length = b.dimension)
    (hless : EachRotation b.cameras.size v fun u ↦ u.norm < Real.pi) :
    ∃ b' w, b.restore (.ofList v) = some b' ∧ b'.store = .ok (some w) ∧
      Reread b.cameras.size v w ∧
      (w = v ↔ EachRotation b.cameras.size v Rotation.ComesBack) ∧
      (∀ k < b.cameras.size, ∀ u, rotationAt? v k = some u →
        ∃ u', rotationAt? w k = some u' ∧ Rotation.GivenBack u u') ∧
      (EachRotation b.cameras.size v
        (fun u ↦ Rotation.ComesBack u ∨ u.norm < Rotation.leastAngle) →
          b'.residual w = b.residual v) := by
  obtain ⟨p, hp⟩ := Parameters.exists_ofVector hlength
  have hsize := (Parameters.laidOut_of_ofVector hp).length_poses
  have hrestore : b.restore (.ofList v) = some (b.withParameters p) :=
    restore_eq_some_iff.mpr ⟨v, p, rfl, hlength, hp, rfl⟩
  have hrig := sameRig_of_restore hrestore
  have hstore := (b.isRegular_withParameters hsize).store (hrig.size ▸ hsome)
  rw [b.numbers_withParameters hsize] at hstore
  have hreread := reread_toVector p
  obtain rfl := Parameters.toVector_of_ofVector hp
  rw [← hsize] at hless ⊢
  have hposes := eachRotation_toVector.mp hless
  refine ⟨_, _, hrestore, hstore, hreread, ?_, ?_, fun hseen ↦ ?_⟩
  · rw [toVector_reread_eq_iff hposes, eachRotation_toVector]
  · intro k hk u hu
    have hlt := hless k hk u hu
    have hpose := List.getElem?_eq_getElem hk
    have hpose' : (p.poses.map PoseVector.reread)[k]? = some p.poses[k].reread := by
      rw [List.getElem?_map, hpose, Option.map_some]
    rw [rotationAt?_toVector hpose, Option.some.injEq] at hu
    refine ⟨_, rotationAt?_toVector (p := ⟨p.poses.map PoseVector.reread, p.points⟩) hpose', ?_⟩
    rw [PoseVector.reread, hu]
    exact Rotation.isConversion.givenBack hlt
  · -- At the vector given back the residuals are those of poses that were read again.
    have hviews : (p.poses.map PoseVector.reread).map PoseVector.view
        = p.poses.map PoseVector.view := by
      rw [List.map_map]
      exact List.map_congr_left fun pose hmem ↦
        view_reread (hposes pose hmem) (eachRotation_toVector.mp hseen pose hmem)
    have hread := Parameters.ofVector_toVector ⟨p.poses.map PoseVector.reread, p.points⟩
    rw [List.length_map, hsize] at hread
    rw [hrig.residual, residual_of_ofVector hread, residual_of_ofVector hp]
    exact residualOf_eq_of_views hviews rfl

/-- Two cameras at the origin that are turned about the first axis, and two points. -/
def turned (first second : ℝ) : List ℝ :=
  [first, 0, 0, 0, 0, 0, second, 0, 0, 0, 0, 0, 0, 0, 0, 0, 0, 0]

/-- A turn by a millionth is lost, and a quarter turn is given back. -/
theorem exists_store_restore_twoViews :
    ∃ b' w, twoViews.restore (.ofList (turned (1 / 1000000) (Real.pi / 2))) = some b' ∧
      b'.store = .ok (some w) ∧ w ≠ turned (1 / 1000000) (Real.pi / 2) ∧
      rotationAt? w 0 = some ⟨0, 0, 0⟩ ∧ rotationAt? w 1 = some ⟨Real.pi / 2, 0, 0⟩ := by
  have hnorm : ∀ {a : ℝ}, 0 ≤ a → (⟨a, 0, 0⟩ : Vec3 ℝ).norm = a := by
    intro a ha
    rw [Vec3.norm_eq, Vec3.dot_eq, mul_zero, add_zero, add_zero, Real.sqrt_mul_self ha]
  have hpi := Real.two_le_pi
  have hsmall := hnorm (a := 1 / 1000000) (by norm_num)
  have hlarge := hnorm (a := Real.pi / 2) (by linarith)
  have hless : EachRotation twoViews.cameras.size (turned (1 / 1000000) (Real.pi / 2))
      fun u ↦ u.norm < Real.pi := by
    intro k hk u hu
    obtain rfl | rfl : k = 0 ∨ k = 1 := by
      have : k < 2 := hk
      omega
    · obtain rfl := Option.some.inj hu
      linarith
    · obtain rfl := Option.some.inj hu
      linarith
  obtain ⟨b', w, hrestore, hstore, -, -, hback, -⟩ :=
    exists_store_restore (b := twoViews) (by decide) rfl hless
  obtain ⟨u, hu, hgiven⟩ := hback 0 (by decide) _ rfl
  obtain ⟨u', hu', hgiven'⟩ := hback 1 (by decide) _ rfl
  have hlost : u = ⟨0, 0, 0⟩ := by
    refine hgiven.small ?_ ?_
    · rw [hsmall, Rotation.leastSine, Scalar.ratio_eq]
      refine (Real.sin_le (by norm_num)).trans_lt ?_
      norm_num
    · rw [hsmall]
      linarith
  have hkept : u' = ⟨Real.pi / 2, 0, 0⟩ := by
    refine hgiven'.same_iff.mpr (.clear ?_)
    rw [hlarge, Real.sin_pi_div_two]
    linarith [Rotation.leastSine_lt]
  refine ⟨b', w, hrestore, hstore, ?_, hlost ▸ hu, hkept ▸ hu'⟩
  rintro rfl
  have hx : (1 / 1000000 : ℝ) = 0 := congrArg Vec3.x ((Option.some.inj hu).trans hlost)
  norm_num at hx

end Bundle

end DampedLeastSquares
