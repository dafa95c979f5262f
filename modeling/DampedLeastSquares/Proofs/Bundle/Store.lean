import DampedLeastSquares.Proofs.Bundle.Sparsity

/-!
# Bundles as stores

A bundle gives out its parameters as one vector and takes such a vector in. Giving out goes by the
order in which the cameras came up, and then sorts by labels; taking in goes by the ranks of the
labels, and by cutting the vector. Here the two are shown to have one layout in common: six numbers
for each camera by ascending labels, three for each point behind them.

What is given out after a vector was taken in is this vector again, up to the vectors of rotations,
which have been matrices in between. Where these come back unchanged is not a matter of the store.
-/

namespace DampedLeastSquares

/-! ## Sorting by labels -/

namespace Labelled

variable {α β : Type}

theorem perm_sortByLabel (entries : List (Int × α)) : (sortByLabel entries).Perm entries :=
  List.mergeSort_perm _ _

theorem pairwise_sortByLabel (entries : List (Int × α)) :
    (sortByLabel entries).Pairwise fun a b ↦ a.1 ≤ b.1 := by
  have hsorted := @List.pairwise_mergeSort _ (fun a b : Int × α ↦ decide (a.1 ≤ b.1))
    (fun a b c hab hbc ↦ decide_eq_true ((of_decide_eq_true hab).trans (of_decide_eq_true hbc)))
    (fun a b ↦ by simpa using Int.le_total a.1 b.1) entries
  exact hsorted.imp of_decide_eq_true

/-- Distinct labels can be sorted in one way only. -/
theorem sortByLabel_eq_of_perm {entries entries' : List (Int × α)} (h : entries.Perm entries')
    (hnodup : (entries.map Prod.fst).Nodup) : sortByLabel entries = sortByLabel entries' := by
  have hperm : (sortByLabel entries).Perm (sortByLabel entries') :=
    (perm_sortByLabel entries).trans (h.trans (perm_sortByLabel entries').symm)
  refine hperm.eq_of_pairwise ?_ (pairwise_sortByLabel entries) (pairwise_sortByLabel entries')
  intro a b ha hb hab hba
  have ha' : a ∈ entries := (perm_sortByLabel entries).mem_iff.mp ha
  have hb' : b ∈ entries := h.mem_iff.mpr ((perm_sortByLabel entries').mem_iff.mp hb)
  exact List.inj_on_of_nodup_map hnodup ha' hb' (Int.le_antisymm hab hba)

theorem sorted_map (f : Int → α → β) (xs : Labelled α) :
    (xs.map f).sorted = xs.sorted.map fun entry ↦ (entry.1, f entry.1 entry.2) := by
  have hmap := @List.map_mergeSort _ _ (fun a b : Int × α ↦ decide (a.1 ≤ b.1))
    (fun a b : Int × β ↦ decide (a.1 ≤ b.1)) (fun entry ↦ (entry.1, f entry.1 entry.2)) xs.entries
    fun _ _ _ _ ↦ rfl
  exact hmap.symm

@[simp] theorem labels_map (f : Int → α → β) (xs : Labelled α) : (xs.map f).labels = xs.labels := by
  rw [labels, sorted_map, List.map_map]
  rfl

theorem ranks_map (f : Int → α → β) (xs : Labelled α) : (xs.map f).ranks = xs.ranks := by
  simp only [ranks, labels_map]
  simp only [map, List.map_map, Function.comp_def]

theorem nodup_labels (xs : Labelled α) : xs.labels.Nodup :=
  ((perm_sortByLabel xs.entries).map Prod.fst).nodup_iff.mpr xs.nodup

theorem pairwise_labels (xs : Labelled α) : xs.labels.Pairwise (· < ·) := by
  have hle : xs.labels.Pairwise (· ≤ ·) := List.pairwise_map.mpr (pairwise_sortByLabel xs.entries)
  exact (hle.and xs.nodup_labels).imp fun ⟨hle, hne⟩ ↦ lt_of_le_of_ne hle hne

theorem idxOf_label {xs : Labelled α} {k : Nat} {label : Int} (h : xs.labels[k]? = some label) :
    xs.labels.idxOf label = k := by
  obtain ⟨hk, rfl⟩ := List.getElem?_eq_some_iff.mp h
  exact xs.nodup_labels.idxOf_getElem k hk

theorem get?_of_mem {xs : Labelled α} {entry : Int × α} (h : entry ∈ xs.entries) :
    xs.get? entry.1 = some entry.2 := by
  obtain ⟨a, ha⟩ := exists_get? (mem_labels.mpr (List.mem_map_of_mem h))
  obtain ⟨before, after, heq, -⟩ := List.lookup_eq_some_iff.mp ha
  have hmem : (entry.1, a) ∈ xs.entries := heq ▸ List.mem_append_right _ List.mem_cons_self
  rw [ha, (Prod.mk.inj (List.inj_on_of_nodup_map xs.nodup hmem h rfl)).2]

theorem exists_sorted_of_labels {xs : Labelled α} {k : Nat} {label : Int}
    (h : xs.labels[k]? = some label) : ∃ a, xs.sorted[k]? = some (label, a) ∧ xs.get? label = some a
    := by
  rw [labels, List.getElem?_map, Option.map_eq_some_iff] at h
  obtain ⟨⟨l, a⟩, hentry, rfl⟩ := h
  exact ⟨a, hentry, get?_of_mem
    ((perm_sortByLabel xs.entries).mem_iff.mp (List.mem_of_getElem? hentry))⟩

end Labelled

/-! ## The layout -/

section

variable {R : Type}

theorem Vec3.exists_toList : ∀ {l : List R}, l.length = 3 → ∃ v : Vec3 R, v.toList = l
  | [x, y, z], _ => ⟨⟨x, y, z⟩, rfl⟩

theorem Mat3.exists_toList : ∀ {l : List R}, l.length = 9 → ∃ m : Mat3 R, m.toList = l
  | [xx, xy, xz, yx, yy, yz, zx, zy, zz], _ =>
    ⟨⟨⟨xx, xy, xz⟩, ⟨yx, yy, yz⟩, ⟨zx, zy, zz⟩⟩, rfl⟩

theorem Vec3.toList_of_ofList? {l : List R} {v : Vec3 R} (h : ofList? l = some v) :
    v.toList = l := by
  rw [ofList?.eq_def] at h
  split at h
  · rw [← Option.some.inj h]
    rfl
  · exact nomatch h

theorem PoseVector.toList_of_ofList? {l : List R} {v : PoseVector R} (h : ofList? l = some v) :
    v.toList = l := by
  rw [ofList?.eq_def] at h
  split at h
  · rw [← Option.some.inj h]
    rfl
  · exact nomatch h

namespace Parameters

theorem laidOut_toVector (p : Parameters R) : p.LaidOut p.poses.length p.toVector :=
  laidOut_of_ofVector p.ofVector_toVector

theorem take_drop_toVector (p : Parameters R) {k : Nat} {v : PoseVector R}
    (h : p.poses[k]? = some v) : (p.toVector.drop (6 * k)).take 6 = v.toList := by
  have hk := (List.getElem?_eq_some_iff.mp h).1
  rw [p.laidOut_toVector.pose k hk] at h
  exact (PoseVector.toList_of_ofList? h).symm

theorem take_drop_toVector_point (p : Parameters R) {j : Nat} {v : Vec3 R}
    (h : p.points[j]? = some v) :
    (p.toVector.drop (6 * p.poses.length + 3 * j)).take 3 = v.toList := by
  rw [p.laidOut_toVector.point j] at h
  exact (Vec3.toList_of_ofList? h).symm

theorem length_flatMap_toList (poses : List (PoseVector R)) :
    (poses.flatMap PoseVector.toList).length = 6 * poses.length := by
  rw [List.length_flatMap, List.sum_eq_card_nsmul _ 6 (by simp), List.length_map, smul_eq_mul,
    Nat.mul_comm]

theorem drop_toVector (p : Parameters R) :
    p.toVector.drop (6 * p.poses.length) = p.points.flatMap Vec3.toList :=
  List.drop_left' (length_flatMap_toList p.poses)

end Parameters

theorem PoseVector.toList_of_takeMany? {n : Nat} {v rest : List R} {poses : List (PoseVector R)}
    (h : takeMany? n v = some (poses, rest)) : poses.flatMap toList ++ rest = v := by
  fun_induction takeMany? n v generalizing poses with
  | case1 v =>
    obtain ⟨rfl, rfl⟩ := Prod.mk.inj (Option.some.inj h)
    rfl
  | case2 n a b c x y z v ih =>
    obtain ⟨⟨poses', rest'⟩, htake, heq⟩ := Option.map_eq_some_iff.mp h
    obtain ⟨rfl, rfl⟩ := Prod.mk.inj heq
    rw [List.flatMap_cons, List.append_assoc, ih htake]
    rfl
  | case3 => cases h

theorem Parameters.toList_of_readPoints? {v : List R} {points : List (Vec3 R)}
    (h : readPoints? v = some points) : points.flatMap Vec3.toList = v := by
  fun_induction readPoints? v generalizing points with
  | case1 =>
    obtain rfl := Option.some.inj h
    rfl
  | case2 x y z v ih =>
    obtain ⟨points', hpoints', rfl⟩ := Option.map_eq_some_iff.mp h
    rw [List.flatMap_cons, ih hpoints']
    rfl
  | case3 => cases h

theorem Parameters.toVector_of_ofVector {cameras : Nat} {v : List R} {p : Parameters R}
    (h : ofVector cameras v = .ok p) : p.toVector = v := by
  rw [ofVector] at h
  cases htake : PoseVector.takeMany? cameras v with
  | none =>
    rw [htake] at h
    cases h
  | some read =>
    obtain ⟨poses, rest⟩ := read
    simp only [htake, readPoints] at h
    cases hread : readPoints? rest with
    | none =>
      rw [hread] at h
      cases h
    | some points =>
      rw [hread] at h
      obtain rfl := Except.ok.inj h
      rw [toVector, toList_of_readPoints? hread, PoseVector.toList_of_takeMany? htake]

end

variable {R : Type} [CircularScalar R]

/-! ## Poses -/

/-- The pose of a camera as callers are asked to give it: a matrix of three rows of three entries,
and three entries for the shift. -/
structure Pose.IsRegular (p : Pose R) : Prop where
  /-- The turn is a matrix. -/
  rotation : p.rotation.shape = [3, 3]
  /-- The shift is a vector. -/
  shift : p.shift.shape = [3]

/-- The six numbers of a pose: the vector of its matrix, and the entries of its shift. What is
missing is replaced by zeros. -/
def Pose.numbers (p : Pose R) : PoseVector R :=
  ⟨((Mat3.ofTensor? p.rotation).map Rotation.toVector).getD ⟨0, 0, 0⟩,
    (Vec3.ofList? p.shift.entries).getD ⟨0, 0, 0⟩⟩

/-- The six numbers of a pose made of six numbers. -/
def PoseVector.reread (v : PoseVector R) : PoseVector R :=
  ⟨Rotation.toVector (Rotation.ofVector v.turn), v.shift⟩

namespace Pose

variable {p : Pose R}

omit [CircularScalar R] in
theorem IsRegular.exists_matrix (h : p.IsRegular) : ∃ m, Mat3.ofTensor? p.rotation = some m := by
  obtain ⟨⟨shape, entries, hentries⟩, shift⟩ := p
  obtain rfl : shape = [3, 3] := h.rotation
  obtain ⟨m, rfl⟩ := Mat3.exists_toList hentries
  exact ⟨m, rfl⟩

omit [CircularScalar R] in
theorem IsRegular.exists_shift (h : p.IsRegular) : ∃ t : Vec3 R, p.shift.entries = t.toList := by
  obtain ⟨rotation, shape, entries, hentries⟩ := p
  obtain rfl : shape = [3] := h.shift
  obtain ⟨t, rfl⟩ := Vec3.exists_toList hentries
  exact ⟨t, rfl⟩

theorem IsRegular.toList_numbers (h : p.IsRegular) {m : Mat3 R}
    (hm : Mat3.ofTensor? p.rotation = some m) :
    p.numbers.toList = (Rotation.toVector m).toList ++ p.shift.entries := by
  obtain ⟨t, ht⟩ := h.exists_shift
  rw [numbers, hm, ht]
  rfl

theorem IsRegular.toVector (h : p.IsRegular) : p.toVector = .ok p.numbers.toList := by
  obtain ⟨m, hm⟩ := h.exists_matrix
  have hrank : p.shift.rank ≤ 1 := by rw [Tensor.rank, h.shift, List.length_singleton]
  rw [h.toList_numbers hm, Pose.toVector, Rotation.columnOf, hm]
  simp only [bind, Except.bind, pure, Except.pure, if_pos hrank]

theorem isRegular_pose (v : PoseVector R) : v.pose.IsRegular := ⟨rfl, rfl⟩

theorem numbers_pose (v : PoseVector R) : v.pose.numbers = v.reread := rfl

end Pose

/-! ## What is given out -/

namespace Bundle

/-- All poses are as callers are asked to give them. -/
def IsRegular (b : Bundle R) : Prop := ∀ entry ∈ b.cameras.entries, entry.2.pose.IsRegular

/-- The numbers of all poses by ascending labels, and the points. -/
def numbers (b : Bundle R) : Parameters R :=
  ⟨b.cameras.sorted.map fun entry ↦ entry.2.pose.numbers, b.points⟩

variable {b b' c : Bundle R}

@[simp] theorem length_poses_numbers (b : Bundle R) :
    b.numbers.poses.length = b.cameras.size := by
  rw [numbers, List.length_map, Labelled.sorted, (Labelled.perm_sortByLabel _).length_eq]
  rfl

theorem IsRegular.parameters (h : b.IsRegular) : b.parameters = .ok b.numbers := by
  rw [Bundle.parameters,
    Jacobian.mapM_eq_ok_map (g := fun entry ↦ (entry.1, entry.2.pose.numbers)) ?poses]
  case poses =>
    intro entry hentry
    simp only [poseVector, (h entry hentry).toVector, bind, Except.bind, PoseVector.ofList?_toList,
      pure, Except.pure, Except.map]
  change Except.ok (Parameters.mk
    ((b.cameras.map fun _ camera ↦ camera.pose.numbers).sorted.map Prod.snd) b.points) = _
  rw [Labelled.sorted_map, List.map_map]
  rfl

theorem IsRegular.store (h : b.IsRegular) (hsome : b.cameras.size ≠ 0) :
    b.store = .ok (some b.numbers.toVector) := by
  rw [Bundle.store, if_neg hsome, h.parameters]
  rfl

/-- Where the parameters of a bundle stand in a vector. -/
structure Layout (b : Bundle R) (v : List R) : Prop where
  /-- There is a number for each parameter. -/
  length : v.length = b.dimension
  /-- The labels ascend. -/
  ascending : b.cameras.labels.Pairwise (· < ·)
  /-- Each camera has six numbers in the place of its label: the vector of its matrix, and its
  shift. -/
  camera : ∀ k label, b.cameras.labels[k]? = some label → ∃ camera m,
    b.cameras.get? label = some camera ∧ Mat3.ofTensor? camera.pose.rotation = some m ∧
      (v.drop (6 * k)).take 6 = (Rotation.toVector m).toList ++ camera.pose.shift.entries
  /-- Each point has three numbers behind those of all cameras. -/
  point : ∀ j (p : Vec3 R), b.points[j]? = some p →
    (v.drop (6 * b.cameras.size + 3 * j)).take 3 = p.toList

theorem IsRegular.layout (h : b.IsRegular) : b.Layout b.numbers.toVector where
  length := by rw [b.numbers.laidOut_toVector.length, length_poses_numbers]; rfl
  ascending := b.cameras.pairwise_labels
  camera k label hlabel := by
    obtain ⟨camera, hcamera, hget⟩ := Labelled.exists_sorted_of_labels hlabel
    have hregular : camera.pose.IsRegular := h (label, camera)
      ((Labelled.perm_sortByLabel _).mem_iff.mp (List.mem_of_getElem? hcamera))
    obtain ⟨m, hm⟩ := hregular.exists_matrix
    have hpose : b.numbers.poses[k]? = some camera.pose.numbers := by
      rw [numbers, List.getElem?_map, hcamera]
      rfl
    refine ⟨camera, m, hget, hm, ?_⟩
    rw [b.numbers.take_drop_toVector hpose, hregular.toList_numbers hm]
  point j p hp := by
    rw [← length_poses_numbers]
    exact b.numbers.take_drop_toVector_point hp

/-! ## What is taken in -/

/-- Poses that are taken in are given out again, up to the vectors of their rotations. -/
theorem numbers_withParameters (b : Bundle R) {p : Parameters R}
    (hlength : p.poses.length = b.cameras.size) :
    (b.withParameters p).numbers = ⟨p.poses.map PoseVector.reread, p.points⟩ := by
  rw [numbers, withParameters, Labelled.sorted_map, List.map_map]
  congr 1
  refine List.ext_getElem? fun k ↦ ?_
  rw [List.getElem?_map, List.getElem?_map]
  by_cases hk : k < b.cameras.size
  · -- The label in this place has its rank here, so the pose is the one that was read here.
    obtain ⟨label, hlabel⟩ : ∃ label, b.cameras.labels[k]? = some label :=
      ⟨_, List.getElem?_eq_getElem (by rwa [Labelled.length_labels])⟩
    obtain ⟨v, hv⟩ : ∃ v, p.poses[k]? = some v := ⟨_, List.getElem?_eq_getElem (by rwa [hlength])⟩
    obtain ⟨camera, hcamera, -⟩ := Labelled.exists_sorted_of_labels hlabel
    rw [hcamera, hv, Option.map_some, Option.map_some, Function.comp_apply,
      Labelled.idxOf_label hlabel, hv]
    exact congrArg some (Pose.numbers_pose v)
  · have hsorted : b.cameras.sorted.length = b.cameras.size :=
      (Labelled.perm_sortByLabel _).length_eq
    rw [List.getElem?_eq_none (by omega), List.getElem?_eq_none (by omega)]
    rfl

theorem IsRegular.withParameters (h : b.IsRegular) (p : Parameters R) :
    (b.withParameters p).IsRegular := by
  intro entry hentry
  obtain ⟨old, hold, rfl⟩ := List.mem_map.mp hentry
  dsimp only
  split
  next v _ => exact Pose.isRegular_pose v
  · exact h old hold

/-- What a bundle keeps when it takes in a vector. -/
structure SameRig (b b' : Bundle R) : Prop where
  /-- The labels are the same. -/
  labels : b'.cameras.labels = b.cameras.labels
  /-- The ranks of the labels are the same. -/
  ranks : b'.cameras.ranks = b.cameras.ranks
  /-- Each camera has the same inside. -/
  intrinsics : ∀ label, (b'.cameras.get? label).map Camera.intrinsics
    = (b.cameras.get? label).map Camera.intrinsics
  /-- What was seen is the same. -/
  observations : b'.observations = b.observations
  /-- The number of parameters is the same. -/
  dimension : b'.dimension = b.dimension

omit [CircularScalar R] in
theorem SameRig.refl (b : Bundle R) : b.SameRig b := ⟨rfl, rfl, fun _ ↦ rfl, rfl, rfl⟩

omit [CircularScalar R] in
theorem SameRig.trans (h : b.SameRig b') (h' : b'.SameRig c) : b.SameRig c where
  labels := h'.labels.trans h.labels
  ranks := h'.ranks.trans h.ranks
  intrinsics label := (h'.intrinsics label).trans (h.intrinsics label)
  observations := h'.observations.trans h.observations
  dimension := h'.dimension.trans h.dimension

omit [CircularScalar R] in
theorem SameRig.size (h : b.SameRig b') : b'.cameras.size = b.cameras.size := by
  rw [← Labelled.length_labels, h.labels, Labelled.length_labels]

theorem sameRig_withParameters (b : Bundle R) {p : Parameters R}
    (hpoints : p.points.length = b.points.length) : b.SameRig (b.withParameters p) where
  labels := Labelled.labels_map _ _
  ranks := Labelled.ranks_map _ _
  intrinsics label := by
    rw [withParameters, Labelled.get?_map, Option.map_map]
    congr 1
    funext camera
    rw [Function.comp_apply]
    split <;> rfl
  observations := rfl
  dimension := by rw [dimension, withParameters, Labelled.size_map, hpoints, dimension]

/-- A bundle that took in a vector has the same rig. -/
theorem sameRig_of_restore {t : Tensor R} (h : b.restore t = some b') : b.SameRig b' := by
  obtain ⟨v, p, -, hlength, hp, rfl⟩ := restore_eq_some_iff.mp h
  have hpoints := (Parameters.laidOut_of_ofVector hp).length
  rw [hlength, dimension] at hpoints
  exact b.sameRig_withParameters (by omega)

/-- A vector as it is given out after it was taken in. -/
structure Reread (cameras : Nat) (v w : List R) : Prop where
  /-- It has the same length. -/
  length : w.length = v.length
  /-- The vector of each rotation is that of its matrix. -/
  turn : ∀ k < cameras, ∃ u : Vec3 R, (v.drop (6 * k)).take 3 = u.toList ∧
    (w.drop (6 * k)).take 3 = (Rotation.toVector (Rotation.ofVector u)).toList
  /-- Each shift is the same. -/
  shift : ∀ k < cameras, (w.drop (6 * k + 3)).take 3 = (v.drop (6 * k + 3)).take 3
  /-- All points are the same. -/
  points : w.drop (6 * cameras) = v.drop (6 * cameras)

theorem reread_toVector (p : Parameters R) :
    Reread p.poses.length p.toVector
      (Parameters.mk (p.poses.map PoseVector.reread) p.points).toVector := by
  generalize hq : Parameters.mk (p.poses.map PoseVector.reread) p.points = q
  have hlength : q.poses.length = p.poses.length := by rw [← hq, List.length_map]
  have hpoints : q.points = p.points := by rw [← hq]
  have hpose : ∀ k < p.poses.length, ∃ u : PoseVector R,
      (p.toVector.drop (6 * k)).take 6 = u.toList ∧
      (q.toVector.drop (6 * k)).take 6 = u.reread.toList := by
    intro k hk
    refine ⟨p.poses[k], p.take_drop_toVector (List.getElem?_eq_getElem hk),
      q.take_drop_toVector ?_⟩
    rw [← hq, List.getElem?_map, List.getElem?_eq_getElem hk]
    rfl
  have hturn : ∀ v : List R, (v.take 6).take 3 = v.take 3 := fun v ↦ List.take_take ..
  have hshift : ∀ (v : List R) k,
      (v.drop (6 * k + 3)).take 3 = (((v.drop (6 * k)).take 6).drop 3) := by
    intro v k
    rw [List.drop_take, List.drop_drop]
  refine ⟨?_, fun k hk ↦ ?_, fun k hk ↦ ?_, ?_⟩
  · rw [q.laidOut_toVector.length, p.laidOut_toVector.length, hlength, hpoints]
  · obtain ⟨u, hu, hu'⟩ := hpose k hk
    refine ⟨u.turn, ?_, ?_⟩
    · rw [← hturn, hu]
      rfl
    · rw [← hturn, hu']
      rfl
  · obtain ⟨u, hu, hu'⟩ := hpose k hk
    rw [hshift, hshift, hu, hu']
    rfl
  · rw [p.drop_toVector, ← hlength, q.drop_toVector, hpoints]

/-! ## One restoration after another -/

/-- The bundle after one array after another was offered to it. One that is refused changes
nothing. -/
def restoreAll (b : Bundle R) (arrays : List (Tensor R)) : Bundle R :=
  arrays.foldl (fun b t ↦ (b.restore t).getD b) b

/-- The cameras of two bundles are the same in another order, and the points are the same. -/
structure Reordered (b c : Bundle R) : Prop where
  /-- The cameras are the same in another order. -/
  cameras : c.cameras.entries.Perm b.cameras.entries
  /-- The points are the same. -/
  points : c.points = b.points

omit [CircularScalar R] in
theorem Reordered.size (h : b.Reordered c) : c.cameras.size = b.cameras.size := h.cameras.length_eq

/-- Bundles with the same cameras give out the same. -/
theorem Reordered.store (h : b.Reordered c) (hregular : b.IsRegular)
    (hsome : b.cameras.size ≠ 0) : c.store = b.store := by
  have hregular' : c.IsRegular := fun entry hentry ↦ hregular entry (h.cameras.mem_iff.mp hentry)
  have hnumbers : c.numbers = b.numbers := by
    rw [numbers, numbers, Labelled.sorted, Labelled.sorted,
      Labelled.sortByLabel_eq_of_perm h.cameras c.cameras.nodup, h.points]
  rw [hregular'.store (h.size ▸ hsome), hregular.store hsome, hnumbers]

/-- Bundles with the same cameras take in the same. -/
theorem Reordered.restore (h : b.Reordered c) (t : Tensor R) :
    ((b.restore t).getD b).Reordered ((c.restore t).getD c) := by
  have hsize := h.size
  have hdimension : c.dimension = b.dimension := by rw [dimension, dimension, hsize, h.points]
  cases hb : b.restore t with
  | none =>
    have hc : c.restore t = none := by
      rw [restore_eq_none_iff, hdimension]
      exact restore_eq_none_iff.mp hb
    rw [hc]
    exact h
  | some b' =>
    obtain ⟨v, p, hv, hlength, hp, rfl⟩ := restore_eq_some_iff.mp hb
    have hc : c.restore t = some (c.withParameters p) :=
      restore_eq_some_iff.mpr ⟨v, p, hv, hdimension ▸ hlength, hsize ▸ hp, rfl⟩
    have hlabels : c.cameras.labels = b.cameras.labels := by
      rw [Labelled.labels, Labelled.labels, Labelled.sorted, Labelled.sorted,
        Labelled.sortByLabel_eq_of_perm h.cameras c.cameras.nodup]
    rw [hc]
    refine ⟨?_, rfl⟩
    simp only [Option.getD_some, withParameters, hlabels]
    exact h.cameras.map _

theorem Reordered.restoreAll (h : b.Reordered c) (arrays : List (Tensor R)) :
    (b.restoreAll arrays).Reordered (c.restoreAll arrays) := by
  induction arrays generalizing b c with
  | nil => exact h
  | cons t arrays ih => exact ih (h.restore t)

theorem IsRegular.restore (h : b.IsRegular) (t : Tensor R) :
    ((b.restore t).getD b).IsRegular ∧ b.SameRig ((b.restore t).getD b) := by
  cases hb : b.restore t with
  | none => exact ⟨h, .refl b⟩
  | some b' =>
    have hrig := sameRig_of_restore hb
    obtain ⟨v, p, -, -, -, rfl⟩ := restore_eq_some_iff.mp hb
    exact ⟨h.withParameters p, hrig⟩

theorem IsRegular.restoreAll (h : b.IsRegular) (arrays : List (Tensor R)) :
    (b.restoreAll arrays).IsRegular ∧ b.SameRig (b.restoreAll arrays) := by
  induction arrays generalizing b with
  | nil => exact ⟨h, .refl b⟩
  | cons t arrays ih =>
    obtain ⟨hregular, hrig⟩ := h.restore t
    obtain ⟨hregular', hrig'⟩ := ih hregular
    exact ⟨hregular', hrig.trans hrig'⟩

/-- **A bundle is a store for one vector.** With regular poses and at least one camera, and after
whatever was offered to it, it gives out a vector that has a number for each parameter in its place,
and it is the same vector for every order of the cameras. It takes in the vectors of that length and
no other array. Then it gives back what it took in, up to the vectors of rotations, and nothing but
poses and points has changed. -/
theorem stores_of_restoreAll (hregular : b.IsRegular) (hsome : b.cameras.size ≠ 0)
    {arrays : List (Tensor R)} (hb' : b.restoreAll arrays = b') :
    b.SameRig b' ∧ (∃ v, b'.store = .ok (some v) ∧ b'.Layout v) ∧
    (∀ c, b.Reordered c → (c.restoreAll arrays).store = b'.store) ∧
    (∀ t v, t.toList? = some v → v.length = b.dimension → ∃ b'' w, b'.restore t = some b'' ∧
      b'.SameRig b'' ∧ b''.store = .ok (some w) ∧ Reread b.cameras.size v w) ∧
    ∀ t : Tensor R, (∀ v, t.toList? = some v → v.length ≠ b.dimension) → b'.restore t = none := by
  obtain ⟨hregular', hrig⟩ := hregular.restoreAll arrays
  rw [hb'] at hregular' hrig
  have hsome' : b'.cameras.size ≠ 0 := hrig.size ▸ hsome
  refine ⟨hrig, ⟨_, hregular'.store hsome', hregular'.layout⟩, ?_, ?_, ?_⟩
  · intro c hc
    have hc' := hc.restoreAll arrays
    rw [hb'] at hc'
    exact hc'.store hregular' hsome'
  · intro t v hv hlength
    rw [← hrig.dimension] at hlength
    obtain ⟨p, hp⟩ := Parameters.exists_ofVector hlength
    have hrestore := restore_eq_some_iff.mpr ⟨v, p, hv, hlength, hp, rfl⟩
    have hlaid := Parameters.laidOut_of_ofVector hp
    have hpoints := hlaid.length
    rw [hlength, dimension] at hpoints
    have hrig' := b'.sameRig_withParameters (p := p) (by omega)
    have hstore := (hregular'.withParameters p).store (hrig'.size ▸ hsome')
    rw [b'.numbers_withParameters hlaid.length_poses] at hstore
    refine ⟨_, _, hrestore, hrig', hstore, ?_⟩
    have hreread := reread_toVector p
    rwa [hlaid.length_poses, hrig.size, Parameters.toVector_of_ofVector hp] at hreread
  · intro t ht
    rwa [restore_eq_none_iff, hrig.dimension]

/-- A bundle of two cameras is offered a vector and something that is none. It takes the vector, and
gives out the same in either order of the cameras. What it gives out it also takes in. -/
theorem stores_of_restoreAll_twoViews :
    ∃ b' v, twoViews.restoreAll [.ofList (List.replicate 18 0), .scalar 0] = b' ∧
      b'.store = .ok (some v) ∧ v.length = 18 ∧ b'.cameras.labels = [3, 7] ∧
      ({ twoViews with cameras := ⟨[(3, pinhole), (7, pinhole)], by decide⟩ }.restoreAll
        [.ofList (List.replicate 18 0), .scalar 0]).store = .ok (some v) ∧
      b'.restore (.scalar 0) = none ∧
      ∃ b'' w, b'.restore (.ofList v) = some b'' ∧ b''.store = .ok (some w) ∧ Reread 2 v w := by
  have hregular : twoViews.IsRegular := by
    intro entry hentry
    fin_cases hentry <;> exact ⟨rfl, rfl⟩
  obtain ⟨hrig, ⟨v, hv, hlayout⟩, hreordered, hrestored, hrefused⟩ :=
    stores_of_restoreAll hregular (by decide)
      (rfl : twoViews.restoreAll [.ofList (List.replicate 18 0), .scalar 0] = _)
  have hlength : v.length = 18 := hlayout.length.trans hrig.dimension
  obtain ⟨b'', w, hb'', -, hw, hreread⟩ := hrestored (.ofList v) v rfl hlength
  refine ⟨_, v, rfl, hv, hlength, hrig.labels.trans labels_twoViews, ?_, hrefused _ nofun, b'', w,
    hb'', hw, hreread⟩
  rw [← hv]
  exact hreordered _ ⟨List.Perm.swap .., rfl⟩

end Bundle

end DampedLeastSquares
