import DampedLeastSquares.Bundle.Reprojection
import DampedLeastSquares.Proofs.Bundle.Parameters
import DampedLeastSquares.Proofs.Jacobian.Distribution

/-!
# One observation at a time

The residuals of a bundle are computed camera by camera: what a camera saw is picked out of all
observations, projected together, and put back in between the rest. Seen from a single observation
none of this shows. Its two residuals come from the image of its own point in its own camera, or
from zero if there is no such camera, and the other observations have no part in them.

The one thing that can go wrong, as long as the points are there, is that a camera has no lens. Then
there are no residuals at all, whatever the parameters, unless the camera saw nothing.
-/

namespace DampedLeastSquares

/-! ## Labels -/

namespace Labelled

variable {α : Type}

theorem mem_labels {xs : Labelled α} {label : Int} :
    label ∈ xs.labels ↔ label ∈ xs.entries.map Prod.fst := by
  rw [labels, sorted, sortByLabel]
  exact (List.mergeSort_perm _ _).map Prod.fst |>.mem_iff

theorem lookup_eq_none {entries : List (Int × α)} {label : Int}
    (h : label ∉ entries.map Prod.fst) : entries.lookup label = none := by
  refine List.lookup_eq_none_iff.mpr fun entry hentry ↦ bne_iff_ne.mpr ?_
  rintro rfl
  exact h (List.mem_map_of_mem hentry)

theorem exists_get? {xs : Labelled α} {label : Int} (h : label ∈ xs.labels) :
    ∃ a, xs.get? label = some a := by
  obtain ⟨entry, hentry, rfl⟩ := List.mem_map.mp (mem_labels.mp h)
  refine Option.ne_none_iff_exists'.mp fun hnone ↦ ?_
  exact bne_iff_ne.mp (List.lookup_eq_none_iff.mp hnone entry hentry) rfl

theorem mem_labels_of_get? {xs : Labelled α} {label : Int} {a : α} (h : xs.get? label = some a) :
    label ∈ xs.labels := by
  by_contra hnot
  exact nomatch (lookup_eq_none (mt mem_labels.mpr hnot)).symm.trans h

theorem get?_map {β : Type} (f : Int → α → β) (xs : Labelled α) (label : Int) :
    (xs.map f).get? label = (xs.get? label).map (f label) := by
  have hlookup : ∀ entries : List (Int × α),
      (entries.map fun entry ↦ (entry.1, f entry.1 entry.2)).lookup label
        = (entries.lookup label).map (f label) := by
    intro entries
    induction entries with
    | nil => rfl
    | cons entry entries ih =>
      rw [List.map_cons, List.lookup_cons, List.lookup_cons]
      by_cases heq : label = entry.1
      · rw [heq, beq_self_eq_true]
        rfl
      · rw [beq_false_of_ne heq]
        exact ih
  exact hlookup xs.entries

end Labelled

/-! ## Picking out and putting back -/

theorem getElem?_scatter_selected {α β : Type} {mask : List Bool} {items : List β} {xs : List α}
    (hitems : mask.length = items.length) (hxs : mask.length = xs.length) (g : β → α) (k : Nat) :
    (scatter mask ((selected mask items).map g) xs)[k]?
      = if mask[k]? = some true then items[k]?.map g else xs[k]? := by
  induction mask generalizing items xs k with
  | nil => rfl
  | cons kept mask ih =>
    obtain ⟨item, items, rfl⟩ := List.exists_cons_of_length_eq_add_one hitems.symm
    obtain ⟨x, xs, rfl⟩ := List.exists_cons_of_length_eq_add_one hxs.symm
    have hrest := fun k ↦ ih (Nat.succ.inj hitems) (Nat.succ.inj hxs) k
    cases kept with
    | true => cases k with
      | zero => rfl
      | succ k => exact hrest k
    | false => cases k with
      | zero => rfl
      | succ k => exact hrest k

theorem mem_of_mem_selected {α : Type} {mask : List Bool} {items : List α} {a : α}
    (h : a ∈ selected mask items) : a ∈ items := by
  fun_induction selected mask items with
  | case1 mask x items ih =>
    rcases List.mem_cons.mp h with rfl | h
    · exact List.mem_cons_self
    · exact List.mem_cons_of_mem x (ih h)
  | case2 mask x items ih => exact List.mem_cons_of_mem x (ih h)
  | case3 => exact nomatch h

theorem getElem?_ofCamera {R : Type} (o : Observations R) {label l : Int} {k : Nat}
    (h : o.cameras[k]? = some l) : (o.ofCamera label)[k]? = some true ↔ l = label := by
  rw [Observations.ofCamera, List.getElem?_map, h, Option.map_some, Option.some.injEq, beq_iff_eq]

theorem any_ofCamera {R : Type} (o : Observations R) (label : Int) :
    (o.ofCamera label).any id = true ↔ label ∈ o.cameras := by
  rw [Observations.ofCamera, List.any_map, List.any_eq_true]
  constructor
  · rintro ⟨l, hl, heq⟩
    exact beq_iff_eq.mp heq ▸ hl
  · exact fun h ↦ ⟨label, h, beq_self_eq_true label⟩

namespace Bundle

variable {R : Type}

/-! ## One camera -/

/-- There are as many entries of each kind for the observations, a pose for each camera, and all the
points that were seen. -/
structure Covered (b : Bundle R) (p : Parameters R) : Prop where
  /-- Each observation has a camera. -/
  cameras : b.observations.cameras.length = b.observations.images.length
  /-- Each observation has a point. -/
  points : b.observations.points.length = b.observations.images.length
  /-- Each camera has a pose. -/
  pose : p.poses.length = b.cameras.size
  /-- The point of each observation is there. -/
  point : ∀ index ∈ b.observations.points, ∃ point, pointAt p.points index = .ok point

variable {b : Bundle R} {p : Parameters R} {label : Int}

theorem Covered.exists_pose (h : b.Covered p) (hlabel : label ∈ b.cameras.labels) :
    ∃ pose, p.poses[b.cameras.labels.idxOf label]? = some pose := by
  have hlt := List.idxOf_lt_length_iff.mpr hlabel
  rw [Labelled.length_labels, ← h.pose] at hlt
  exact ⟨_, List.getElem?_eq_getElem hlt⟩

theorem mem_labels_of_mem_entries {entry : Int × Camera R} (h : entry ∈ b.cameras.entries) :
    entry.1 ∈ b.cameras.labels := Labelled.mem_labels.mpr (List.mem_map_of_mem h)

variable [CircularScalar R] {camera : Camera R}

/-- What is asked of a projection of several points: that it looks at each of them by itself, and at
the pose only for where the point is seen from there. -/
structure IsPointwise
    (project : Intrinsics R → PoseVector R → List (Vec3 R) → Except Fault (List (Pixel R))) :
    Prop where
  /-- Each point has the image that the lens makes of it. -/
  eq_map : ∀ {intrinsics : Intrinsics R} {lens : Lens R}, intrinsics.lens? = some lens →
    ∀ (pose : PoseVector R) (points : List (Vec3 R)),
      project intrinsics pose points = .ok (points.map fun p ↦ lens.project (pose.view p))
  /-- Without a lens there are no images. -/
  eq_error : ∀ {intrinsics : Intrinsics R}, intrinsics.lens? = none →
    ∀ (pose : PoseVector R) (points : List (Vec3 R)),
      project intrinsics pose points = .error .malformedGeometry

theorem isPointwise_project : IsPointwise (project (R := R)) where
  eq_map h pose points := by rw [project, h]
  eq_error h pose points := by rw [project, h]

theorem IsPointwise.congr
    {project : Intrinsics R → PoseVector R → List (Vec3 R) → Except Fault (List (Pixel R))}
    (h : IsPointwise project) {pose pose' : PoseVector R} (hview : pose'.view = pose.view)
    (intrinsics : Intrinsics R) (points : List (Vec3 R)) :
    project intrinsics pose' points = project intrinsics pose points := by
  cases hlens : intrinsics.lens? with
  | none => rw [h.eq_error hlens, h.eq_error hlens]
  | some lens => rw [h.eq_map hlens, h.eq_map hlens, hview]

/-- The image of a point in a camera, if the camera has a lens and a pose and the point is there. -/
def seen? (b : Bundle R) (p : Parameters R) (label : Int) (camera : Camera R) (index : Int) :
    Option (Pixel R) :=
  match camera.intrinsics.lens?, p.poses[b.cameras.labels.idxOf label]?, pointAt p.points index with
  | some lens, some pose, .ok point => some (lens.project (pose.view point))
  | _, _, _ => none

/-- A camera puts its images in the places of its own observations and nowhere else. -/
theorem exists_projectCamera (h : b.Covered p) (hlabel : label ∈ b.cameras.labels)
    (hlens : label ∈ b.observations.cameras → ∃ lens, camera.intrinsics.lens? = some lens)
    {images : List (Pixel R)} (himages : images.length = b.observations.images.length) :
    ∃ images' : List (Pixel R), b.projectCamera p label camera images = .ok images' ∧
      images'.length = b.observations.images.length ∧
      ∀ (k : Nat) (l index : Int), b.observations.cameras[k]? = some l →
        b.observations.points[k]? = some index →
        images'[k]? = if l = label then b.seen? p label camera index else images[k]? := by
  by_cases hsees : label ∈ b.observations.cameras
  · obtain ⟨lens, hlens⟩ := hlens hsees
    obtain ⟨pose, hpose⟩ := h.exists_pose hlabel
    have : Nonempty (Vec3 R) := ⟨⟨0, 0, 0⟩⟩
    choose! point hpoint using h.point
    have hmask : (b.observations.ofCamera label).length = b.observations.images.length := by
      rw [Observations.ofCamera, List.length_map, h.cameras]
    have hown : (selected (b.observations.ofCamera label) b.observations.points).mapM
        (pointAt p.points) = .ok
          ((selected (b.observations.ofCamera label) b.observations.points).map point) :=
      Jacobian.mapM_eq_ok_map fun index hindex ↦ hpoint index (mem_of_mem_selected hindex)
    have hany := (any_ofCamera b.observations label).mpr hsees
    refine ⟨scatter (b.observations.ofCamera label)
      ((selected (b.observations.ofCamera label) b.observations.points).map
        fun index ↦ lens.project (pose.view (point index))) images, ?_, ?_, ?_⟩
    · simp only [projectCamera, hany, hpose, checkMask, if_pos (hmask.trans h.points.symm), bind,
        Except.bind, hown, isPointwise_project.eq_map hlens, if_pos (hmask.trans himages.symm),
        pure, Except.pure, List.map_map]
      rfl
    · rw [length_scatter, himages]
    · intro k l index hl hindex
      rw [getElem?_scatter_selected (hmask.trans h.points.symm) (hmask.trans himages.symm),
        hindex, Option.map_some]
      simp only [getElem?_ofCamera b.observations hl, seen?, hlens, hpose,
        hpoint index (List.mem_of_getElem? hindex)]
  · have hany : (b.observations.ofCamera label).any id = false :=
      Bool.eq_false_iff.mpr fun hany ↦ hsees ((any_ofCamera b.observations label).mp hany)
    refine ⟨images, by simp only [projectCamera, hany], himages, fun k l index hl _ ↦ ?_⟩
    have hne : l ≠ label := by
      rintro rfl
      exact hsees (List.mem_of_getElem? hl)
    rw [if_neg hne]

theorem projectCamera_of_lens?_eq_none (h : b.Covered p) (hlabel : label ∈ b.cameras.labels)
    (hsees : label ∈ b.observations.cameras) (hlens : camera.intrinsics.lens? = none)
    (images : List (Pixel R)) :
    b.projectCamera p label camera images = .error .malformedGeometry := by
  obtain ⟨pose, hpose⟩ := h.exists_pose hlabel
  have hmask : (b.observations.ofCamera label).length = b.observations.points.length := by
    rw [Observations.ofCamera, List.length_map, h.cameras, h.points]
  obtain ⟨own, hown⟩ : ∃ own, (selected (b.observations.ofCamera label)
      b.observations.points).mapM (pointAt p.points) = .ok own :=
    Jacobian.exists_mapM_eq_ok fun index hindex ↦ h.point index (mem_of_mem_selected hindex)
  simp only [projectCamera, (any_ofCamera b.observations label).mpr hsees, hpose, checkMask,
    if_pos hmask, bind, Except.bind, hown, isPointwise_project.eq_error hlens]

/-! ## All cameras -/

/-- Every camera that saw something has a lens. -/
def HasLenses (b : Bundle R) (entries : List (Int × Camera R)) : Prop :=
  ∀ entry ∈ entries, entry.1 ∈ b.observations.cameras →
    ∃ lens, entry.2.intrinsics.lens? = some lens

theorem exists_foldlM_projectCamera (h : b.Covered p) {entries : List (Int × Camera R)}
    (hnodup : (entries.map Prod.fst).Nodup)
    (hlabels : ∀ entry ∈ entries, entry.1 ∈ b.cameras.labels) (hlens : b.HasLenses entries)
    {images : List (Pixel R)} (himages : images.length = b.observations.images.length) :
    ∃ images' : List (Pixel R),
      entries.foldlM (fun images entry ↦ b.projectCamera p entry.1 entry.2 images) images
        = .ok images' ∧
      images'.length = b.observations.images.length ∧
      ∀ (k : Nat) (l index : Int), b.observations.cameras[k]? = some l →
        b.observations.points[k]? = some index →
        images'[k]? = match entries.lookup l with
          | some camera => b.seen? p l camera index
          | none => images[k]? := by
  induction entries generalizing images with
  | nil => exact ⟨images, rfl, himages, fun k l index _ _ ↦ rfl⟩
  | cons entry entries ih =>
    obtain ⟨label, camera⟩ := entry
    rw [List.map_cons, List.nodup_cons] at hnodup
    obtain ⟨first, hfirst, hlength, hplaces⟩ := exists_projectCamera h
      (hlabels _ List.mem_cons_self) (hlens _ List.mem_cons_self) himages
    dsimp only at hnodup hfirst hplaces
    obtain ⟨images', hrest, hlength', hplaces'⟩ := ih hnodup.2
      (fun other hother ↦ hlabels other (List.mem_cons_of_mem _ hother))
      (fun other hother ↦ hlens other (List.mem_cons_of_mem _ hother)) hlength
    refine ⟨images', ?_, hlength', fun k l index hl hindex ↦ ?_⟩
    · rw [List.foldlM_cons, hfirst]
      exact hrest
    · rw [hplaces' k l index hl hindex, hplaces k l index hl hindex, List.lookup_cons]
      -- No later camera has the label of this one.
      by_cases heq : l = label
      · rw [heq, Labelled.lookup_eq_none hnodup.1, if_pos rfl, beq_self_eq_true]
      · rw [if_neg heq, beq_false_of_ne heq]

/-- One camera without a lens is enough for a fault, if it saw something. -/
theorem foldlM_projectCamera_of_not_hasLenses (h : b.Covered p)
    {entries : List (Int × Camera R)} (hlabels : ∀ entry ∈ entries, entry.1 ∈ b.cameras.labels)
    (hlens : ¬b.HasLenses entries)
    {images : List (Pixel R)} (himages : images.length = b.observations.images.length) :
    entries.foldlM (fun images entry ↦ b.projectCamera p entry.1 entry.2 images) images
      = .error .malformedGeometry := by
  induction entries generalizing images with
  | nil => exact absurd (fun entry hentry ↦ nomatch hentry) hlens
  | cons entry entries ih =>
    have hlabel := hlabels entry List.mem_cons_self
    have hlabels' : ∀ other ∈ entries, other.1 ∈ b.cameras.labels :=
      fun other hother ↦ hlabels other (List.mem_cons_of_mem _ hother)
    rw [List.foldlM_cons]
    by_cases hfirst : b.HasLenses [entry]
    · have hrest : ¬b.HasLenses entries := by
        intro hrest
        refine hlens fun other hother ↦ ?_
        rcases List.mem_cons.mp hother with rfl | hother
        · exact hfirst other List.mem_cons_self
        · exact hrest other hother
      obtain ⟨first, hproject, hlength, -⟩ :=
        exists_projectCamera h hlabel (hfirst entry List.mem_cons_self) himages
      rw [hproject]
      exact ih hlabels' hrest hlength
    · have hsees : entry.1 ∈ b.observations.cameras ∧ entry.2.intrinsics.lens? = none := by
        by_contra hcontra
        refine hfirst fun other hother hsees ↦ ?_
        obtain rfl := List.mem_singleton.mp hother
        exact Option.ne_none_iff_exists'.mp fun hnone ↦ hcontra ⟨hsees, hnone⟩
      rw [projectCamera_of_lens?_eq_none h hlabel hsees.1 hsees.2]
      rfl

/-- Where an observation should be in its image. Without a camera it is at zero. -/
def imageOf? (b : Bundle R) (p : Parameters R) (label index : Int) : Option (Pixel R) :=
  match b.cameras.get? label with
  | some camera => b.seen? p label camera index
  | none => some ⟨0, 0⟩

/-- **Each observation has its own image**, and the others have no part in it. -/
theorem exists_images (h : b.Covered p) (hlens : b.HasLenses b.cameras.entries) :
    ∃ images : List (Pixel R), b.images p = .ok images ∧
      images.length = b.observations.images.length ∧
      ∀ (k : Nat) (label index : Int), b.observations.cameras[k]? = some label →
        b.observations.points[k]? = some index → images[k]? = b.imageOf? p label index := by
  have hblank : (b.observations.images.map fun _ ↦ (⟨0, 0⟩ : Pixel R)).length
      = b.observations.images.length := List.length_map _
  obtain ⟨images, hfold, hlength, hplaces⟩ := exists_foldlM_projectCamera h b.cameras.nodup
    (fun _ ↦ mem_labels_of_mem_entries) hlens hblank
  refine ⟨images, hfold, hlength, fun k label index hlabel hindex ↦ ?_⟩
  have hk : k < b.observations.images.length := by
    rw [← h.cameras]
    exact (List.getElem?_eq_some_iff.mp hlabel).1
  rw [hplaces k label index hlabel hindex, List.getElem?_map, List.getElem?_eq_getElem hk]
  rfl

theorem length_flatten_difference {images observed : List (Pixel R)}
    (hlength : images.length = observed.length) :
    (List.zipWith difference images observed).flatten.length = 2 * observed.length := by
  induction observed generalizing images with
  | nil => rw [List.zipWith_nil_right]; rfl
  | cons first observed ih =>
    obtain ⟨i, images, rfl⟩ := List.exists_cons_of_length_eq_add_one hlength
    exact congrArg (· + 2) (ih (Nat.succ.inj hlength))

theorem getElem?_flatten_difference {images observed : List (Pixel R)}
    (hlength : images.length = observed.length) {k : Nat} {o : Pixel R}
    (ho : observed[k]? = some o) :
    (List.zipWith difference images observed).flatten[2 * k]?
        = images[k]?.map (fun i ↦ i.u - o.u) ∧
      (List.zipWith difference images observed).flatten[2 * k + 1]?
        = images[k]?.map (fun i ↦ i.v - o.v) := by
  induction observed generalizing images k with
  | nil => exact nomatch ho
  | cons first observed ih =>
    obtain ⟨i, images, rfl⟩ := List.exists_cons_of_length_eq_add_one hlength
    cases k with
    | zero =>
      obtain rfl := Option.some.inj ho
      exact ⟨rfl, rfl⟩
    | succ k => exact ih (Nat.succ.inj hlength) ho

/-- **Each observation has its own residuals**: how far its image is from where it was seen. -/
theorem exists_residualOf (h : b.Covered p) (hlens : b.HasLenses b.cameras.entries) :
    ∃ y : List R, b.residualOf p = .ok y ∧ y.length = 2 * b.observations.images.length ∧
      ∀ (k : Nat) (label index : Int) (o : Pixel R), b.observations.cameras[k]? = some label →
        b.observations.points[k]? = some index → b.observations.images[k]? = some o →
        y[2 * k]? = (b.imageOf? p label index).map (fun i ↦ i.u - o.u) ∧
        y[2 * k + 1]? = (b.imageOf? p label index).map (fun i ↦ i.v - o.v) := by
  obtain ⟨images, himages, hlength, hplaces⟩ := exists_images h hlens
  refine ⟨_, by rw [residualOf, himages]; rfl, ?_, fun k label index o hlabel hindex ho ↦ ?_⟩
  · exact length_flatten_difference hlength
  · rw [← hplaces k label index hlabel hindex]
    exact getElem?_flatten_difference hlength ho

theorem residualOf_of_not_hasLenses (h : b.Covered p) (hlens : ¬b.HasLenses b.cameras.entries) :
    b.residualOf p = .error .malformedGeometry := by
  have himages : b.images p = .error .malformedGeometry :=
    foldlM_projectCamera_of_not_hasLenses h (fun _ ↦ mem_labels_of_mem_entries) hlens
      (List.length_map _)
  rw [residualOf, himages]
  rfl

end Bundle

end DampedLeastSquares
