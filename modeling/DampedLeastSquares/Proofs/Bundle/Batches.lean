import DampedLeastSquares.Proofs.Bundle.AdjustmentSession
import DampedLeastSquares.Proofs.Bundle.Answering

/-!
# Batches of observations

What a camera saw is projected in one batch: its observations are picked out of all, and their
images are put back in between the others. `Bundle.residualsOf` computes the two residuals of an
observation by itself. It looks its camera up by the label, takes six numbers and three numbers out
of the vector, and never meets another observation. The main statement is that a bundle has these
residuals, one pair behind the other, and where it has none it has the fault of the first
observation that has none by itself.

In this form the residuals know nothing of batches any more. In what order the cameras came up has
no bearing on them, and where the observations stand in another order, so do their residuals.

The place of a camera in the vector is the number of cameras with smaller labels. An observation of
a camera that is not there has its image at zero.
-/

namespace DampedLeastSquares

/-! ## The place of a label -/

namespace Labelled

variable {α : Type}

/-- How many labels are below a label. -/
def countBelow (xs : Labelled α) (label : Int) : Nat :=
  (xs.entries.map Prod.fst).countP fun l ↦ decide (l < label)

theorem idxOf_eq_countP {labels : List Int} (hascending : labels.Pairwise (· < ·)) {label : Int}
    (h : label ∈ labels) : labels.idxOf label = labels.countP fun l ↦ decide (l < label) := by
  induction labels with
  | nil => exact nomatch h
  | cons first labels ih =>
    obtain ⟨hfirst, hrest⟩ := List.pairwise_cons.mp hascending
    by_cases heq : first = label
    · have hnone : (labels.countP fun l ↦ decide (l < first)) = 0 :=
        List.countP_eq_zero.mpr fun l hl ↦ by simpa using (hfirst l hl).le
      rw [← heq, List.idxOf_cons_self, List.countP_cons, hnone, if_neg (by simp)]
    · have hlater : label ∈ labels := (List.mem_cons.mp h).resolve_left (Ne.symm heq)
      rw [List.idxOf_cons_ne _ heq, ih hrest hlater, List.countP_cons,
        if_pos (decide_eq_true (hfirst label hlater))]

theorem idxOf_labels {xs : Labelled α} {label : Int} (h : label ∈ xs.labels) :
    xs.labels.idxOf label = xs.countBelow label := by
  rw [idxOf_eq_countP xs.pairwise_labels h]
  exact ((perm_sortByLabel xs.entries).map Prod.fst).countP_eq _

section

variable {xs ys : Labelled α} (h : ys.entries.Perm xs.entries)

include h

theorem get?_of_perm (label : Int) : ys.get? label = xs.get? label := by
  cases hget : xs.get? label with
  | none =>
    have hnot : label ∉ xs.labels := fun hlabel ↦ by
      obtain ⟨a, ha⟩ := exists_get? hlabel
      exact nomatch hget.symm.trans ha
    refine lookup_eq_none fun hmem ↦ hnot (mem_labels.mpr ?_)
    exact (h.map Prod.fst).mem_iff.mp hmem
  | some a =>
    obtain ⟨before, after, heq, -⟩ := List.lookup_eq_some_iff.mp hget
    have hmem : (label, a) ∈ xs.entries := heq ▸ List.mem_append_right _ List.mem_cons_self
    exact get?_of_mem (h.mem_iff.mpr hmem)

theorem countBelow_of_perm (label : Int) : ys.countBelow label = xs.countBelow label :=
  (h.map Prod.fst).countP_eq _

end

end Labelled

/-! ## Observations -/

/-- One observation. -/
structure Observation (R : Type) where
  /-- The label of the camera. -/
  camera : Int
  /-- The position in the image. -/
  image : Pixel R
  /-- The number of the point. -/
  point : Int

namespace Observations

variable {R : Type}

/-- The observations one by one. -/
def toList (o : Observations R) : List (Observation R) :=
  List.zipWith (fun camera seen ↦ ⟨camera, seen.1, seen.2⟩) o.cameras (o.images.zip o.points)

/-- The observations whose numbers are listed, in the order of the list. -/
def pick (o : Observations R) (order : List Nat) : Observations R where
  cameras := order.filterMap (o.cameras[·]?)
  images := order.filterMap (o.images[·]?)
  points := order.filterMap (o.points[·]?)
  words := o.words
  holds_points := fun index hindex ↦ by
    obtain ⟨k, -, hk⟩ := List.mem_filterMap.mp hindex
    exact o.holds_points index (List.mem_of_getElem? hk)

variable {o : Observations R} {order : List Nat}

theorem Matched.length_toList (h : o.Matched) : o.toList.length = o.images.length := by
  rw [toList, List.length_zipWith, List.length_zip, h.cameras, h.points, Nat.min_self, Nat.min_self]

theorem getElem?_toList {k : Nat} {s : Observation R} : o.toList[k]? = some s ↔
    o.cameras[k]? = some s.camera ∧ o.images[k]? = some s.image ∧ o.points[k]? = some s.point := by
  rw [toList, List.getElem?_zipWith_eq_some]
  constructor
  · rintro ⟨camera, ⟨image, point⟩, hcamera, hseen, rfl⟩
    exact ⟨hcamera, List.getElem?_zip_eq_some.mp hseen⟩
  · rintro ⟨hcamera, hseen⟩
    exact ⟨s.camera, (s.image, s.point), hcamera, List.getElem?_zip_eq_some.mpr hseen, rfl⟩

theorem Matched.toList_pick (h : o.Matched) (order : List Nat) :
    (o.pick order).toList = order.filterMap (o.toList[·]?) := by
  induction order with
  | nil => rfl
  | cons k order ih =>
    rcases Nat.lt_or_ge k o.images.length with hk | hk
    · have hcamera := List.getElem?_eq_getElem (h.cameras.symm ▸ hk)
      have himage := List.getElem?_eq_getElem hk
      have hpoint := List.getElem?_eq_getElem (h.points.symm ▸ hk)
      have hitem : o.toList[k]? = some ⟨_, _, _⟩ := getElem?_toList.mpr ⟨hcamera, himage, hpoint⟩
      rw [List.filterMap_cons_some hitem, ← ih]
      simp only [toList, pick]
      rw [List.filterMap_cons_some hcamera, List.filterMap_cons_some himage,
        List.filterMap_cons_some hpoint]
      rfl
    · have hcamera : o.cameras[k]? = none := List.getElem?_eq_none (h.cameras ▸ hk)
      have himage : o.images[k]? = none := List.getElem?_eq_none hk
      have hpoint : o.points[k]? = none := List.getElem?_eq_none (h.points ▸ hk)
      have hitem : o.toList[k]? = none := List.getElem?_eq_none (h.length_toList ▸ hk)
      rw [List.filterMap_cons_none hitem, ← ih]
      simp only [toList, pick]
      rw [List.filterMap_cons_none hcamera, List.filterMap_cons_none himage,
        List.filterMap_cons_none hpoint]

theorem Matched.pick (h : o.Matched) (horder : ∀ k ∈ order, k < o.images.length) :
    (o.pick order).Matched ∧ (o.pick order).images.length = order.length := by
  have hlength : ∀ {α : Type} (l : List α), l.length = o.images.length →
      (order.filterMap (l[·]?)).length = order.length := by
    intro α l hl
    refine List.filterMap_length_eq_length.mpr fun k hk ↦ ?_
    rw [List.getElem?_eq_getElem (hl.symm ▸ horder k hk)]
    rfl
  have himages := hlength o.images rfl
  exact ⟨⟨(hlength _ h.cameras).trans himages.symm, (hlength _ h.points).trans himages.symm⟩,
    himages⟩

end Observations

/-! ## Lists of computations -/

theorem mapM_eq_error {ε α β : Type} {f : α → Except ε β} {l : List α} {fault : ε}
    (hall : ∀ a ∈ l, (∃ b, f a = .ok b) ∨ f a = .error fault)
    (hsome : ∃ a ∈ l, f a = .error fault) : l.mapM f = .error fault := by
  induction l with
  | nil =>
    obtain ⟨a, ha, -⟩ := hsome
    exact nomatch ha
  | cons a l ih =>
    obtain ⟨hfirst, hrest⟩ := List.forall_mem_cons.mp hall
    rw [List.mapM_cons]
    rcases hfirst with ⟨b, hb⟩ | herror
    · obtain ⟨a', ha', herror⟩ := hsome
      have hlater : a' ∈ l := by
        refine (List.mem_cons.mp ha').resolve_left ?_
        rintro rfl
        exact nomatch hb.symm.trans herror
      rw [hb, ih hrest ⟨a', hlater, herror⟩]
      rfl
    · rw [herror]
      rfl

/-! ## Residuals -/

namespace Bundle

variable {R : Type} [CircularScalar R]

/-- The residuals of one observation: where its camera should see its point, less where it did. The
camera has six numbers of the vector, behind those of the cameras with smaller labels, and the point
has three, behind those of all cameras and of the points before it. -/
def residualsOf (b : Bundle R) (x : List R) (s : Observation R) : Except Fault (List R) :=
  match b.cameras.get? s.camera with
  | none => .ok (difference ⟨0, 0⟩ s.image)
  | some camera =>
    match camera.intrinsics.lens?,
      PoseVector.ofList? ((x.drop (6 * b.cameras.countBelow s.camera)).take 6),
      (position? s.point b.points.length).bind fun row ↦
        Vec3.ofList? ((x.drop (6 * b.cameras.size + 3 * row)).take 3) with
    | some lens, some pose, some point => .ok (difference (lens.project (pose.view point)) s.image)
    | _, _, _ => .error .malformedGeometry

variable {b : Bundle R} {x : List R} {p : Parameters R}

/-- The residuals of an observation come from the image that the batch has for it, and a missing
image is a missing lens. -/
theorem residualsOf_eq (hx : x.length = b.dimension) (hp : p.LaidOut b.cameras.size x)
    (hcovered : b.Covered p) {s : Observation R} (hs : s.point ∈ b.observations.points) :
    b.residualsOf x s = match b.imageOf? p s.camera s.point with
      | some image => .ok (difference image s.image)
      | none => .error .malformedGeometry := by
  rw [residualsOf, imageOf?]
  cases hcamera : b.cameras.get? s.camera with
  | none => rfl
  | some camera =>
    have hlabel := Labelled.mem_labels_of_get? hcamera
    have hplace := List.idxOf_lt_length_iff.mpr hlabel
    rw [Labelled.length_labels] at hplace
    have hpose := hp.pose _ hplace
    obtain ⟨point, hpoint⟩ := hcovered.point _ hs
    have hrow : ((position? s.point b.points.length).bind fun row ↦
        Vec3.ofList? ((x.drop (6 * b.cameras.size + 3 * row)).take 3)) = some point := by
      rw [pointAt, length_points_of_laidOut hx hp] at hpoint
      split at hpoint
      next found hfound =>
        rw [← Except.ok.inj hpoint, ← hfound]
        exact congrArg _ (funext fun row ↦ (hp.point row).symm)
      · cases hpoint
    simp only [seen?, hpoint, hrow, hpose, ← Labelled.idxOf_labels hlabel]
    cases camera.intrinsics.lens? with
    | none => rfl
    | some lens => cases PoseVector.ofList? _ <;> rfl

theorem residualsOf_eq_ok_or_error (hx : x.length = b.dimension) (hb : b.IsMatched)
    {s : Observation R} (hs : s.point ∈ b.observations.points) :
    (∃ u v, b.residualsOf x s = .ok [u, v]) ∨ b.residualsOf x s = .error .malformedGeometry := by
  obtain ⟨p, hp⟩ := Parameters.exists_ofVector hx
  have hlaid := Parameters.laidOut_of_ofVector hp
  rw [residualsOf_eq hx hlaid (hb.covered hx hlaid) hs]
  cases b.imageOf? p s.camera s.point with
  | none => exact Or.inr rfl
  | some image => exact Or.inl ⟨_, _, rfl⟩

/-- **The residuals of a bundle are those of its observations one by one.** -/
theorem IsMatched.residual_eq (hb : b.IsMatched) (hx : x.length = b.dimension) :
    b.residual x = (b.observations.toList.mapM (b.residualsOf x)).map List.flatten := by
  obtain ⟨p, hp⟩ := Parameters.exists_ofVector hx
  have hlaid := Parameters.laidOut_of_ofVector hp
  have hcovered := hb.covered hx hlaid
  have heach : ∀ s ∈ b.observations.toList, b.residualsOf x s
      = match b.imageOf? p s.camera s.point with
        | some image => .ok (difference image s.image)
        | none => .error .malformedGeometry := by
    intro s hs
    obtain ⟨k, hk⟩ := List.mem_iff_getElem?.mp hs
    exact residualsOf_eq hx hlaid hcovered
      (List.mem_of_getElem? (Observations.getElem?_toList.mp hk).2.2)
  rw [residual_of_ofVector hp]
  by_cases hlens : b.HasLenses b.cameras.entries
  · obtain ⟨images, himages, hlength, hplaces⟩ := exists_images hcovered hlens
    have hpairs : b.observations.toList.mapM (b.residualsOf x)
        = .ok (List.zipWith difference images b.observations.images) := by
      refine Jacobian.mapM_eq_ok_iff.mpr (List.forall₂_iff_get.mpr ⟨?_, fun k hk hk' ↦ ?_⟩)
      · rw [hb.observations.length_toList, List.length_zipWith, hlength, Nat.min_self]
      · have hitem := List.getElem?_eq_getElem hk
        obtain ⟨hcamera, himage, hpoint⟩ := Observations.getElem?_toList.mp hitem
        have hplace := hplaces k _ _ hcamera hpoint
        have hk'' : k < images.length := by
          rw [hlength, ← hb.observations.length_toList]
          exact hk
        rw [List.getElem?_eq_getElem hk''] at hplace
        rw [List.get_eq_getElem, heach _ (List.getElem_mem hk), ← hplace]
        simp only [List.get_eq_getElem, List.getElem_zipWith]
        rw [(List.getElem?_eq_some_iff.mp himage).2]
    rw [residualOf, himages, hpairs]
    rfl
  · have hpairs : b.observations.toList.mapM (b.residualsOf x) = .error .malformedGeometry := by
      refine mapM_eq_error (fun s hs ↦ ?_) ?_
      · rw [heach s hs]
        cases b.imageOf? p s.camera s.point with
        | none => exact Or.inr rfl
        | some image => exact Or.inl ⟨_, rfl⟩
      · obtain ⟨entry, hentry, hsees, hnone⟩ : ∃ entry ∈ b.cameras.entries,
            entry.1 ∈ b.observations.cameras ∧ entry.2.intrinsics.lens? = none := by
          by_contra hcontra
          refine hlens fun entry hentry hsees ↦ Option.ne_none_iff_exists'.mp fun hnone ↦ ?_
          exact hcontra ⟨entry, hentry, hsees, hnone⟩
        obtain ⟨k, hk⟩ := List.mem_iff_getElem?.mp hsees
        have hlt : k < b.observations.toList.length := by
          rw [hb.observations.length_toList, ← hb.observations.cameras]
          exact (List.getElem?_eq_some_iff.mp hk).1
        have hcamera := (Observations.getElem?_toList.mp (List.getElem?_eq_getElem hlt)).1
        obtain hlabel := Option.some.inj (hcamera.symm.trans hk)
        refine ⟨_, List.getElem_mem hlt, ?_⟩
        rw [heach _ (List.getElem_mem hlt), imageOf?, hlabel, Labelled.get?_of_mem hentry]
        simp only [seen?, hnone]
    rw [residualOf_of_not_hasLenses hcovered hlens, hpairs]
    rfl

/-! ## Other orders -/

omit [CircularScalar R] in
theorem take_drop_flatten {pairs : List (List R)} (h : ∀ pair ∈ pairs, pair.length = 2) (k : Nat) :
    (pairs.flatten.drop (2 * k)).take 2 = pairs[k]?.getD [] := by
  induction pairs generalizing k with
  | nil => simp
  | cons pair pairs ih =>
    obtain ⟨hpair, hrest⟩ := List.forall_mem_cons.mp h
    rw [List.flatten_cons]
    cases k with
    | zero => exact List.take_left' hpair
    | succ k =>
      have hskip : 2 * (k + 1) = pair.length + 2 * k := by omega
      rw [hskip, List.drop_length_add_append, ih hrest]
      rfl

omit [CircularScalar R] in
theorem flatten_filterMap_getElem? (pairs : List (List R)) (order : List Nat) :
    (order.filterMap (pairs[·]?)).flatten = order.flatMap fun k ↦ pairs[k]?.getD [] := by
  induction order with
  | nil => rfl
  | cons k order ih =>
    rw [List.flatMap_cons, ← ih, List.filterMap_cons]
    cases pairs[k]? <;> rfl

/-- **Where the observations stand in another order, so do their residuals.** -/
theorem IsMatched.residual_pick (hb : b.IsMatched) (hx : x.length = b.dimension)
    {order : List Nat} (hperm : order.Perm (List.range b.observations.images.length)) :
    ({ b with observations := b.observations.pick order } : Bundle R).residual x
      = (b.residual x).map fun y ↦ order.flatMap fun k ↦ (y.drop (2 * k)).take 2 := by
  have horder : ∀ k ∈ order, k < b.observations.images.length := fun k hk ↦
    List.mem_range.mp (hperm.mem_iff.mp hk)
  have hpicked : ∀ s ∈ order.filterMap (b.observations.toList[·]?),
      s ∈ b.observations.toList := by
    intro s hs
    obtain ⟨k, -, hk⟩ := List.mem_filterMap.mp hs
    exact List.mem_of_getElem? hk
  have hb' : ({ b with observations := b.observations.pick order } : Bundle R).IsMatched := by
    refine ⟨(hb.observations.pick horder).1, fun index hindex ↦ ?_⟩
    obtain ⟨k, -, hk⟩ := List.mem_filterMap.mp hindex
    exact hb.inRange index (List.mem_of_getElem? hk)
  have heach : ∀ s ∈ b.observations.toList, (∃ u v, b.residualsOf x s = .ok [u, v]) ∨
      b.residualsOf x s = .error .malformedGeometry := by
    intro s hs
    obtain ⟨k, hk⟩ := List.mem_iff_getElem?.mp hs
    exact residualsOf_eq_ok_or_error hx hb
      (List.mem_of_getElem? (Observations.getElem?_toList.mp hk).2.2)
  have hpickedEq : ({ b with observations := b.observations.pick order } : Bundle R).residual x
      = ((order.filterMap (b.observations.toList[·]?)).mapM (b.residualsOf x)).map
        List.flatten := by
    rw [hb'.residual_eq hx, hb.observations.toList_pick]
    rfl
  rw [hpickedEq, hb.residual_eq hx]
  by_cases hall : ∀ s ∈ b.observations.toList, ∃ u v, b.residualsOf x s = .ok [u, v]
  · choose! u v huv using hall
    rw [Jacobian.mapM_eq_ok_map huv, Jacobian.mapM_eq_ok_map fun s hs ↦ huv s (hpicked s hs)]
    refine congrArg Except.ok ?_
    have hpairs : ∀ pair ∈ b.observations.toList.map fun s ↦ [u s, v s], pair.length = 2 := by
      intro pair hpair
      obtain ⟨s, -, rfl⟩ := List.mem_map.mp hpair
      rfl
    simp only [take_drop_flatten hpairs]
    rw [← flatten_filterMap_getElem?, List.map_filterMap]
    simp only [List.getElem?_map]
  · -- A failure is found in any order, and there is only one fault.
    obtain ⟨s, hs, hfails⟩ : ∃ s ∈ b.observations.toList,
        b.residualsOf x s = .error .malformedGeometry := by
      push Not at hall
      obtain ⟨s, hs, hnot⟩ := hall
      refine ⟨s, hs, (heach s hs).resolve_left ?_⟩
      rintro ⟨u, v, huv⟩
      exact hnot u v huv
    have heach' : ∀ s ∈ b.observations.toList, (∃ pair, b.residualsOf x s = .ok pair) ∨
        b.residualsOf x s = .error .malformedGeometry := fun s hs ↦
      (heach s hs).imp_left fun ⟨u, v, huv⟩ ↦ ⟨_, huv⟩
    have hs' : s ∈ order.filterMap (b.observations.toList[·]?) := by
      obtain ⟨k, hk⟩ := List.mem_iff_getElem?.mp hs
      have hlt := (List.getElem?_eq_some_iff.mp hk).1
      rw [hb.observations.length_toList] at hlt
      exact List.mem_filterMap.mpr ⟨k, hperm.mem_iff.mpr (List.mem_range.mpr hlt), hk⟩
    rw [mapM_eq_error heach' ⟨s, hs, hfails⟩,
      mapM_eq_error (fun s hs ↦ heach' s (hpicked s hs)) ⟨s, hs', hfails⟩]
    rfl

/-- **The order in which the cameras came up has no bearing on the residuals.** -/
theorem IsMatched.residual_of_perm (hb : b.IsMatched) (hx : x.length = b.dimension)
    {cameras : Labelled (Camera R)} (hperm : cameras.entries.Perm b.cameras.entries) :
    ({ b with cameras } : Bundle R).residual x = b.residual x := by
  have hsize : cameras.size = b.cameras.size := hperm.length_eq
  have hb' : ({ b with cameras } : Bundle R).IsMatched := ⟨hb.observations, hb.inRange⟩
  have hx' : x.length = ({ b with cameras } : Bundle R).dimension := by
    rw [hx, dimension, dimension, hsize]
  have heach : ({ b with cameras } : Bundle R).residualsOf x = b.residualsOf x := by
    funext s
    simp only [residualsOf, Labelled.get?_of_perm hperm, Labelled.countBelow_of_perm hperm, hsize]
  rw [hb'.residual_eq hx', hb.residual_eq hx, heach]

/-! ## The two residuals of an observation -/

theorem IsMatched.residualsOf_eq_ok (hb : b.IsMatched) (hx : x.length = b.dimension) {y : List R}
    (hy : b.residual x = .ok y) {k : Nat} {s : Observation R}
    (hs : b.observations.toList[k]? = some s) :
    b.residualsOf x s = .ok ((y.drop (2 * k)).take 2) := by
  obtain ⟨pairs, hpairs, rfl⟩ : ∃ pairs, b.observations.toList.mapM (b.residualsOf x) = .ok pairs ∧
      pairs.flatten = y := by
    rw [hb.residual_eq hx] at hy
    cases hpairs : b.observations.toList.mapM (b.residualsOf x) with
    | error fault => rw [hpairs] at hy; exact nomatch hy
    | ok pairs => rw [hpairs] at hy; exact ⟨pairs, rfl, Except.ok.inj hy⟩
  have heach := Jacobian.mapM_eq_ok_iff.mp hpairs
  have hlength : ∀ pair ∈ pairs, pair.length = 2 := by
    intro pair hpair
    obtain ⟨i, hi, rfl⟩ := List.mem_iff_getElem.mp hpair
    have hi' : i < b.observations.toList.length := heach.length_eq ▸ hi
    have hmem := (Observations.getElem?_toList.mp (List.getElem?_eq_getElem hi')).2.2
    have hok := (List.forall₂_iff_get.mp heach).2 i hi' hi
    rcases residualsOf_eq_ok_or_error hx hb (List.mem_of_getElem? hmem) with ⟨u, v, huv⟩ | herror
    · have heq : [u, v] = pairs[i] := Except.ok.inj (huv.symm.trans hok)
      rw [← heq]
      rfl
    · exact nomatch herror.symm.trans hok
  obtain ⟨hk, rfl⟩ := List.getElem?_eq_some_iff.mp hs
  have hk' : k < pairs.length := heach.length_eq ▸ hk
  rw [take_drop_flatten hlength, List.getElem?_eq_getElem hk']
  exact (List.forall₂_iff_get.mp heach).2 k hk hk'

theorem exists_of_residualsOf {s : Observation R} {pair : List R} {camera : Camera R}
    (hpair : b.residualsOf x s = .ok pair) (hcamera : b.cameras.get? s.camera = some camera) :
    ∃ lens pose row point, camera.intrinsics.lens? = some lens ∧
      PoseVector.ofList? ((x.drop (6 * b.cameras.countBelow s.camera)).take 6) = some pose ∧
      position? s.point b.points.length = some row ∧
      Vec3.ofList? ((x.drop (6 * b.cameras.size + 3 * row)).take 3) = some point ∧
      pair = difference (lens.project (pose.view point)) s.image := by
  simp only [residualsOf, hcamera] at hpair
  split at hpair
  next lens pose point hlens hpose hpoint =>
    obtain ⟨row, hrow, hpoint⟩ := Option.bind_eq_some_iff.mp hpoint
    exact ⟨lens, pose, row, point, hlens, hpose, hrow, hpoint, (Except.ok.inj hpair).symm⟩
  · exact nomatch hpair

omit [CircularScalar R] in
theorem getElem?_of_take_drop {y : List R} {k : Nat} {u v : R}
    (h : (y.drop k).take 2 = [u, v]) : y[k]? = some u ∧ y[k + 1]? = some v := by
  have hentry : ∀ i < 2, y[k + i]? = ([u, v] : List R)[i]? := fun i hi ↦ by
    rw [← h, List.getElem?_take_of_lt hi, List.getElem?_drop]
  exact ⟨hentry 0 (by decide), hentry 1 (by decide)⟩

theorem IsMatched.exists_residual_iff (hb : b.IsMatched) (hx : x.length = b.dimension) :
    (∃ y, b.residual x = .ok y) ↔ b.HasLenses b.cameras.entries := by
  obtain ⟨p, hp⟩ := Parameters.exists_ofVector hx
  have hcovered := hb.covered hx (Parameters.laidOut_of_ofVector hp)
  rw [residual_of_ofVector hp]
  constructor
  · rintro ⟨y, hy⟩
    by_contra hlens
    exact nomatch (residualOf_of_not_hasLenses hcovered hlens).symm.trans hy
  · intro hlens
    obtain ⟨y, hy, -⟩ := exists_residualOf hcovered hlens
    exact ⟨y, hy⟩

theorem IsMatched.length_residual (hb : b.IsMatched) (hx : x.length = b.dimension) {y : List R}
    (hy : b.residual x = .ok y) : y.length = 2 * b.observations.images.length := by
  obtain ⟨p, hp⟩ := Parameters.exists_ofVector hx
  have hcovered := hb.covered hx (Parameters.laidOut_of_ofVector hp)
  obtain ⟨y', hy', hlength, -⟩ :=
    exists_residualOf hcovered ((hb.exists_residual_iff hx).mp ⟨y, hy⟩)
  rw [residual_of_ofVector hp, hy'] at hy
  rw [← Except.ok.inj hy, hlength]

/-- **Each observation has its own residuals**, whatever else was seen. Those of a bundle are the
residuals of its observations one by one, or their fault, and there is no fault if every camera that
saw something has a lens. The two of the observation number `k` have the numbers `2 k` and
`2 k + 1`. They are the image of its point in its camera less where it was seen; or, if no camera
has the label, zero less where it was seen. Another order of the observations gives the same pairs
in that order, and another order of the cameras the same residuals. -/
theorem residual_eq_one_by_one (hb : b.IsMatched) (hx : x.length = b.dimension) :
    b.residual x = (b.observations.toList.mapM (b.residualsOf x)).map List.flatten ∧
    ((∃ y, b.residual x = .ok y) ↔ b.HasLenses b.cameras.entries) ∧
    (∀ y, b.residual x = .ok y → y.length = 2 * b.observations.images.length ∧
      ∀ (k : Nat) (s : Observation R), b.observations.toList[k]? = some s →
        (∀ camera, b.cameras.get? s.camera = some camera → ∃ lens pose row point,
          camera.intrinsics.lens? = some lens ∧
          PoseVector.ofList? ((x.drop (6 * b.cameras.countBelow s.camera)).take 6) = some pose ∧
          position? s.point b.points.length = some row ∧
          Vec3.ofList? ((x.drop (6 * b.cameras.size + 3 * row)).take 3) = some point ∧
          y[2 * k]? = some ((lens.project (pose.view point)).u - s.image.u) ∧
          y[2 * k + 1]? = some ((lens.project (pose.view point)).v - s.image.v)) ∧
        (b.cameras.get? s.camera = none →
          y[2 * k]? = some (0 - s.image.u) ∧ y[2 * k + 1]? = some (0 - s.image.v) ∧
          ((∀ a : R, 0 - a = -a) →
            y[2 * k]? = some (-s.image.u) ∧ y[2 * k + 1]? = some (-s.image.v)))) ∧
    (∀ order : List Nat, order.Perm (List.range b.observations.images.length) →
      ({ b with observations := b.observations.pick order } : Bundle R).residual x
        = (b.residual x).map fun y ↦ order.flatMap fun k ↦ (y.drop (2 * k)).take 2) ∧
    ∀ cameras : Labelled (Camera R), cameras.entries.Perm b.cameras.entries →
      ({ b with cameras } : Bundle R).residual x = b.residual x := by
  refine ⟨hb.residual_eq hx, hb.exists_residual_iff hx,
    fun y hy ↦ ⟨hb.length_residual hx hy, fun k s hs ↦ ?_⟩, fun order ↦ hb.residual_pick hx,
    fun cameras ↦ hb.residual_of_perm hx⟩
  have hpair := hb.residualsOf_eq_ok hx hy hs
  constructor
  · intro camera hcamera
    obtain ⟨lens, pose, row, point, hlens, hpose, hrow, hpoint, heq⟩ :=
      exists_of_residualsOf hpair hcamera
    exact ⟨lens, pose, row, point, hlens, hpose, hrow, hpoint, getElem?_of_take_drop heq⟩
  · intro hnone
    rw [residualsOf, hnone] at hpair
    obtain ⟨hu, hv⟩ := getElem?_of_take_drop (Except.ok.inj hpair).symm
    exact ⟨hu, hv, fun hneg ↦ ⟨hneg s.image.u ▸ hu, hneg s.image.v ▸ hv⟩⟩

open PartialRat

/-- Two cameras that see two points and a third that saw nothing, with an observation of a camera
that is not there in between. The second point is named from the end in two of its observations. -/
def mixedViews : Bundle PartialRat where
  cameras := ⟨[(7, straight), (3, straight), (5, straight)], by decide⟩
  observations := .ofWords .int32 [3, 9, 7, 3] [⟨0, 0⟩, ⟨ofRat 4, ofRat 5⟩, ⟨0, 0⟩, ⟨1, 1⟩]
    [0, 1, -1, -1]
  points := [⟨0, 0, 1⟩, ⟨0, 0, 1⟩]

/-- Nobody turned, the camera with the largest label shifted aside, and the points ahead. -/
def mixedVector : List PartialRat :=
  List.replicate 15 0 ++ [1, 0, 0] ++ [1, ofRat 2, 1] ++ [ofRat 2, ofRat 2, ofRat 2]

theorem mixedViews_one_by_one :
    mixedViews.IsMatched ∧ mixedVector.length = mixedViews.dimension ∧
    mixedViews.residual mixedVector
      = .ok [1, ofRat 2, ofRat (-4), ofRat (-5), ofRat (3 / 2), 1, 0, 0] ∧
    ({ mixedViews with observations := mixedViews.observations.pick [3, 1, 0, 2] }).residual
      mixedVector = .ok [0, 0, ofRat (-4), ofRat (-5), 1, ofRat 2, ofRat (3 / 2), 1] ∧
    ({ mixedViews with cameras := ⟨[(5, straight), (7, straight), (3, straight)], by decide⟩ }
      ).residual mixedVector = mixedViews.residual mixedVector := by
  have hmatched : mixedViews.IsMatched := ⟨⟨rfl, rfl⟩, by decide⟩
  have hlength : mixedVector.length = mixedViews.dimension := by decide
  obtain ⟨hone, -, -, horder, hcameras⟩ := residual_eq_one_by_one hmatched hlength
  have hresidual : mixedViews.residual mixedVector
      = .ok [1, ofRat 2, ofRat (-4), ofRat (-5), ofRat (3 / 2), 1, 0, 0] := by
    rw [hone]
    decide +kernel
  refine ⟨hmatched, hlength, hresidual, ?_, hcameras _ ?_⟩
  · rw [horder [3, 1, 0, 2] (by decide), hresidual]
    decide +kernel
  · exact @List.perm_append_comm _ [(5, straight)] _

end Bundle

end DampedLeastSquares
