import DampedLeastSquares.Proofs.Bundle.Batches
import DampedLeastSquares.Proofs.Jacobian.Sequential

/-!
# Points that are counted from the end

The number of a point is read in two places. The residuals look it up among the points, where a
negative number counts from the last point. The pattern multiplies it by three, adds the columns of
all cameras, and looks up the columns of the vector, where a negative number counts from the last
column. Up to the first point both go the same way, as long as there are words for the columns.
Below it they part: the number -1 is the last point for the residuals, while the columns that the
pattern marks for it are the three behind which all the points begin, those of a camera.

As soon as there is a camera, the columns that are marked for a negative number are wrong, and so
are those that have been cut down to a word. A column of the point that is projected stays unmarked,
and the Jacobian has zeros there whatever the derivatives are.
-/

namespace DampedLeastSquares

/-! ## What residuals have checked -/

theorem mem_selected_of_getElem? {α : Type} {mask : List Bool} {items : List α} {k : Nat} {a : α}
    (hmask : mask[k]? = some true) (hitem : items[k]? = some a) : a ∈ selected mask items := by
  fun_induction selected mask items generalizing k with
  | case1 mask x items ih =>
    cases k with
    | zero => exact Option.some.inj hitem ▸ List.mem_cons_self
    | succ k => exact List.mem_cons_of_mem x (ih hmask hitem)
  | case2 mask x items ih =>
    cases k with
    | zero => cases hmask
    | succ k => exact ih hmask hitem
  | case3 mask items hfirst hsecond =>
    cases mask with
    | nil => cases hmask
    | cons kept mask =>
      cases items with
      | nil => cases hitem
      | cons x items =>
        cases kept with
        | true => exact (hfirst _ _ _ rfl rfl).elim
        | false => exact (hsecond _ _ _ rfl rfl).elim

theorem Jacobian.length_of_perturbed {R : Type} [Scalar R] {f : Residual R} {x y z : List R}
    {h : Amount R} {var : Int} (hz : perturbed f x y h var = .ok z) : y.length = z.length := by
  obtain ⟨point, -, hz⟩ := Jacobian.exists_of_bind_eq_ok hz
  obtain ⟨z', -, hz⟩ := Jacobian.exists_of_bind_eq_ok hz
  by_cases hlength : y.length = z'.length
  · rw [if_pos hlength] at hz
    exact Except.ok.inj hz ▸ hlength
  · rw [if_neg hlength] at hz
    exact nomatch hz

namespace Bundle

variable {R : Type} [CircularScalar R] {b : Bundle R} {p : Parameters R} {x y : List R}

theorem length_of_checkMask {α : Type} {mask : List Bool} {items : List α} {u : Unit}
    (h : checkMask mask items = .ok u) : mask.length = items.length := by
  by_contra hlength
  rw [checkMask, if_neg hlength] at h
  cases h

/-- What a camera does: one that saw something has the length of its mask checked, twice, and its
points looked up, before its images are put in their places, and any other does nothing. -/
theorem projectCamera_cases {label : Int} {camera : Camera R} {images images' : List (Pixel R)}
    (h : b.projectCamera p label camera images = .ok images') :
    (∃ pose points own, label ∈ b.observations.cameras ∧
      p.poses[b.cameras.labels.idxOf label]? = some pose ∧
      b.observations.cameras.length = b.observations.points.length ∧
      b.observations.cameras.length = images.length ∧
      (selected (b.observations.ofCamera label) b.observations.points).mapM (pointAt p.points)
        = .ok points ∧
      images' = scatter (b.observations.ofCamera label) own images) ∨
    (images' = images ∧ (label ∉ b.observations.cameras ∨
      p.poses[b.cameras.labels.idxOf label]? = none)) := by
  have hmask : (b.observations.ofCamera label).length = b.observations.cameras.length :=
    List.length_map _
  by_cases hsees : label ∈ b.observations.cameras
  · cases hpose : p.poses[b.cameras.labels.idxOf label]? with
    | none =>
      simp only [projectCamera, (any_ofCamera b.observations label).mpr hsees, hpose] at h
      exact Or.inr ⟨(Except.ok.inj h).symm, Or.inr rfl⟩
    | some pose =>
      simp only [projectCamera, (any_ofCamera b.observations label).mpr hsees, hpose] at h
      obtain ⟨_, hpoints, h⟩ := Jacobian.exists_of_bind_eq_ok h
      obtain ⟨points, hown, h⟩ := Jacobian.exists_of_bind_eq_ok h
      obtain ⟨own, -, h⟩ := Jacobian.exists_of_bind_eq_ok h
      obtain ⟨_, himages, h⟩ := Jacobian.exists_of_bind_eq_ok h
      exact Or.inl ⟨pose, points, own, hsees, rfl, hmask.symm.trans (length_of_checkMask hpoints),
        hmask.symm.trans (length_of_checkMask himages), hown, (Except.ok.inj h).symm⟩
  · have hany : (b.observations.ofCamera label).any id = false :=
      Bool.eq_false_iff.mpr fun hany ↦ hsees ((any_ofCamera b.observations label).mp hany)
    simp only [projectCamera, hany] at h
    exact Or.inr ⟨(Except.ok.inj h).symm, Or.inl hsees⟩

/-- The observations of cameras that put their images in their places are complete, and their points
are there. -/
theorem checked_of_foldlM_projectCamera {entries : List (Int × Camera R)}
    {images images' : List (Pixel R)}
    (h : entries.foldlM (fun images (label, camera) ↦ b.projectCamera p label camera images) images
      = .ok images') {label : Int} (hlabel : label ∈ entries.map Prod.fst)
    (hsees : label ∈ b.observations.cameras)
    (hpose : b.cameras.labels.idxOf label < p.poses.length) :
    b.observations.cameras.length = b.observations.points.length ∧
      b.observations.cameras.length = images.length ∧
      ∀ (k : Nat) (index : Int), b.observations.cameras[k]? = some label →
        b.observations.points[k]? = some index → ∃ point, pointAt p.points index = .ok point := by
  induction entries generalizing images with
  | nil => exact nomatch hlabel
  | cons entry entries ih =>
    rw [List.foldlM_cons] at h
    obtain ⟨images₁, hfirst, hrest⟩ := Jacobian.exists_of_bind_eq_ok h
    rcases projectCamera_cases hfirst with
      ⟨pose, points, own, -, -, hpoints, himages, hown, rfl⟩ | ⟨rfl, hnot⟩
    · refine ⟨hpoints, himages, fun k index hcamera hindex ↦ ?_⟩
      rcases List.mem_cons.mp hlabel with rfl | hlabel
      · exact Jacobian.exists_of_mapM_eq_ok hown _ (mem_selected_of_getElem?
          ((getElem?_ofCamera b.observations hcamera).mpr rfl) hindex)
      · exact (ih hrest hlabel).2.2 k index hcamera hindex
    · rcases List.mem_cons.mp hlabel with rfl | hlabel
      · exact (hnot.elim (absurd hsees) fun hnone ↦
          nomatch (List.getElem?_eq_getElem hpose).symm.trans hnone)
      · exact ih hrest hlabel

theorem isMatched_of_residual (hx : x.length = b.dimension) {s : Sparsity}
    (hs : b.sparsity = .ok s) (hy : b.residual x = .ok y) (hsome : b.observations.cameras ≠ []) :
    b.IsMatched := by
  obtain ⟨p, hp⟩ := Parameters.exists_ofVector hx
  have hlaid := Parameters.laidOut_of_ofVector hp
  rw [residual_of_ofVector hp] at hy
  obtain ⟨images, himages, -⟩ := Jacobian.exists_of_bind_eq_ok hy
  have hchecked : ∀ label ∈ b.observations.cameras,
      b.observations.cameras.length = b.observations.points.length ∧
      b.observations.cameras.length = b.observations.images.length ∧
      ∀ (k : Nat) (index : Int), b.observations.cameras[k]? = some label →
        b.observations.points[k]? = some index → ∃ point, pointAt p.points index = .ok point := by
    intro label hsees
    have hlabel := known_of_sparsity hs label hsees
    have hplace := List.idxOf_lt_length_iff.mpr hlabel
    rw [Labelled.length_labels, ← hlaid.length_poses] at hplace
    have hall :=
      checked_of_foldlM_projectCamera himages (Labelled.mem_labels.mp hlabel) hsees hplace
    rwa [List.length_map] at hall
  obtain ⟨label, hlabel⟩ := List.exists_mem_of_ne_nil _ hsome
  obtain ⟨hpoints, himages', -⟩ := hchecked label hlabel
  refine ⟨⟨himages', hpoints.symm.trans himages'⟩, fun index hindex ↦ ?_⟩
  obtain ⟨k, hk⟩ := List.mem_iff_getElem?.mp hindex
  have hlt := (List.getElem?_eq_some_iff.mp hk).1
  have hcamera := List.getElem?_eq_getElem (hpoints.symm ▸ hlt)
  obtain ⟨point, hpoint⟩ := (hchecked _ (List.mem_of_getElem? hcamera)).2.2 k index hcamera hk
  rw [pointAt, length_points_of_laidOut hx hlaid] at hpoint
  cases hrow : position? index b.points.length with
  | none =>
    rw [hrow] at hpoint
    cases hpoint
  | some row => exact inRange_of_position? hrow

/-! ## What the pattern marks -/

section

variable {s : Sparsity} {k : Nat} {label index : Int}

omit [CircularScalar R]

theorem not_mem_markedColumns (hsize : b.cameras.size ≠ 0)
    (hstart : b.observations.words.asIndex.Holds (6 * b.cameras.size : Nat)) {row : Nat}
    (hrow : position? index b.points.length = some row) (hneg : index < 0)
    (hfirst : b.observations.words.asIndex.Holds (6 * b.cameras.size + index * 3)) {c : Nat}
    (hc : c ∈ Sparsity.block (6 * b.cameras.size) 3 row) : c ∉ b.markedColumns index := by
  have hrange := inRange_of_position? hrow
  have heq : (row : Int) = index + b.points.length := by
    rw [position?, if_neg (by omega), if_pos ⟨hrange.1, hneg⟩] at hrow
    have := Option.some.inj hrow
    omega
  rw [Sparsity.mem_block] at hc
  intro hmarked
  obtain ⟨t, ht, hmarked⟩ := List.mem_map.mp hmarked
  have ht' := List.mem_range.mp ht
  have hheld : b.observations.words.asIndex.Holds
      ((6 * b.cameras.size : Nat) + index * (3 : Nat) + t) := by
    rw [WordFormat.Holds] at hstart hfirst ⊢
    omega
  have hcolumn : ((6 * b.cameras.size : Nat) + index * (3 : Nat) + t : Int)
      = 6 * b.cameras.size + index * 3 + t := by omega
  rw [WordFormat.wrap_of_holds hheld, hcolumn] at hmarked
  -- Below the columns of all points, or, if there are too few of those, behind the point.
  rcases lt_or_ge (6 * b.cameras.size + index * 3 + t : Int) 0 with hbelow | habove
  · rw [Int.emod_eq_add_self_emod, Int.emod_eq_of_lt (by rw [dimension]; omega) (by omega),
      dimension] at hmarked
    omega
  · rw [Int.emod_eq_of_lt habove (by rw [dimension]; omega)] at hmarked
    omega

theorem lt_dimension_of_mem_block {row : Nat} (hrow : row < b.points.length) {c : Nat}
    (hc : c ∈ Sparsity.block (6 * b.cameras.size) 3 row) : c < b.dimension := by
  rw [Sparsity.mem_block] at hc
  rw [dimension]
  omega

/-- What is marked for the number of a point are the columns of the point exactly if the number is
counted from the start and there is room for it. -/
theorem markedColumns_eq_block_iff (hsize : b.cameras.size ≠ 0)
    (hstart : b.observations.words.asIndex.Holds (6 * b.cameras.size : Nat))
    (hheld : b.observations.words.asIndex.Holds index) {row : Nat}
    (hrow : position? index b.points.length = some row) :
    b.markedColumns index = Sparsity.block (6 * b.cameras.size) 3 row ↔
      0 ≤ index ∧ b.HasRoomFor index := by
  constructor
  · intro heq
    exact hasRoomFor_of_subset_markedColumns hsize hstart hheld hrow (heq ▸ List.Subset.refl _)
  · rintro ⟨hnonneg, hroom⟩
    have hrange := inRange_of_position? hrow
    rw [position?, if_pos ⟨hnonneg, hrange.2⟩] at hrow
    rw [markedColumns_eq_block ⟨hnonneg, hrange.2⟩ hroom, ← Option.some.inj hrow,
      Int.toNat_of_nonneg hnonneg]

end

/-! ## What becomes of the derivatives -/

/-- The two residuals of an observation are made from the point in a row behind the cameras. -/
def Projects (b : Bundle R) (x y : List R) (k row : Nat) : Prop :=
  ∃ (s : Observation R) (camera : Camera R) (lens : Lens R) (pose : PoseVector R) (point : Vec3 R),
    b.observations.toList[k]? = some s ∧ b.cameras.get? s.camera = some camera ∧
    camera.intrinsics.lens? = some lens ∧
    PoseVector.ofList? ((x.drop (6 * b.cameras.countBelow s.camera)).take 6) = some pose ∧
    Vec3.ofList? ((x.drop (6 * b.cameras.size + 3 * row)).take 3) = some point ∧
    y[2 * k]? = some ((lens.project (pose.view point)).u - s.image.u) ∧
    y[2 * k + 1]? = some ((lens.project (pose.view point)).v - s.image.v)

section

variable {s : Sparsity} {k : Nat} {label index : Int}

/-- The residuals of an observation of a camera that is there are made from the point that its
number means among the points. -/
theorem IsMatched.exists_projects (hb : b.IsMatched) (hx : x.length = b.dimension)
    (hy : b.residual x = .ok y) (hlabel : b.observations.cameras[k]? = some label)
    (hknown : label ∈ b.cameras.labels) (hindex : b.observations.points[k]? = some index) :
    ∃ row, position? index b.points.length = some row ∧ b.Projects x y k row := by
  have hlt := (List.getElem?_eq_some_iff.mp hlabel).1
  rw [hb.observations.cameras] at hlt
  obtain ⟨camera, hcamera⟩ := Labelled.exists_get? hknown
  have hs : b.observations.toList[k]? = some ⟨label, _, index⟩ :=
    Observations.getElem?_toList.mpr ⟨hlabel, List.getElem?_eq_getElem hlt, hindex⟩
  obtain ⟨lens, pose, row, point, hlens, hpose, hrow, hpoint, hpair⟩ :=
    exists_of_residualsOf (hb.residualsOf_eq_ok hx hy hs) hcamera
  obtain ⟨hu, hv⟩ := getElem?_of_take_drop hpair
  exact ⟨row, hrow, _, camera, lens, pose, point, hs, hcamera, hlens, hpose, hpoint, hu, hv⟩

theorem entry_eq_zero_of_not_marked (hb : b.IsMatched) (hx : x.length = b.dimension)
    (hs : b.sparsity = .ok s) (hy : b.residual x = .ok y) {r c : Nat}
    (hr : r < 2 * b.observations.images.length) (hzero : s.toTensor.at? r c ≠ some true)
    {active : List Int} (hactive : ∀ var ∈ active, ∃ v, position? var x.length = some v)
    {h : Amount R} {w : Workers} {calls : Nat} {j : Jacobian R}
    (hj : (Jacobian.compute (fun _ ↦ b.residual) calls x (.ofList y) active h (.ok w)
      (some s.toTensor)).outcome = .ok j) {i : Nat} {var : Int} (hi : active[i]? = some var)
    (hvar : position? var x.length = some c) :
    ∃ column, j.columns[i]? = some column ∧ column[r]? = some 0 := by
  have hlength := hb.length_residual hx hy
  have hpattern : ∀ p ∈ some s.toTensor, p.shape = [y.length, x.length] := by
    rintro _ ⟨⟩
    rw [hb.shape_toTensor hs, hlength, hx, conditions]
  have hsequential := Jacobian.sequential_compute hactive hpattern (fun _ _ ↦ rfl) w calls
    (f := fun _ ↦ b.residual) (h := h)
  have hall : ∀ v ∈ active, ∃ z, Jacobian.perturbed (fun _ ↦ b.residual) x y h v = .ok z := by
    intro v hv
    cases hz : Jacobian.perturbed (fun _ ↦ b.residual) x y h v with
    | ok z => exact ⟨z, rfl⟩
    | error fault =>
      obtain ⟨fault', hfault'⟩ := hsequential.failed_iff.mpr ⟨v, hv, fault, hz⟩
      cases hj.symm.trans hfault'
  obtain ⟨⟨j', hj', -, -, hcolumns⟩, -⟩ := hsequential.computed hall
  obtain rfl := Except.ok.inj (hj.symm.trans hj')
  obtain ⟨z, hz⟩ := hall var (List.mem_of_getElem? hi)
  obtain ⟨column, hcolumn, hentries⟩ := hcolumns i var c z hi hvar hz
  have hry : r < y.length := hr.trans_eq hlength.symm
  have hrz : r < z.length := Jacobian.length_of_perturbed hz ▸ hry
  refine ⟨column, hcolumn, ?_⟩
  rw [hentries.entry r _ _ (List.getElem?_eq_getElem hrz) (List.getElem?_eq_getElem hry),
    Jacobian.keeps, Option.all_some, if_neg (by simpa using hzero)]

/-- What the pattern and the residuals make of the number of a point, for the observation `k`, if
both have come out. -/
structure ReadsPoint (b : Bundle R) (s : Sparsity) (x y : List R) (k : Nat) (label index : Int)
    (row : Nat) : Prop where
  /-- The number means the point in this row, from either end. -/
  means : position? index b.points.length = some row
  /-- The two residuals are made from this point. -/
  projects : b.Projects x y k row
  /-- In the two rows of the pattern the columns of the camera are marked and three more. -/
  marked : ∀ r c, r / 2 = k → c < b.dimension → (s.toTensor.at? r c = some true ↔
    c ∈ Sparsity.block 0 6 (b.cameras.labels.idxOf label : Int) ∨ c ∈ b.markedColumns index)
  /-- The columns that are marked for the number are those of the point exactly if it is counted
  from the start and there is room for it. -/
  markedColumns_eq_iff : b.markedColumns index = Sparsity.block (6 * b.cameras.size) 3 row ↔
    0 ≤ index ∧ b.HasRoomFor index
  /-- If the number is counted from the end, or there is no room for it, one of the columns of the
  point is not marked. -/
  exists_unmarked : ¬(0 ≤ index ∧ b.HasRoomFor index) →
    ∃ c ∈ Sparsity.block (6 * b.cameras.size) 3 row, ∀ r, r / 2 = k →
      s.toTensor.at? r c = some false
  /-- No column of the point is marked if the number is negative and nothing was lost of the columns
  that are computed from it. -/
  unmarked : index < 0 → b.observations.words.asIndex.Holds (6 * b.cameras.size + index * 3) →
    ∀ c ∈ Sparsity.block (6 * b.cameras.size) 3 row, ∀ r, r / 2 = k →
      s.toTensor.at? r c = some false
  /-- In a column of the point that is not marked a Jacobian has a zero, whatever the derivative
  is. -/
  masked : ∀ c ∈ Sparsity.block (6 * b.cameras.size) 3 row, ∀ r, r / 2 = k →
    s.toTensor.at? r c = some false →
    ∀ (active : List Int) (h : Amount R) (w : Workers) (calls : Nat) (j : Jacobian R),
      (∀ var ∈ active, ∃ v, position? var x.length = some v) →
      (Jacobian.compute (fun _ ↦ b.residual) calls x (.ofList y) active h (.ok w)
        (some s.toTensor)).outcome = .ok j →
      ∀ (i : Nat) (var : Int), active[i]? = some var → position? var x.length = some c →
        ∃ column, j.columns[i]? = some column ∧ column[r]? = some 0

/-- **The number of a point means the same in both places exactly if it is not negative and has room
for its columns.** Where the pattern and the residuals have both come out, the residuals of an
observation are made from the point that its number means among the points, counted from either end.
The pattern marks the columns that are left of those computed from the number, counted from either
end of the vector. If the number is negative, or if the words in which it is given are too narrow, a
column of the point stays unmarked, and a Jacobian has zeros there. -/
theorem markedColumns_eq_projected_iff (hx : x.length = b.dimension) (hs : b.sparsity = .ok s)
    (hy : b.residual x = .ok y) (hlabel : b.observations.cameras[k]? = some label)
    (hindex : b.observations.points[k]? = some index) :
    ∃ row, b.ReadsPoint s x y k label index row := by
  have hsees := List.mem_of_getElem? hlabel
  have hsome := List.ne_nil_of_mem hsees
  have hb := isMatched_of_residual hx hs hy hsome
  have hknown := known_of_sparsity hs label hsees
  have hplace := List.idxOf_lt_length_iff.mpr hknown
  rw [Labelled.length_labels] at hplace
  have hsize : b.cameras.size ≠ 0 := Nat.ne_zero_of_lt hplace
  have hstart := (hb.isAddressable hs).holds_start hsome
  have hheld := b.observations.holds_points index (List.mem_of_getElem? hindex)
  obtain ⟨row, hrow, hprojects⟩ := hb.exists_projects hx hy hlabel hknown hindex
  -- A column of the point is none of the camera, so it is marked only for the point.
  have hfalse : ∀ c ∈ Sparsity.block (6 * b.cameras.size) 3 row, c ∉ b.markedColumns index →
      ∀ r, r / 2 = k → s.toTensor.at? r c = some false := by
    intro c hc hnot r hr
    rw [hb.at?_toTensor hs hlabel hindex (lt_dimension_of_mem_block (position?_lt hrow) hc) hr,
      Option.some.injEq, decide_eq_false_iff_not]
    refine not_or.mpr ⟨fun hcamera ↦ ?_, hnot⟩
    rw [Sparsity.mem_block] at hc hcamera
    omega
  refine ⟨row, hrow, hprojects, fun r c hr hc ↦ ?_,
    markedColumns_eq_block_iff hsize hstart hheld hrow, fun hnot ↦ ?_, fun hneg hfirst c hc ↦ ?_,
    fun c hc r hr hunmarked active h w calls j hactive hj i var hi hvar ↦ ?_⟩
  · rw [hb.at?_toTensor hs hlabel hindex hc hr, Option.some.injEq, decide_eq_true_iff]
  · by_contra! hall
    refine hnot (hasRoomFor_of_subset_markedColumns hsize hstart hheld hrow fun c hc ↦ ?_)
    by_contra hc'
    obtain ⟨r, hr, hmarked⟩ := hall c hc
    exact hmarked (hfalse c hc hc' r hr)
  · exact hfalse c hc (not_mem_markedColumns hsize hstart hrow hneg hfirst hc)
  · have hlt := (List.getElem?_eq_some_iff.mp hlabel).1
    have hzero : s.toTensor.at? r c ≠ some true := by
      rw [hunmarked]
      exact nofun
    refine entry_eq_zero_of_not_marked hb hx hs hy ?_ hzero hactive hj hi hvar
    rw [← hb.observations.cameras]
    omega

end

open PartialRat

/-- A camera that sees the only point, which is counted from the end. -/
def lastPoint : Bundle PartialRat where
  cameras := ⟨[(7, straight)], by decide⟩
  observations := .ofWords .int32 [7] [⟨0, 0⟩] [-1]
  points := [⟨0, 0, 1⟩]

/-- The point straight ahead. -/
def lastPointVector : List PartialRat := [0, 0, 0, 0, 0, 0, 0, 0, 1]

/-- The pattern of its two rows. -/
def lastPointSparsity : Sparsity := ⟨9, [[0, 1, 2, 3, 4, 5, 3, 4, 5]]⟩

/-- The last three columns of the camera are marked instead of those of the point. Where the point
is moved sideways its image moves as far, but with the pattern the derivative is zero. -/
theorem markedColumns_lastPoint :
    lastPoint.sparsity = .ok lastPointSparsity ∧
    lastPoint.residual lastPointVector = .ok [0, 0] ∧
    lastPoint.Projects lastPointVector [0, 0] 0 0 ∧ lastPoint.markedColumns (-1) = [3, 4, 5] ∧
    lastPointSparsity.toTensor.at? 0 6 = some false ∧
    ((Jacobian.compute (fun _ ↦ lastPoint.residual) 0 lastPointVector (.ofList [0, 0]) [6]
      (.scalar 1) (.ok { count := 1 }) none).outcome.map Jacobian.columns) = .ok [[1, 0]] ∧
    ∃ j column, (Jacobian.compute (fun _ ↦ lastPoint.residual) 0 lastPointVector (.ofList [0, 0])
      [6] (.scalar 1) (.ok { count := 1 }) (some lastPointSparsity.toTensor)).outcome = .ok j ∧
      j.columns[0]? = some column ∧ column[0]? = some 0 := by
  have hx : lastPointVector.length = lastPoint.dimension := by decide
  have hs : lastPoint.sparsity = .ok lastPointSparsity := by decide +kernel
  have hy : lastPoint.residual lastPointVector = .ok [0, 0] := by decide +kernel
  obtain ⟨row, hreads⟩ : ∃ row,
      lastPoint.ReadsPoint lastPointSparsity lastPointVector [0, 0] 0 7 (-1) row :=
    markedColumns_eq_projected_iff hx hs hy rfl (by decide)
  obtain rfl : row = 0 := (Option.some.inj hreads.means).symm
  have hunmarked := hreads.unmarked (by decide) (by decide) 6 (by decide) 0 rfl
  have hzero := hreads.masked 6 (by decide) 0 rfl hunmarked
  have hmasked : ((Jacobian.compute (fun _ ↦ lastPoint.residual) 0 lastPointVector
      (.ofList [0, 0]) [6] (.scalar 1) (.ok { count := 1 })
      (some lastPointSparsity.toTensor)).outcome.map Jacobian.columns) = .ok [[0, 0]] := by
    decide +kernel
  obtain ⟨j, hj, -⟩ := Jacobian.exists_of_bind_eq_ok (f := fun j ↦ .ok (Jacobian.columns j)) hmasked
  obtain ⟨column, hcolumn, hentry⟩ := hzero [6] (.scalar 1) { count := 1 } 0 j
    (fun var hvar ↦ ⟨6, List.mem_singleton.mp hvar ▸ rfl⟩) hj 0 6 rfl rfl
  exact ⟨hs, hy, hreads.projects, by decide, hunmarked, by decide +kernel, j, column, hj, hcolumn,
    hentry⟩

end Bundle

end DampedLeastSquares
