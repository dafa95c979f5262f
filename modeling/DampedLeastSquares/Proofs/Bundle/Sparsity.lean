import DampedLeastSquares.Bundle.Sparsity
import DampedLeastSquares.Proofs.Bundle.Projection
import DampedLeastSquares.Proofs.Bundle.WordColumns
import DampedLeastSquares.Proofs.Jacobian.Pattern
import DampedLeastSquares.Proofs.Scalar.Exact

/-!
# What the pattern of a bundle says

The pattern of a bundle and its residuals are computed apart. The pattern goes by the places of
cameras and the numbers of points and never looks at a parameter; the residuals read parameters off
a vector and go by labels. Here the two are brought together. The pattern marks, for each
observation, the six columns of its camera and the three of its point, and a residual reads no other
numbers than those. So the pattern tells the truth, and a Jacobian loses nothing by it.
-/

namespace DampedLeastSquares

/-! ## The columns of an observation -/

namespace Sparsity

variable {words : WordFormat} {n columns width start : Nat} {indices : List Int}

theorem column_natCast (hfits : WordFormat.int64.Holds columns) {c : Nat} (h : c < columns) :
    column columns (c : Int) = .ok c := by
  rw [column, if_pos hfits, position?_natCast h]

theorem column_of_inRange (hfits : WordFormat.int64.Holds columns) {index : Int}
    (h : -(columns : Int) ≤ index ∧ index < columns) :
    column columns index = .ok (index % columns).toNat := by
  rw [column, if_pos hfits, position?_of_inRange h]

theorem place_eq (hlength : indices.length = n) {index : Int → Int} {c : Int → Nat}
    (hc : ∀ i ∈ indices, column columns (index i) = .ok (c i)) :
    place n columns (indices.map index) = .ok (indices.map fun i ↦ [c i]) := by
  have hgroups : distribute n (indices.map index) = .ok (indices.map fun i ↦ [index i]) := by
    rw [distribute.eq_def, if_pos (by rw [List.length_map, hlength]), List.map_map]
    rfl
  rw [place, hgroups]
  change (indices.map fun i ↦ [index i]).mapM _ = _
  rw [List.mapM_map]
  refine Jacobian.mapM_eq_ok_map fun i hi ↦ ?_
  exact Jacobian.mapM_eq_ok_map (l := [index i]) (g := fun _ ↦ c i) fun index' hindex ↦ by
    rw [List.mem_singleton.mp hindex, hc i hi]

theorem foldlM_place (hlength : indices.length = n) {index : Nat → Int → Int} {c : Int → Nat → Nat}
    {steps : List Nat}
    (hc : ∀ i ∈ indices, ∀ s ∈ steps, column columns (index s i) = .ok (c i s))
    (placed : Int → List Nat) :
    steps.foldlM (fun placed s ↦ do
      let more ← place n columns (indices.map (index s))
      return List.zipWith (· ++ ·) placed more) (indices.map placed)
      = .ok (indices.map fun i ↦ placed i ++ steps.map (c i)) := by
  induction steps generalizing placed with
  | nil => simp [pure, Except.pure]
  | cons s steps ih =>
    have hplace : place n columns (indices.map (index s)) = .ok (indices.map fun i ↦ [c i s]) :=
      place_eq hlength fun i hi ↦ hc i hi s List.mem_cons_self
    have hrest := ih (fun i hi t ht ↦ hc i hi t (List.mem_cons_of_mem s ht))
      fun i ↦ placed i ++ [c i s]
    have hplaced : List.zipWith (· ++ ·) (indices.map placed) (indices.map fun i ↦ [c i s])
        = indices.map fun i ↦ placed i ++ [c i s] := by
      rw [List.zipWith_map, List.zipWith_self]
    rw [List.foldlM_cons, hplace]
    refine (congrArg (List.foldlM _ · steps) hplaced).trans (hrest.trans ?_)
    simp only [List.append_assoc, List.singleton_append, List.map_cons]

theorem placeBlocks_eq (hstart : words.Holds start) (hlength : indices.length = n)
    {c : Int → Nat → Nat} (hc : ∀ i ∈ indices, ∀ s < width,
      column columns (blockIndex words start width s i) = .ok (c i s)) :
    placeBlocks words n columns indices start width
      = .ok (indices.map fun i ↦ (List.range width).map (c i)) := by
  have hblank : List.replicate n [] = indices.map fun _ ↦ ([] : List Nat) := by
    rw [List.map_const', hlength]
  rw [placeBlocks, WordFormat.encode_of_holds hstart, hblank]
  exact foldlM_place hlength (fun i hi s hs ↦ hc i hi s (List.mem_range.mp hs)) fun _ ↦ []

theorem holds_of_column {index : Int} {c : Nat} (h : column columns index = .ok c) :
    WordFormat.int64.Holds columns := by
  by_contra hfits
  rw [column, if_neg hfits] at h
  cases h

/-- Blocks are placed only if there is a word for the first column, and, unless nothing is placed,
an index for every column. -/
theorem holds_of_placeBlocks {placed : List (List Nat)}
    (h : placeBlocks words n columns indices start width = .ok placed) :
    words.Holds start ∧ (0 < width → indices.length = n → indices ≠ [] →
      WordFormat.int64.Holds columns) := by
  obtain ⟨first, hfirst, h⟩ := Jacobian.exists_of_bind_eq_ok h
  refine ⟨?_, fun hwidth hlength hsome ↦ ?_⟩
  · by_contra hstart
    rw [WordFormat.encode, if_neg hstart] at hfirst
    cases hfirst
  · obtain ⟨i, indices, rfl⟩ := List.exists_cons_of_ne_nil hsome
    obtain ⟨width, rfl⟩ := Nat.exists_eq_add_of_lt hwidth
    rw [Nat.zero_add, List.range_succ_eq_map, List.foldlM_cons] at h
    obtain ⟨_, h, -⟩ := Jacobian.exists_of_bind_eq_ok h
    obtain ⟨_, h, -⟩ := Jacobian.exists_of_bind_eq_ok h
    obtain ⟨groups, hgroups, h⟩ := Jacobian.exists_of_bind_eq_ok h
    rw [distribute.eq_def, if_pos (by rw [List.length_map, hlength])] at hgroups
    obtain rfl := Except.ok.inj hgroups
    obtain ⟨_, h⟩ := Jacobian.exists_of_mapM_eq_ok h _ List.mem_cons_self
    obtain ⟨_, h⟩ := Jacobian.exists_of_mapM_eq_ok h _ List.mem_cons_self
    exact holds_of_column h

/-- The columns of a block, whose number is an index. -/
def block (start width : Nat) (index : Int) : List Nat :=
  (List.range width).map fun s ↦ start + index.toNat * width + s

theorem mem_block {index : Int} {c : Nat} : c ∈ block start width index ↔
    start + index.toNat * width ≤ c ∧ c < start + index.toNat * width + width := by
  rw [block, List.mem_map]
  constructor
  · rintro ⟨s, hs, rfl⟩
    exact ⟨Nat.le_add_right _ _, Nat.add_lt_add_left (List.mem_range.mp hs) _⟩
  · rintro ⟨hle, hlt⟩
    exact ⟨c - (start + index.toNat * width), List.mem_range.mpr (by omega), by omega⟩

theorem placeBlocks_cameras (hlength : indices.length = n)
    (hindices : ∀ i ∈ indices, WordFormat.int64.Holds columns ∧ 0 ≤ i ∧ i * 6 + 6 ≤ columns) :
    placeBlocks .int64 n columns indices 0 6 = .ok (indices.map (block 0 6)) := by
  refine placeBlocks_eq (by decide) hlength fun i hi s hs ↦ ?_
  obtain ⟨hfits, hnonneg, hle⟩ := hindices i hi
  have hcolumn : ((0 : Nat) + i * (6 : Nat) + s : Int) = ((0 + i.toNat * 6 + s : Nat) : Int) := by
    omega
  rw [blockIndex_eq, hcolumn, WordFormat.wrap_of_holds, column_natCast hfits (by omega)]
  exact WordFormat.holds_of_le (Int.natCast_nonneg _) (by omega) hfits

@[simp] theorem length_line (d : List Nat) : (line columns d).length = columns := by
  rw [line, List.length_map, List.length_range]

theorem getElem?_line_append {c : Nat} (hc : c < columns) (d : List Nat) (rest : List Bool) :
    (line columns d ++ rest)[c]? = some (d.contains c) := by
  rw [List.getElem?_append_left (by rwa [length_line]), line, List.getElem?_map,
    List.getElem?_range hc, Option.map_some]

theorem getElem?_line_append_add (d : List Nat) (rest : List Bool) (k : Nat) :
    (line columns d ++ rest)[columns + k]? = rest[k]? := by
  rw [List.getElem?_append_right (by rw [length_line]; exact Nat.le_add_right _ _), length_line,
    Nat.add_sub_cancel_left]

theorem getElem?_flatMap_line {c : Nat} (hc : c < columns) (dependencies : List (List Nat))
    (r : Nat) : (dependencies.flatMap fun d ↦ line columns d ++ line columns d)[r * columns + c]?
      = dependencies[r / 2]?.map (·.contains c) := by
  -- Each observation has two lines, so the induction takes off two rows at a time.
  induction dependencies generalizing r with
  | nil => rfl
  | cons d dependencies ih =>
    rw [List.flatMap_cons, List.append_assoc]
    rcases r with _ | _ | r
    · rw [Nat.zero_mul, Nat.zero_add, getElem?_line_append hc]
      rfl
    · rw [Nat.zero_add, Nat.one_mul, getElem?_line_append_add, getElem?_line_append hc]
      rfl
    · have hindex : (r + 2) * columns + c = columns + (columns + (r * columns + c)) := by ring
      rw [hindex, getElem?_line_append_add, getElem?_line_append_add, ih,
        Nat.add_div_right r Nat.two_pos, List.getElem?_cons_succ]

theorem at?_toTensor (s : Sparsity) {c : Nat} (hc : c < s.columns) (r : Nat) :
    s.toTensor.at? r c = s.dependencies[r / 2]?.map (·.contains c) :=
  getElem?_flatMap_line hc s.dependencies r

theorem ofObservations_eq {R : Type} {places : Labelled Int} {o : Observations R} {points : Nat}
    (hcameras : o.cameras.length = o.images.length)
    (hfits : o.cameras ≠ [] → WordFormat.int64.Holds (6 * places.size + 3 * points : Nat))
    {place : Int → Nat} (hplaces : ∀ label ∈ o.cameras,
      places.get? label = some (place label : Int) ∧ place label < places.size)
    {onPoint : Int → List Nat} (honPoints : placeBlocks o.words o.images.length
      (6 * places.size + 3 * points) o.points (6 * places.size) 3 = .ok (o.points.map onPoint)) :
    ofObservations places o points = .ok ⟨6 * places.size + 3 * points,
      List.zipWith (fun label i ↦ block 0 6 (place label) ++ onPoint i) o.cameras o.points⟩ := by
  have hsome : ∀ i ∈ o.cameras.map fun label ↦ (place label : Int),
      WordFormat.int64.Holds (6 * places.size + 3 * points : Nat) ∧ 0 ≤ i ∧
        i * 6 + 6 ≤ (6 * places.size + 3 * points : Nat) := by
    intro i hi
    obtain ⟨label, hlabel, rfl⟩ := List.mem_map.mp hi
    have hplace := (hplaces label hlabel).2
    exact ⟨hfits (List.ne_nil_of_mem hlabel), Int.natCast_nonneg _, by omega⟩
  have hencode : (o.cameras.map fun label ↦ (place label : Int)).mapM WordFormat.int64.encode
      = .ok (o.cameras.map fun label ↦ (place label : Int)) := by
    refine (Jacobian.mapM_eq_ok_map (g := id) fun i hi ↦ ?_).trans
      (congrArg Except.ok (List.map_id _))
    obtain ⟨hcolumns, hnonneg, hle⟩ := hsome i hi
    exact WordFormat.encode_of_holds (WordFormat.holds_of_le hnonneg (by omega) hcolumns)
  have honCameras := placeBlocks_cameras (n := o.images.length)
    (by rw [List.length_map, hcameras]) hsome
  simp only [ofObservations, bind, Except.bind]
  rw [Jacobian.mapM_eq_ok_map (g := fun label ↦ (place label : Int)) ?lookups]
  case lookups =>
    intro label hlabel
    rw [(hplaces label hlabel).1]
  simp only [hencode, honCameras, honPoints, pure, Except.pure, List.map_map,
    List.zipWith_map]
  rfl

end Sparsity

/-- There are as many entries of each kind for the observations. -/
structure Observations.Matched {R : Type} (o : Observations R) : Prop where
  /-- Each observation has a camera. -/
  cameras : o.cameras.length = o.images.length
  /-- Each observation has a point. -/
  points : o.points.length = o.images.length

namespace Bundle

variable {R : Type} {b : Bundle R}

/-- There are as many entries of each kind for the observations, and all points that were seen,
counted from either end. -/
structure IsMatched (b : Bundle R) : Prop where
  /-- The observations are complete. -/
  observations : b.observations.Matched
  /-- The point of each is there. -/
  inRange : ∀ index ∈ b.observations.points,
    -(b.points.length : Int) ≤ index ∧ index < b.points.length

/-- The observations are of points that are there, in cameras that are there. -/
structure WellFormed (b : Bundle R) : Prop where
  /-- Each observation has a camera. -/
  cameras : b.observations.cameras.length = b.observations.images.length
  /-- Each observation has a point. -/
  points : b.observations.points.length = b.observations.images.length
  /-- The camera of each observation is there. -/
  known : ∀ label ∈ b.observations.cameras, label ∈ b.cameras.labels
  /-- The point of each observation is there. -/
  inRange : ∀ index ∈ b.observations.points, 0 ≤ index ∧ index < b.points.length

theorem WellFormed.isMatched (hb : b.WellFormed) : b.IsMatched where
  observations := ⟨hb.cameras, hb.points⟩
  inRange index hindex := by
    obtain ⟨hnonneg, hlt⟩ := hb.inRange index hindex
    exact ⟨(Int.neg_nonpos_of_nonneg (Int.natCast_nonneg _)).trans hnonneg, hlt⟩

/-- The columns of a camera and of a point: the six of the place that the camera has by its label,
and, behind the columns of all cameras, the three of the point. -/
def columnsOf (b : Bundle R) (label index : Int) : List Nat :=
  Sparsity.block 0 6 (b.cameras.labels.idxOf label : Int) ++
    Sparsity.block (6 * b.cameras.size) 3 index

theorem size_places (b : Bundle R) :
    (b.cameras.ranks.map fun _ (place : Nat) ↦ (place : Int)).size = b.cameras.size := by
  rw [Labelled.size_map, Labelled.size, Labelled.size, Labelled.ranks, List.length_map]

theorem get?_places {label : Int} (hlabel : label ∈ b.cameras.labels) :
    (b.cameras.ranks.map fun _ (place : Nat) ↦ (place : Int)).get? label
        = some (b.cameras.labels.idxOf label : Int) ∧
      b.cameras.labels.idxOf label
        < (b.cameras.ranks.map fun _ (place : Nat) ↦ (place : Int)).size := by
  obtain ⟨camera, hcamera⟩ := Labelled.exists_get? hlabel
  have hrank : b.cameras.ranks.get? label = some (b.cameras.labels.idxOf label) := by
    change (b.cameras.map fun label _ ↦ b.cameras.labels.idxOf label).get? label = _
    rw [Labelled.get?_map, hcamera, Option.map_some]
  rw [Labelled.get?_map, hrank, size_places, ← Labelled.length_labels]
  exact ⟨rfl, List.idxOf_lt_length_iff.mpr hlabel⟩

/-- The columns that are marked for a point: they are computed from its number in words, and the
vector is counted from either end. -/
def markedColumns (b : Bundle R) (index : Int) : List Nat :=
  (List.range 3).map fun (s : Nat) ↦ (b.observations.words.asIndex.wrap
    ((6 * b.cameras.size : Nat) + index * (3 : Nat) + s) % b.dimension).toNat

/-- The columns of the observations can be looked up: there is a word for the first column of the
points, and, if anything was seen, an index for every column. -/
structure IsAddressable (b : Bundle R) : Prop where
  /-- There is a word for the first column of the points. -/
  start : b.observations.words.Holds (6 * b.cameras.size : Nat)
  /-- There is an index for every column, unless none is looked up. -/
  columns : b.observations.cameras ≠ [] → WordFormat.int64.Holds b.dimension

/-- There is a word for the last of the columns that are computed from the number of a point. -/
def HasRoomFor (b : Bundle R) (index : Int) : Prop :=
  b.observations.words.asIndex.Holds (6 * b.cameras.size + index * 3 + 2)

/-- The words in which the numbers of the points are given are wide enough for their columns. -/
structure HasRoom (b : Bundle R) : Prop extends b.IsAddressable where
  /-- There is room for each point that was seen. -/
  room : ∀ index ∈ b.observations.points, b.HasRoomFor index

theorem IsMatched.cameras_ne_nil (hb : b.IsMatched) {index : Int}
    (hindex : index ∈ b.observations.points) : b.observations.cameras ≠ [] := by
  intro hnil
  have hlength := hb.observations.cameras.trans hb.observations.points.symm
  rw [hnil] at hlength
  exact List.ne_nil_of_mem hindex (List.length_eq_zero_iff.mp hlength.symm)

theorem IsAddressable.holds_start (h : b.IsAddressable) (hsome : b.observations.cameras ≠ []) :
    b.observations.words.asIndex.Holds (6 * b.cameras.size : Nat) := by
  refine WordFormat.holds_asIndex h.start (WordFormat.holds_of_le (Int.natCast_nonneg _) ?_
    (h.columns hsome))
  rw [dimension]
  omega

/-- The pattern lists the columns of each camera, and for each point those that are marked. -/
theorem IsMatched.sparsity (hb : b.IsMatched) (haddress : b.IsAddressable)
    (hknown : ∀ label ∈ b.observations.cameras, label ∈ b.cameras.labels) :
    b.sparsity = .ok ⟨b.dimension, List.zipWith (fun label index ↦
      Sparsity.block 0 6 (b.cameras.labels.idxOf label : Int) ++ b.markedColumns index)
        b.observations.cameras b.observations.points⟩ := by
  have honPoints : Sparsity.placeBlocks b.observations.words b.observations.images.length
      (6 * b.cameras.size + 3 * b.points.length) b.observations.points (6 * b.cameras.size) 3
        = .ok (b.observations.points.map b.markedColumns) := by
    unfold markedColumns
    refine Sparsity.placeBlocks_eq haddress.start hb.observations.points fun index hindex s hs ↦ ?_
    have hrange := hb.inRange index hindex
    have hholds := b.observations.holds_points index hindex
    have hcolumns : b.dimension = 6 * b.cameras.size + 3 * b.points.length := rfl
    rw [Sparsity.blockIndex_eq]
    refine Sparsity.column_of_inRange (haddress.columns (hb.cameras_ne_nil hindex))
      (WordFormat.wrap_inRange ?_ (by omega))
    rw [WordFormat.Holds] at hholds
    omega
  have hfits := haddress.columns
  rw [dimension, ← size_places] at hfits
  rw [← size_places] at honPoints
  have hsparsity := Sparsity.ofObservations_eq hb.observations.cameras hfits
    (fun label hlabel ↦ get?_places (hknown label hlabel)) honPoints
  rwa [size_places] at hsparsity

theorem known_of_sparsity {s : Sparsity} (hs : b.sparsity = .ok s) :
    ∀ label ∈ b.observations.cameras, label ∈ b.cameras.labels := by
  intro label hlabel
  obtain ⟨places, hplaces, -⟩ := Jacobian.exists_of_bind_eq_ok hs
  obtain ⟨place, hplace⟩ := Jacobian.exists_of_mapM_eq_ok hplaces label hlabel
  by_contra hnot
  have hnone : b.cameras.get? label = none :=
    Labelled.lookup_eq_none (mt Labelled.mem_labels.mpr hnot)
  have hrank : b.cameras.ranks.get? label = none := by
    change (b.cameras.map fun label _ ↦ b.cameras.labels.idxOf label).get? label = none
    rw [Labelled.get?_map, hnone]
    rfl
  rw [Labelled.get?_map, hrank] at hplace
  exact nomatch hplace

theorem IsMatched.isAddressable (hb : b.IsMatched) {s : Sparsity} (hs : b.sparsity = .ok s) :
    b.IsAddressable := by
  obtain ⟨places, hplaces, hs⟩ := Jacobian.exists_of_bind_eq_ok hs
  obtain ⟨places', hencoded, hs⟩ := Jacobian.exists_of_bind_eq_ok hs
  obtain ⟨onCameras, honCameras, hs⟩ := Jacobian.exists_of_bind_eq_ok hs
  obtain ⟨onPoints, honPoints, -⟩ := Jacobian.exists_of_bind_eq_ok hs
  have hlength : places'.length = b.observations.images.length := by
    rw [← (Jacobian.mapM_eq_ok_iff.mp hencoded).length_eq,
      ← (Jacobian.mapM_eq_ok_iff.mp hplaces).length_eq, hb.observations.cameras]
  rw [size_places] at honCameras honPoints
  refine ⟨(Sparsity.holds_of_placeBlocks honPoints).1, fun hsome ↦
    (Sparsity.holds_of_placeBlocks honCameras).2 (by decide) hlength ?_⟩
  rw [← List.length_pos_iff, hlength, ← hb.observations.cameras, List.length_pos_iff]
  exact hsome

theorem markedColumns_eq_block {index : Int} (h : 0 ≤ index ∧ index < b.points.length)
    (hroom : b.HasRoomFor index) :
    b.markedColumns index = Sparsity.block (6 * b.cameras.size) 3 index := by
  rw [markedColumns, Sparsity.block]
  refine List.map_congr_left fun s hs ↦ ?_
  have hs' := List.mem_range.mp hs
  rw [WordFormat.wrap_of_holds (WordFormat.holds_of_le (by omega) (by omega) hroom),
    Int.emod_eq_of_lt (by omega) (by rw [dimension]; omega)]
  omega

/-- If all columns of the point that an index means are marked for it, then the index is counted
from the start, and there is room for it. -/
theorem hasRoomFor_of_subset_markedColumns (hsize : b.cameras.size ≠ 0)
    (hstart : b.observations.words.asIndex.Holds (6 * b.cameras.size : Nat)) {index : Int}
    (hindex : b.observations.words.asIndex.Holds index) {row : Nat}
    (hrow : position? index b.points.length = some row)
    (hall : Sparsity.block (6 * b.cameras.size) 3 row ⊆ b.markedColumns index) :
    0 ≤ index ∧ b.HasRoomFor index := by
  have hrange := inRange_of_position? hrow
  have hmeans := WordFormat.emod_cases hrange
  have hlt := position?_lt hrow
  rw [position?_of_inRange hrange, Option.some.injEq] at hrow
  generalize index % (b.points.length : Int) = place at hmeans hrow
  have hplace : 0 ≤ (row : Int) ∧ (row : Int) < b.points.length := by omega
  have hmeans' : (row : Int) = index ∨ index < 0 ∧ (row : Int) = index + b.points.length := by omega
  refine WordFormat.holds_of_forall_column (Nat.pos_of_ne_zero hsize) hstart hindex hplace hmeans'
    fun t ht ↦ ?_
  have ht' : 0 ≤ t ∧ t < 3 := by fin_cases ht <;> decide
  have hcolumn : 6 * b.cameras.size + row * 3 + t.toNat ∈ b.markedColumns index := hall
    (Sparsity.mem_block.mpr (by omega))
  obtain ⟨s, hs, hcolumn⟩ := List.mem_map.mp hcolumn
  have hpositive : (0 : Int) < b.dimension := by rw [dimension]; omega
  refine ⟨s, ?_, ?_⟩
  · have hs' := List.mem_range.mp hs
    simp only [List.mem_cons, List.not_mem_nil, or_false]
    omega
  · have hnonneg := Int.emod_nonneg (b.observations.words.asIndex.wrap
      ((6 * b.cameras.size : Nat) + index * (3 : Nat) + s)) hpositive.ne'
    have heq := (Int.toNat_of_nonneg hnonneg).symm.trans (congrArg Nat.cast hcolumn)
    rw [dimension] at heq
    refine heq.trans ?_
    omega

theorem IsMatched.at?_toTensor (hb : b.IsMatched) {s : Sparsity} (hs : b.sparsity = .ok s)
    {k : Nat} {label index : Int} (hlabel : b.observations.cameras[k]? = some label)
    (hindex : b.observations.points[k]? = some index) {c : Nat} (hc : c < b.dimension) {r : Nat}
    (hr : r / 2 = k) :
    s.toTensor.at? r c = some (decide (c ∈ Sparsity.block 0 6
      (b.cameras.labels.idxOf label : Int) ∨ c ∈ b.markedColumns index)) := by
  obtain rfl := Except.ok.inj
    (hs.symm.trans (hb.sparsity (hb.isAddressable hs) (known_of_sparsity hs)))
  rw [Sparsity.at?_toTensor _ hc, hr]
  dsimp only
  rw [List.getElem?_zipWith, hlabel, hindex, Option.map_some, List.contains_eq_mem]
  simp only [List.mem_append]

theorem IsMatched.shape_toTensor (hb : b.IsMatched) {s : Sparsity} (hs : b.sparsity = .ok s) :
    s.toTensor.shape = [b.conditions, b.dimension] := by
  obtain rfl := Except.ok.inj
    (hs.symm.trans (hb.sparsity (hb.isAddressable hs) (known_of_sparsity hs)))
  change [2 * (List.zipWith _ _ _).length, _] = _
  rw [List.length_zipWith, hb.observations.cameras, hb.observations.points, Nat.min_self]
  rfl

theorem WellFormed.at?_eq_some_true_iff (hb : b.WellFormed) (hroom : b.HasRoom) {s : Sparsity}
    (hs : b.sparsity = .ok s) {k : Nat} {label index : Int}
    (hlabel : b.observations.cameras[k]? = some label)
    (hindex : b.observations.points[k]? = some index) {c : Nat} (hc : c < b.dimension) {r : Nat}
    (hr : r / 2 = k) : s.toTensor.at? r c = some true ↔ c ∈ b.columnsOf label index := by
  have hmem := List.mem_of_getElem? hindex
  rw [hb.isMatched.at?_toTensor hs hlabel hindex hc hr, Option.some.injEq, decide_eq_true_iff,
    markedColumns_eq_block (hb.inRange index hmem) (hroom.room index hmem), columnsOf,
    List.mem_append]

theorem WellFormed.lt_dimension (hb : b.WellFormed) {label index : Int}
    (hlabel : label ∈ b.observations.cameras) (hindex : index ∈ b.observations.points) {c : Nat}
    (hc : c ∈ b.columnsOf label index) : c < b.dimension := by
  have hrank := List.idxOf_lt_length_iff.mpr (hb.known label hlabel)
  have hrange := hb.inRange index hindex
  rw [Labelled.length_labels] at hrank
  rw [columnsOf, List.mem_append, Sparsity.mem_block, Sparsity.mem_block] at hc
  rw [dimension]
  omega

/-! ## The numbers that a residual reads -/

theorem length_points_of_laidOut {x : List R} (hx : x.length = b.dimension) {p : Parameters R}
    (hp : p.LaidOut b.cameras.size x) : p.points.length = b.points.length := by
  have hlength := hp.length
  rw [hx, dimension] at hlength
  omega

theorem IsMatched.covered (hb : b.IsMatched) {x : List R} (hx : x.length = b.dimension)
    {p : Parameters R} (hp : p.LaidOut b.cameras.size x) : b.Covered p := by
  refine ⟨hb.observations.cameras, hb.observations.points, hp.length_poses, fun index hindex ↦ ?_⟩
  have hpoints := length_points_of_laidOut hx hp
  have hrow := position?_of_inRange (hpoints.symm ▸ hb.inRange index hindex)
  rw [pointAt, hrow, Option.bind_some, List.getElem?_eq_getElem (position?_lt hrow)]
  exact ⟨_, rfl⟩

section

variable {x : List R} {c : Nat} {a : R} {p p' : Parameters R} {label index : Int}
  (hp : p.LaidOut b.cameras.size x) (hp' : p'.LaidOut b.cameras.size (x.set c a))
  (hc : c ∉ b.columnsOf label index)

include hp hp' hc

theorem pointAt_set (hindex : 0 ≤ index ∧ index < p.points.length) :
    pointAt p'.points index = pointAt p.points index := by
  obtain ⟨j, rfl⟩ := Int.eq_ofNat_of_zero_le hindex.1
  have hj : j < p.points.length := Int.ofNat_lt.mp hindex.2
  rw [columnsOf, List.mem_append, not_or, Sparsity.mem_block, Sparsity.mem_block] at hc
  have hpoint : p'.points[j]? = p.points[j]? := hp.point_set hp' (by omega)
  rw [pointAt, pointAt, hp.length_points_set hp', position?_natCast hj, Option.bind_some,
    Option.bind_some, hpoint]

theorem pose_set (hlabel : label ∈ b.cameras.labels) :
    p'.poses[b.cameras.labels.idxOf label]? = p.poses[b.cameras.labels.idxOf label]? := by
  rw [columnsOf, List.mem_append, not_or, Sparsity.mem_block, Sparsity.mem_block] at hc
  have hrank := List.idxOf_lt_length_iff.mpr hlabel
  rw [Labelled.length_labels] at hrank
  exact hp.pose_set hp' hrank (by omega)

theorem imageOf?_set [CircularScalar R] (hlabel : label ∈ b.cameras.labels)
    (hindex : 0 ≤ index ∧ index < p.points.length) :
    b.imageOf? p' label index = b.imageOf? p label index := by
  simp only [imageOf?, seen?, pointAt_set hp hp' hc hindex, pose_set hp hp' hc hlabel]

end

variable [CircularScalar R]

theorem WellFormed.residualOf_set (hb : b.WellFormed) (hroom : b.HasRoom) {s : Sparsity}
    (hs : b.sparsity = .ok s) {x : List R} (hx : x.length = b.dimension) {r c : Nat} {a : R}
    (hc : c < x.length) (hzero : s.toTensor.at? r c ≠ some true) {p p' : Parameters R}
    (hp : p.LaidOut b.cameras.size x) (hp' : p'.LaidOut b.cameras.size (x.set c a)) :
    (b.residualOf p').map (·[r]?) = (b.residualOf p).map (·[r]?) := by
  have hcovered := hb.isMatched.covered hx hp
  have hcovered' := hb.isMatched.covered (x.length_set.trans hx) hp'
  by_cases hlens : b.HasLenses b.cameras.entries
  · obtain ⟨y, hy, hlength, hentries⟩ := exists_residualOf hcovered hlens
    obtain ⟨y', hy', hlength', hentries'⟩ := exists_residualOf hcovered' hlens
    have hrow : y'[r]? = y[r]? := by
      by_cases hk : r / 2 < b.observations.images.length
      · have hlabel := List.getElem?_eq_getElem (hb.cameras.symm ▸ hk)
        have hindex := List.getElem?_eq_getElem (hb.points.symm ▸ hk)
        have hcolumn : c ∉ b.columnsOf _ _ := fun hmem ↦
          hzero ((hb.at?_eq_some_true_iff hroom hs hlabel hindex (hx ▸ hc) rfl).mpr hmem)
        have himage := imageOf?_set hp hp' hcolumn
          (hb.known _ (List.mem_of_getElem? hlabel))
          (length_points_of_laidOut hx hp ▸ hb.inRange _ (List.mem_of_getElem? hindex))
        obtain ⟨hu, hv⟩ := hentries _ _ _ _ hlabel hindex (List.getElem?_eq_getElem hk)
        obtain ⟨hu', hv'⟩ := hentries' _ _ _ _ hlabel hindex (List.getElem?_eq_getElem hk)
        rcases Nat.mod_two_eq_zero_or_one r with hr | hr
        · have heven : r = 2 * (r / 2) := by omega
          rw [heven, hu, hu', himage]
        · have hodd : r = 2 * (r / 2) + 1 := by omega
          rw [hodd, hv, hv', himage]
      · rw [List.getElem?_eq_none (by omega), List.getElem?_eq_none (by omega)]
    rw [hy, hy']
    exact congrArg Except.ok hrow
  · -- Whether there are residuals does not depend on the parameters.
    rw [residualOf_of_not_hasLenses hcovered hlens, residualOf_of_not_hasLenses hcovered' hlens]

theorem residual_of_ofVector {x : List R} {p : Parameters R}
    (hp : Parameters.ofVector b.cameras.size x = .ok p) : b.residual x = b.residualOf p := by
  rw [residual, hp]
  rfl

/-- **The pattern of a bundle tells the truth** about its residuals. -/
theorem WellFormed.tellsTruth (hb : b.WellFormed) (hroom : b.HasRoom) {s : Sparsity}
    (hs : b.sparsity = .ok s) {x : List R} (hx : x.length = b.dimension) :
    s.toTensor.TellsTruth b.residual x := by
  intro r c a hc hzero
  obtain ⟨p, hp⟩ := Parameters.exists_ofVector hx
  obtain ⟨p', hp'⟩ := Parameters.exists_ofVector ((x.length_set (i := c) (a := a)).trans hx)
  rw [residual_of_ofVector hp, residual_of_ofVector hp']
  exact hb.residualOf_set hroom hs hx hc hzero (Parameters.laidOut_of_ofVector hp)
    (Parameters.laidOut_of_ofVector hp')

theorem WellFormed.length_of_residual (hb : b.WellFormed) {x y : List R}
    (hx : x.length = b.dimension) (hy : b.residual x = .ok y) : y.length = b.conditions := by
  obtain ⟨p, hp⟩ := Parameters.exists_ofVector hx
  have hcovered := hb.isMatched.covered hx (Parameters.laidOut_of_ofVector hp)
  rw [residual_of_ofVector hp] at hy
  by_cases hlens : b.HasLenses b.cameras.entries
  · obtain ⟨y', hy', hlength, -⟩ := exists_residualOf hcovered hlens
    obtain rfl := Except.ok.inj (hy'.symm.trans hy)
    exact hlength
  · exact nomatch (residualOf_of_not_hasLenses hcovered hlens).symm.trans hy

theorem WellFormed.exists_residual (hb : b.WellFormed) (hlens : b.HasLenses b.cameras.entries)
    {x : List R} (hx : x.length = b.dimension) : ∃ y, b.residual x = .ok y := by
  obtain ⟨p, hp⟩ := Parameters.exists_ofVector hx
  have hcovered := hb.isMatched.covered hx (Parameters.laidOut_of_ofVector hp)
  obtain ⟨y, hy, -⟩ := exists_residualOf hcovered hlens
  exact ⟨y, (residual_of_ofVector hp).trans hy⟩

/-- A pattern is what the residuals of a bundle depend on. -/
structure IsDependency (b : Bundle R) (s : Sparsity) : Prop where
  /-- There is a row for each residual and a column for each parameter. -/
  shape : s.toTensor.shape = [b.conditions, b.dimension]
  /-- The columns of the camera and of the point of an observation are there. -/
  inRange : ∀ (k : Nat) (label index : Int), b.observations.cameras[k]? = some label →
    b.observations.points[k]? = some index → ∀ c ∈ b.columnsOf label index, c < b.dimension
  /-- In the two rows of the observation these are marked and no others. -/
  marked : ∀ (k : Nat) (label index : Int), b.observations.cameras[k]? = some label →
    b.observations.points[k]? = some index → ∀ c < b.dimension,
      (s.toTensor.at? (2 * k) c = some true ↔ c ∈ b.columnsOf label index) ∧
      (s.toTensor.at? (2 * k + 1) c = some true ↔ c ∈ b.columnsOf label index)
  /-- Changing a number in a column that is not marked in a row leaves the residual of the row as it
  was. -/
  independent : ∀ x : List R, x.length = b.dimension → ∀ r c a, c < b.dimension →
    s.toTensor.at? r c ≠ some true →
      (b.residual (x.set c a)).map (·[r]?) = (b.residual x).map (·[r]?)
  /-- Where the residuals are finite the Jacobian is the same without the pattern, whichever
  variables are active, whoever does the work, and for every step that a configuration allows, which
  are the positive ones. -/
  jacobian : ∀ x y : List R, x.length = b.dimension → b.residual x = .ok y →
    (∀ e ∈ y, Scalar.isFinite e = true) → ∀ (active : List Int) (h : Amount R) calls workers,
      (∀ var ∈ active, ∃ v, position? var x.length = some v) → 0 < h.toScalar →
      Jacobian.compute (fun _ ↦ b.residual) calls x (.ofList y) active h workers (some s.toTensor)
        = Jacobian.compute (fun _ ↦ b.residual) calls x (.ofList y) active h workers none

theorem WellFormed.isDependency [LawfulDifference R] (hb : b.WellFormed) (hroom : b.HasRoom)
    {s : Sparsity} (hs : b.sparsity = .ok s) : b.IsDependency s where
  shape := hb.isMatched.shape_toTensor hs
  inRange k label index hlabel hindex c :=
    hb.lt_dimension (List.mem_of_getElem? hlabel) (List.mem_of_getElem? hindex)
  marked k label index hlabel hindex c hc :=
    ⟨hb.at?_eq_some_true_iff hroom hs hlabel hindex hc (Nat.mul_div_cancel_left k Nat.two_pos),
      hb.at?_eq_some_true_iff hroom hs hlabel hindex hc (by omega)⟩
  independent x hx r c a hc := hb.tellsTruth hroom hs hx r c a (hx ▸ hc)
  jacobian x y hx hy hfinite active h calls workers hactive hh := by
    refine Jacobian.compute_eq_of_tellsTruth (hb.tellsTruth hroom hs hx) ?_ hy hfinite hactive hh
      calls workers
    rw [hb.isMatched.shape_toTensor hs, hb.length_of_residual hx hy, hx]

/-- A pattern that marks the columns of the observations has room for them. -/
theorem WellFormed.hasRoom (hb : b.WellFormed) {s : Sparsity} (hs : b.sparsity = .ok s)
    (hdependency : b.IsDependency s) : b.HasRoom := by
  have haddress := hb.isMatched.isAddressable hs
  refine ⟨haddress, fun index hindex ↦ ?_⟩
  have hsome := hb.isMatched.cameras_ne_nil hindex
  obtain ⟨k, hk⟩ := List.mem_iff_getElem?.mp hindex
  have hlt := (List.getElem?_eq_some_iff.mp hk).1
  rw [hb.points, ← hb.cameras] at hlt
  have hlabel := List.getElem?_eq_getElem hlt
  have hrank := List.idxOf_lt_length_iff.mpr (hb.known _ (List.mem_of_getElem? hlabel))
  rw [Labelled.length_labels] at hrank
  obtain ⟨row, hrow⟩ := Int.eq_ofNat_of_zero_le (hb.inRange index hindex).1
  subst hrow
  refine (hasRoomFor_of_subset_markedColumns (Nat.ne_zero_of_lt hrank) (haddress.holds_start hsome)
    (b.observations.holds_points _ hindex)
    (position?_natCast (Int.ofNat_lt.mp (hb.inRange _ hindex).2)) fun c hc ↦ ?_).2
  -- The columns of the point are marked, and not because they belong to a camera.
  have hown : c ∈ b.columnsOf b.observations.cameras[k] row := List.mem_append_right _ hc
  have hcolumn := hdependency.inRange k _ _ hlabel hk c hown
  have hmarked := ((hdependency.marked k _ _ hlabel hk c hcolumn).1.mpr hown).symm.trans
    (hb.isMatched.at?_toTensor hs hlabel hk hcolumn (Nat.mul_div_cancel_left k Nat.two_pos))
  rw [Option.some.injEq, eq_comm, decide_eq_true_iff] at hmarked
  refine hmarked.resolve_left fun hcamera ↦ ?_
  rw [Sparsity.mem_block] at hc hcamera
  omega

/-- A camera sees point 90 of a hundred, whose number is given in eight bits. Of its columns 276,
277 and 278 only 20, 21 and 22 are left. -/
example : Sparsity.placeBlocks .uint8 1 306 [90] 6 3 = .ok [[20, 21, 22]] := by decide

instance : LawfulDifference ℝ where
  div_sub_self {a h} _ _ := by
    change (a - a) / h = (0 : ℝ)
    rw [sub_self, zero_div]

/-- A camera that only divides by depth, where the axes are. -/
noncomputable def pinhole : Camera ℝ where
  intrinsics := ⟨⟨[3, 3], [1, 0, 0, 0, 1, 0, 0, 0, 1], rfl⟩, ⟨[0], [], rfl⟩⟩
  pose := ⟨Mat3.identity.toTensor, .ofList [0, 0, 0]⟩

/-- Two cameras, each of which sees a point of its own. -/
noncomputable def twoViews : Bundle ℝ where
  cameras := ⟨[(7, pinhole), (3, pinhole)], by decide⟩
  observations := .ofWords .int32 [3, 7] [⟨0, 0⟩, ⟨1, 1⟩] [1, 0]
  points := [⟨0, 0, 1⟩, ⟨1, 0, 1⟩]

theorem labels_twoViews : twoViews.cameras.labels = [3, 7] := by
  simp [Labelled.labels, Labelled.sorted, Labelled.sortByLabel, twoViews, List.mergeSort]

end Bundle

end DampedLeastSquares
