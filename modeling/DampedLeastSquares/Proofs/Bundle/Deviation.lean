import DampedLeastSquares.Proofs.Bundle.Answering
import DampedLeastSquares.Proofs.Bundle.PointColumns
import Mathlib.Algebra.Order.BigOperators.Group.Finset

/-!
# How far the images are off

The deviation of a bundle is computed from the residuals at the vector that it stores: the two of an
observation make a distance, and of the distances the root of the mean square is taken, once of all
and once of those of each camera that saw something.

Every observation belongs to exactly one camera. So the squares of the distances of all cameras
together are the squares of all residuals, and the deviation over all observations is the root of a
mean of the squares of the deviations of the cameras, each weighted with the number of its
observations. That is why it lies between them.
-/

namespace DampedLeastSquares

/-! ## Masks -/

section

variable {α β : Type}

theorem selected_map (f : α → β) (mask : List Bool) (xs : List α) :
    selected mask (xs.map f) = (selected mask xs).map f := by
  induction mask generalizing xs with
  | nil => rfl
  | cons kept mask ih =>
    cases xs with
    | nil => cases kept <;> rfl
    | cons x xs =>
      cases kept with
      | true => exact congrArg (f x :: ·) (ih xs)
      | false => exact ih xs

theorem length_selected {mask : List Bool} {xs : List α} (h : mask.length = xs.length) :
    (selected mask xs).length = mask.count true := by
  induction mask generalizing xs with
  | nil => rfl
  | cons kept mask ih =>
    obtain ⟨x, xs, rfl⟩ := List.exists_cons_of_length_eq_add_one h.symm
    cases kept with
    | true => exact (congrArg (· + 1) (ih (Nat.succ.inj h))).trans List.count_cons_self.symm
    | false => exact (ih (Nat.succ.inj h)).trans (List.count_cons_of_ne Bool.false_ne_true).symm

theorem selected_range (mask : List Bool) :
    selected mask (List.range mask.length) =
      (List.range mask.length).filter fun k ↦ mask[k]? = some true := by
  induction mask with
  | nil => rfl
  | cons kept mask ih =>
    have hlater : selected mask ((List.range mask.length).map Nat.succ) =
        ((List.range mask.length).map Nat.succ).filter fun k ↦ (kept :: mask)[k]? = some true := by
      rw [selected_map, ih, List.filter_map]
      rfl
    rw [List.length_cons, List.range_succ_eq_map]
    cases kept with
    | true =>
      rw [List.filter_cons_of_pos (by rfl)]
      exact congrArg (0 :: ·) hlater
    | false =>
      rw [List.filter_cons_of_neg Bool.false_ne_true]
      exact hlater

end

namespace Bundle

/-! ## Distances -/

/-- The square of the distance of the observation number `k`, from its two residuals. -/
def squareAt (e : List ℝ) (k : ℕ) : ℝ := e.getD (2 * k) 0 ^ 2 + e.getD (2 * k + 1) 0 ^ 2

theorem norm_mul_norm (u v : ℝ) : Linear.norm [u, v] * Linear.norm [u, v] = u ^ 2 + v ^ 2 := by
  have hsum : Linear.sumSquares [u, v] = u ^ 2 + v ^ 2 := by
    rw [Linear.sumSquares, Linear.sum_eq]
    simp only [List.map_cons, List.map_nil, List.sum_cons, List.sum_nil]
    ring
  rw [Linear.norm, hsum]
  exact Real.mul_self_sqrt (by positivity)

variable {e : List ℝ} {n : ℕ}

theorem map_distances (he : e.length = 2 * n) :
    (distances e).map (fun d ↦ d * d) = (List.range n).map (squareAt e) := by
  induction n generalizing e with
  | zero =>
    rw [List.length_eq_zero_iff.mp he]
    rfl
  | succ n ih =>
    obtain ⟨u, e, rfl⟩ := List.exists_cons_of_length_eq_add_one he
    obtain ⟨v, e, rfl⟩ := List.exists_cons_of_length_eq_add_one (Nat.succ.inj he)
    have hrest : e.length = 2 * n := Nat.succ.inj (Nat.succ.inj he)
    rw [distances, List.map_cons, ih hrest, norm_mul_norm, List.range_succ_eq_map,
      List.map_cons, List.map_map]
    rfl

theorem length_distances (he : e.length = 2 * n) : (distances e).length = n := by
  have hlength := congrArg List.length (map_distances he)
  rwa [List.length_map, List.length_map, List.length_range] at hlength

theorem sum_squareAt (he : e.length = 2 * n) :
    ∑ k ∈ Finset.range n, squareAt e k = Linear.dot e e := by
  induction n generalizing e with
  | zero =>
    rw [List.length_eq_zero_iff.mp he]
    rfl
  | succ n ih =>
    obtain ⟨u, e, rfl⟩ := List.exists_cons_of_length_eq_add_one he
    obtain ⟨v, e, rfl⟩ := List.exists_cons_of_length_eq_add_one (Nat.succ.inj he)
    have hrest : e.length = 2 * n := Nat.succ.inj (Nat.succ.inj he)
    rw [Finset.sum_range_succ', Linear.dot_cons, Linear.dot_cons, ← ih hrest]
    change _ + (u ^ 2 + v ^ 2) = _
    have hshift : ∀ k, squareAt (u :: v :: e) (k + 1) = squareAt e k := fun k ↦ rfl
    simp only [hshift]
    ring

/-! ## Root mean squares -/

theorem rootMeanSquare_nonneg (xs : List ℝ) : 0 ≤ rootMeanSquare xs := Real.sqrt_nonneg _

/-- The square of the root of the mean, as often as there are numbers, is the sum of the squares.
Without numbers both are zero. -/
theorem length_mul_rootMeanSquare (xs : List ℝ) :
    xs.length * rootMeanSquare xs ^ 2 = (xs.map fun x ↦ x * x).sum := by
  by_cases hxs : xs = []
  · rw [hxs, List.length_nil, Nat.cast_zero, zero_mul]
    rfl
  · have hlength : (xs.length : ℝ) ≠ 0 := by exact_mod_cast mt List.length_eq_zero_iff.mp hxs
    have hnonneg : 0 ≤ (xs.map fun x ↦ x * x).sum / xs.length := by
      refine div_nonneg (List.sum_nonneg fun y hy ↦ ?_) xs.length.cast_nonneg
      obtain ⟨x, -, rfl⟩ := List.mem_map.mp hy
      exact mul_self_nonneg x
    have hsq : rootMeanSquare xs ^ 2 = (xs.map fun x ↦ x * x).sum / xs.length := by
      rw [rootMeanSquare, Linear.mean_eq, List.length_map]
      exact Real.sq_sqrt hnonneg
    rw [hsq, mul_div_cancel₀ _ hlength]

theorem length_mul_overall (he : e.length = 2 * n) :
    (n : ℝ) * rootMeanSquare (distances e) ^ 2 = Linear.dot e e := by
  have hsquares := length_mul_rootMeanSquare (distances e)
  rw [map_distances he, length_distances he] at hsquares
  exact hsquares.trans (sum_squareAt he)

theorem overall_sq (he : e.length = 2 * n) (hn : n ≠ 0) :
    rootMeanSquare (distances e) ^ 2 = 2 * Linear.rms e ^ 2 := by
  have hne : e ≠ [] := by
    rintro rfl
    exact hn (by simpa using he.symm)
  have hrms : Linear.rms e ^ 2 = Linear.dot e e / e.length := by
    rw [Linear.rms_of_ne_nil hne]
    exact Real.sq_sqrt (div_nonneg (Linear.dot_self_nonneg e) e.length.cast_nonneg)
  rw [hrms, ← length_mul_overall he, he]
  push_cast
  field_simp

theorem exists_le_and_exists_ge {labels : Finset ℤ} (hlabels : labels.Nonempty) {w r : ℤ → ℝ}
    (hw : ∀ l ∈ labels, 0 < w l) (hr : ∀ l, 0 ≤ r l) {overall : ℝ} (hoverall : 0 ≤ overall)
    (h : (∑ l ∈ labels, w l) * overall ^ 2 = ∑ l ∈ labels, w l * r l ^ 2) :
    (∃ l ∈ labels, r l ≤ overall) ∧ ∃ l ∈ labels, overall ≤ r l := by
  rw [Finset.sum_mul] at h
  constructor
  · by_contra hnone
    refine h.not_lt (Finset.sum_lt_sum_of_nonempty hlabels fun l hl ↦ ?_)
    have hlt : overall < r l := not_le.mp fun hle ↦ hnone ⟨l, hl, hle⟩
    exact mul_lt_mul_of_pos_left (pow_lt_pow_left₀ hlt hoverall two_ne_zero) (hw l hl)
  · by_contra hnone
    refine h.not_gt (Finset.sum_lt_sum_of_nonempty hlabels fun l hl ↦ ?_)
    have hlt : r l < overall := not_le.mp fun hle ↦ hnone ⟨l, hl, hle⟩
    exact mul_lt_mul_of_pos_left (pow_lt_pow_left₀ hlt (hr l) two_ne_zero) (hw l hl)

/-! ## The observations of a camera -/

variable {o : Observations ℝ} {label : ℤ}

/-- The positions of the observations of a camera. -/
def placesOf (o : Observations ℝ) (label : ℤ) : Finset ℕ :=
  {k ∈ Finset.range o.images.length | o.cameras[k]? = some label}

theorem selected_ofCamera (h : o.cameras.length = o.images.length) :
    selected (o.ofCamera label) (List.range o.images.length) =
      (List.range o.images.length).filter fun k ↦ o.cameras[k]? = some label := by
  have hlength : (o.ofCamera label).length = o.images.length := (List.length_map _).trans h
  rw [← hlength, selected_range]
  refine List.filter_congr fun k hk ↦ ?_
  rw [List.mem_range, hlength, ← h] at hk
  have hcamera := List.getElem?_eq_getElem hk
  rw [decide_eq_decide, getElem?_ofCamera o hcamera, hcamera, Option.some_inj]

theorem length_selected_ofCamera {α : Type} {xs : List α} (h : o.cameras.length = xs.length) :
    (selected (o.ofCamera label) xs).length = o.cameras.count label := by
  have hlength : (o.ofCamera label).length = xs.length := (List.length_map _).trans h
  rw [length_selected hlength, Observations.ofCamera, List.count, List.countP_map, List.count]
  refine List.countP_congr fun l _ ↦ ?_
  rw [Function.comp_apply, beq_true]

theorem count_eq_card (h : o.cameras.length = o.images.length) :
    o.cameras.count label = (placesOf o label).card := by
  have hrange : o.cameras.length = (List.range o.images.length).length := by
    rw [List.length_range, h]
  rw [← length_selected_ofCamera hrange, selected_ofCamera h]
  rfl

theorem count_mul_rootMeanSquare (h : o.cameras.length = o.images.length)
    (he : e.length = 2 * o.images.length) :
    (o.cameras.count label : ℝ) * rootMeanSquare (selected (o.ofCamera label) (distances e)) ^ 2 =
      ∑ k ∈ placesOf o label, squareAt e k := by
  rw [← length_selected_ofCamera (h.trans (length_distances he).symm), length_mul_rootMeanSquare,
    ← selected_map, map_distances he, selected_map, selected_ofCamera h]
  rfl

theorem sum_placesOf {labels : Finset ℤ} (h : o.cameras.length = o.images.length)
    (hlabels : ∀ label ∈ o.cameras, label ∈ labels) (f : ℕ → ℝ) :
    ∑ label ∈ labels, ∑ k ∈ placesOf o label, f k = ∑ k ∈ Finset.range o.images.length, f k := by
  have hmaps : ∀ k ∈ Finset.range o.images.length,
      o.cameras[k]? ∈ labels.map Function.Embedding.some := by
    intro k hk
    rw [Finset.mem_range, ← h] at hk
    have hcamera := List.getElem?_eq_getElem hk
    rw [hcamera]
    exact Finset.mem_map_of_mem _ (hlabels _ (List.getElem_mem hk))
  rw [← Finset.sum_fiberwise_of_maps_to hmaps, Finset.sum_map]
  rfl

theorem sum_count {labels : Finset ℤ} (h : o.cameras.length = o.images.length)
    (hlabels : ∀ label ∈ o.cameras, label ∈ labels) :
    ∑ label ∈ labels, (o.cameras.count label : ℝ) = o.images.length := by
  have hones := sum_placesOf h hlabels fun _ ↦ 1
  simp only [Finset.sum_const, nsmul_eq_mul, mul_one, Finset.card_range] at hones
  rw [← hones]
  exact Finset.sum_congr rfl fun label _ ↦ by rw [count_eq_card h]

theorem sum_count_mul {labels : Finset ℤ} (h : o.cameras.length = o.images.length)
    (he : e.length = 2 * o.images.length) (hlabels : ∀ label ∈ o.cameras, label ∈ labels) :
    ∑ label ∈ labels, (o.cameras.count label : ℝ) *
        rootMeanSquare (selected (o.ofCamera label) (distances e)) ^ 2 =
      o.images.length * rootMeanSquare (distances e) ^ 2 := by
  rw [Finset.sum_congr rfl fun label _ ↦ count_mul_rootMeanSquare h he, sum_placesOf h hlabels,
    sum_squareAt he, length_mul_overall he]

/-! ## Residuals that come out -/

section

variable {R : Type} [CircularScalar R] {b : Bundle R}

theorem length_of_foldlM_projectCamera {p : Parameters R} {entries : List (Int × Camera R)}
    {images images' : List (Pixel R)}
    (h : entries.foldlM (fun images (label, camera) ↦ b.projectCamera p label camera images) images
      = .ok images') : images'.length = images.length := by
  induction entries generalizing images with
  | nil => exact Except.ok.inj h ▸ rfl
  | cons entry entries ih =>
    rw [List.foldlM_cons] at h
    obtain ⟨images₁, hfirst, hrest⟩ := Jacobian.exists_of_bind_eq_ok h
    rw [ih hrest]
    rcases projectCamera_cases hfirst with ⟨_, _, own, -, -, -, -, -, rfl⟩ | ⟨rfl, -⟩
    · exact length_scatter _ _ _
    · rfl

theorem lengths_of_residualAt (hknown : ∀ label ∈ b.observations.cameras, label ∈ b.cameras.labels)
    (hsome : b.observations.cameras ≠ []) {v : Option (List R)} {e : List R}
    (h : b.residualAt v = .ok e) :
    b.observations.cameras.length = b.observations.images.length ∧
      e.length = 2 * b.observations.images.length := by
  cases v with
  | none => exact nomatch h
  | some x =>
    obtain ⟨p, hp, hresidual⟩ := Jacobian.exists_of_bind_eq_ok h
    obtain ⟨images, himages, he⟩ := Jacobian.exists_of_bind_eq_ok hresidual
    obtain ⟨label, hsees⟩ := List.exists_mem_of_ne_nil _ hsome
    have hlabel := hknown label hsees
    have hplace := List.idxOf_lt_length_iff.mpr hlabel
    rw [Labelled.length_labels, ← (Parameters.laidOut_of_ofVector hp).length_poses] at hplace
    obtain ⟨-, hcameras, -⟩ :=
      checked_of_foldlM_projectCamera himages (Labelled.mem_labels.mp hlabel) hsees hplace
    have hlength := length_of_foldlM_projectCamera himages
    rw [List.length_map] at hcameras hlength
    refine ⟨hcameras, ?_⟩
    rw [← Except.ok.inj he, length_flatten_difference hlength]

end

/-! ## The main statement -/

/-- What a deviation has to be, if it is to measure the residuals `e` of observations. -/
structure Deviation.Measures (d : Deviation ℝ) (o : Observations ℝ) (e : List ℝ) : Prop where
  /-- Each observation has two residuals. -/
  length : e.length = 2 * o.images.length
  /-- The deviation over all is no less than zero. -/
  overall_nonneg : 0 ≤ d.overall
  /-- It counts two residuals as one, so its square is twice that of their root mean square. -/
  overall_sq : d.overall ^ 2 = 2 * Linear.rms e ^ 2
  /-- The cameras with a deviation are those with an observation. -/
  labels : ∀ label, label ∈ d.byCamera.map Prod.fst ↔ label ∈ o.cameras
  /-- They are in order, each once. -/
  ascending : (d.byCamera.map Prod.fst).Pairwise (· < ·)
  /-- The deviation of a camera is that over its own observations. -/
  own : ∀ entry ∈ d.byCamera, 0 ≤ entry.2 ∧ (o.cameras.count entry.1 : ℝ) * entry.2 ^ 2 =
    ∑ k ∈ Finset.range o.images.length with o.cameras[k]? = some entry.1,
      (e.getD (2 * k) 0 ^ 2 + e.getD (2 * k + 1) 0 ^ 2)
  /-- The squares of all cameras, each as often as it has observations, are the square over all, as
  often as there are observations. -/
  total : o.images.length * d.overall ^ 2 =
    (d.byCamera.map fun entry ↦ (o.cameras.count entry.1 : ℝ) * entry.2 ^ 2).sum
  /-- Some camera is no worse than all together. -/
  exists_le : ∃ entry ∈ d.byCamera, entry.2 ≤ d.overall
  /-- Some camera is no better. -/
  exists_ge : ∃ entry ∈ d.byCamera, d.overall ≤ entry.2

/-- The cameras that saw something. -/
def seeing (b : Bundle ℝ) : List ℤ :=
  b.cameras.labels.filter fun label ↦ (b.observations.ofCamera label).any id

/-- The deviation that comes of residuals. -/
noncomputable def deviationOf (b : Bundle ℝ) (e : List ℝ) : Deviation ℝ where
  overall := rootMeanSquare (distances e)
  byCamera := b.seeing.map fun label ↦
    (label, rootMeanSquare (selected (b.observations.ofCamera label) (distances e)))

variable {b : Bundle ℝ}

theorem deviation_eq (hcameras : b.observations.cameras.length = b.observations.images.length)
    (he : e.length = 2 * b.observations.images.length)
    (h : (b.store >>= b.residualAt) = .ok e) : b.deviation = .ok (b.deviationOf e) := by
  obtain ⟨v, hstore, hresidual⟩ := Jacobian.exists_of_bind_eq_ok h
  have hmask (label : ℤ) : checkMask (b.observations.ofCamera label) (distances e) = .ok () :=
    if_pos ((List.length_map _).trans (hcameras.trans (length_distances he).symm))
  have hbyCamera : b.seeing.mapM (fun label ↦ do
        checkMask (b.observations.ofCamera label) (distances e)
        return (label, rootMeanSquare (selected (b.observations.ofCamera label) (distances e)))) =
      .ok (b.deviationOf e).byCamera :=
    Jacobian.mapM_eq_ok_map fun label _ ↦ by rw [hmask]; rfl
  rw [deviation, hstore]
  change (b.residualAt v).bind _ = _
  rw [hresidual]
  exact congrArg (Except.map (Deviation.mk (rootMeanSquare (distances e)))) hbyCamera

theorem pairwise_seeing (b : Bundle ℝ) : b.seeing.Pairwise (· < ·) :=
  List.Pairwise.filter _ (Labelled.pairwise_labels b.cameras)

theorem labels_deviationOf (b : Bundle ℝ) (e : List ℝ) :
    (b.deviationOf e).byCamera.map Prod.fst = b.seeing := by
  rw [deviationOf, List.map_map]
  exact List.map_id _

section

variable (hknown : ∀ label ∈ b.observations.cameras, label ∈ b.cameras.labels)

include hknown

theorem mem_seeing {label : ℤ} : label ∈ b.seeing ↔ label ∈ b.observations.cameras := by
  rw [seeing, List.mem_filter, any_ofCamera]
  exact ⟨fun h ↦ h.2, fun h ↦ ⟨hknown label h, h⟩⟩

variable (hcameras : b.observations.cameras.length = b.observations.images.length)
  (he : e.length = 2 * b.observations.images.length)

include hcameras he

theorem sum_seeing : ∑ label ∈ b.seeing.toFinset, (b.observations.cameras.count label : ℝ) *
      rootMeanSquare (selected (b.observations.ofCamera label) (distances e)) ^ 2 =
    b.observations.images.length * rootMeanSquare (distances e) ^ 2 :=
  sum_count_mul hcameras he fun _ hlabel ↦ List.mem_toFinset.mpr ((mem_seeing hknown).mpr hlabel)

theorem exists_le_deviationOf_and_exists_ge (hsome : b.observations.cameras ≠ []) :
    (∃ entry ∈ (b.deviationOf e).byCamera, entry.2 ≤ (b.deviationOf e).overall) ∧
      ∃ entry ∈ (b.deviationOf e).byCamera, (b.deviationOf e).overall ≤ entry.2 := by
  have hall : ∀ label ∈ b.observations.cameras, label ∈ b.seeing.toFinset := fun _ hlabel ↦
    List.mem_toFinset.mpr ((mem_seeing hknown).mpr hlabel)
  have hpositive : ∀ label ∈ b.seeing.toFinset,
      (0 : ℝ) < b.observations.cameras.count label := by
    intro label hlabel
    exact_mod_cast List.count_pos_iff.mpr ((mem_seeing hknown).mp (List.mem_toFinset.mp hlabel))
  have hnonempty : b.seeing.toFinset.Nonempty := by
    obtain ⟨label, hlabel⟩ := List.exists_mem_of_ne_nil _ hsome
    exact ⟨label, hall label hlabel⟩
  have hmean := (sum_seeing hknown hcameras he).symm
  rw [← sum_count hcameras hall] at hmean
  obtain ⟨⟨low, hlow, hle⟩, ⟨high, hhigh, hge⟩⟩ :=
    exists_le_and_exists_ge hnonempty hpositive (fun _ ↦ rootMeanSquare_nonneg _)
      (rootMeanSquare_nonneg _) hmean
  exact ⟨⟨_, List.mem_map_of_mem (List.mem_toFinset.mp hlow), hle⟩,
    ⟨_, List.mem_map_of_mem (List.mem_toFinset.mp hhigh), hge⟩⟩

theorem measures_deviationOf (hsome : b.observations.cameras ≠ []) :
    (b.deviationOf e).Measures b.observations e := by
  obtain ⟨hle, hge⟩ := exists_le_deviationOf_and_exists_ge hknown hcameras he hsome
  constructor
  case length => exact he
  case overall_nonneg => exact rootMeanSquare_nonneg _
  case overall_sq =>
    exact overall_sq he fun h ↦ hsome (List.length_eq_zero_iff.mp (hcameras.trans h))
  case labels =>
    intro label
    rw [labels_deviationOf]
    exact mem_seeing hknown
  case ascending =>
    rw [labels_deviationOf]
    exact pairwise_seeing b
  case own =>
    intro entry hmem
    obtain ⟨label, -, rfl⟩ := List.mem_map.mp hmem
    exact ⟨rootMeanSquare_nonneg _, count_mul_rootMeanSquare hcameras he⟩
  case total =>
    have hnodup := (pairwise_seeing b).imp ne_of_lt
    change (b.observations.images.length : ℝ) * rootMeanSquare (distances e) ^ 2 = _
    rw [← sum_seeing hknown hcameras he, List.sum_toFinset _ hnodup, deviationOf, List.map_map]
    rfl
  case exists_le => exact hle
  case exists_ge => exact hge

end

/-- **Deviations are consistent.** If all cameras with an observation are known and there is one,
then with the residuals at the stored vector the deviation comes out, measures them, and fails only
with them. A sound bundle has residuals there. -/
theorem deviation_measures (hknown : ∀ label ∈ b.observations.cameras, label ∈ b.cameras.labels)
    (hsome : b.observations.cameras ≠ []) :
    (∀ e, (b.store >>= b.residualAt) = .ok e →
      ∃ d, b.deviation = .ok d ∧ d.Measures b.observations e) ∧
    (∀ fault, (b.store >>= b.residualAt) = .error fault → b.deviation = .error fault) ∧
    (b.IsSound → ∃ e, (b.store >>= b.residualAt) = .ok e) := by
  refine ⟨fun e he ↦ ?_, fun fault hfault ↦ ?_, fun hsound ↦ ?_⟩
  · obtain ⟨v, -, hresidual⟩ := Jacobian.exists_of_bind_eq_ok he
    obtain ⟨hcameras, hlength⟩ := lengths_of_residualAt hknown hsome hresidual
    exact ⟨b.deviationOf e, deviation_eq hcameras hlength he,
      measures_deviationOf hknown hcameras hlength hsome⟩
  · rw [deviation]
    cases hstore : b.store with
    | error fault' =>
      rw [hstore] at hfault
      obtain rfl : fault' = fault := Except.error.inj hfault
      rfl
    | ok v =>
      rw [hstore] at hfault
      change b.residualAt v = .error fault at hfault
      change (b.residualAt v).bind _ = _
      rw [hfault]
      rfl
  · obtain ⟨x, hstore, hx⟩ := hsound.exists_store (SameRig.refl b) hsound.regular
    obtain ⟨e, he, -⟩ := hsound.exists_residual hx
    exact ⟨e, by rw [hstore]; exact he⟩

/-- Each of two cameras that saw a point has a deviation. -/
theorem deviation_measures_twoViews :
    (∀ label ∈ twoViews.observations.cameras, label ∈ twoViews.cameras.labels) ∧
      twoViews.observations.cameras ≠ [] ∧
      ∃ e d, (twoViews.store >>= twoViews.residualAt) = .ok e ∧ twoViews.deviation = .ok d ∧
        d.overall ^ 2 = 2 * Linear.rms e ^ 2 ∧ 3 ∈ d.byCamera.map Prod.fst ∧
        7 ∈ d.byCamera.map Prod.fst := by
  have hknown : ∀ label ∈ twoViews.observations.cameras, label ∈ twoViews.cameras.labels := by
    rw [labels_twoViews]
    exact fun label hlabel ↦ hlabel
  have hsome : twoViews.observations.cameras ≠ [] := List.cons_ne_nil _ _
  have hsound : twoViews.IsSound := by
    refine ⟨by decide, ?_, ?_, rfl, rfl, hknown, ?_⟩
    · intro entry hentry
      fin_cases hentry <;> exact ⟨rfl, rfl⟩
    · intro entry hentry
      fin_cases hentry <;> exact ⟨rfl, [], rfl, by decide⟩
    · intro index hindex
      have hlength : twoViews.points.length = 2 := rfl
      rw [hlength]
      fin_cases hindex <;> decide
  obtain ⟨hmeasures, -, hcomes⟩ := deviation_measures hknown hsome
  obtain ⟨e, he⟩ := hcomes hsound
  obtain ⟨d, hd, hdeviation⟩ := hmeasures e he
  exact ⟨hknown, hsome, e, d, he, hd, hdeviation.overall_sq,
    (hdeviation.labels 3).mpr (by decide), (hdeviation.labels 7).mpr (by decide)⟩

end Bundle

end DampedLeastSquares
