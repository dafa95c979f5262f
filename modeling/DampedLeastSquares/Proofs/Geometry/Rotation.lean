import DampedLeastSquares.Geometry.Rotation
import DampedLeastSquares.Proofs.Geometry.Orthonormal
import Mathlib.Analysis.SpecialFunctions.Trigonometric.Bounds

/-!
# Rotations there and back

The vector of a rotation becomes its matrix, and later a vector is read off this matrix again. Over
the real numbers the matrix is orthonormal, so its orthogonal factor is no other matrix; the trace
knows the cosine of the angle, and the antisymmetric part the sine and the axis. A vector shorter
than half a turn would therefore come back.

It does so where the sine is not too small. Where it is, the antisymmetric part is not used, and
what the vector said is lost in two ways. Below a quarter turn nothing comes back. Above, the angle
does, but the axis is read off the diagonal as if it were half a turn: that gives the sizes of the
coordinates for half a turn only, or along a diagonal of space, where all sizes are the same, and it
never gives a negative first coordinate. `ComesBack` is what is left, and `toVector_ofVector_eq_iff`
says that it is all.
-/

namespace DampedLeastSquares.Rotation

/-! ## The matrix of a rotation -/

/-- The matrix of the rotation about `k`, if that has length one, by the angle with cosine `c` and
sine `s`. -/
def about (c s : ℝ) (k : Vec3 ℝ) : Mat3 ℝ :=
  ⟨⟨c + (1 - c) * (k.x * k.x), (1 - c) * (k.x * k.y) - s * k.z, (1 - c) * (k.x * k.z) + s * k.y⟩,
   ⟨(1 - c) * (k.y * k.x) + s * k.z, c + (1 - c) * (k.y * k.y), (1 - c) * (k.y * k.z) - s * k.x⟩,
   ⟨(1 - c) * (k.z * k.x) - s * k.y, (1 - c) * (k.z * k.y) + s * k.x, c + (1 - c) * (k.z * k.z)⟩⟩

theorem ofVector_of_lt {v : Vec3 ℝ} (h : v.norm < leastAngle) : ofVector v = Mat3.identity :=
  if_pos h

theorem ofVector_of_le {v : Vec3 ℝ} (h : leastAngle ≤ v.norm) :
    ofVector v = about (Real.cos v.norm) (Real.sin v.norm) (v.scale (1 / v.norm)) :=
  if_neg (not_lt.mpr h)

theorem about_one_zero (k : Vec3 ℝ) : about 1 0 k = Mat3.identity := by
  simp only [about, sub_self, zero_mul, add_zero]
  rfl

theorem leastAngle_pos : (0 : ℝ) < leastAngle := by
  rw [leastAngle, Scalar.ratio_eq]
  positivity

theorem leastSine_pos : (0 : ℝ) < leastSine := by
  rw [leastSine, Scalar.ratio_eq]
  positivity

theorem leastSine_lt : (leastSine : ℝ) < 1 / 2 := by
  rw [leastSine, Scalar.ratio_eq]
  norm_num

theorem leastAngle_lt_leastSine : (leastAngle : ℝ) < leastSine := by
  rw [leastAngle, leastSine, Scalar.ratio_eq, Scalar.ratio_eq]
  norm_num

theorem clampUnit_of_abs_le_one {c : ℝ} (h : |c| ≤ 1) : clampUnit c = c := by
  obtain ⟨hneg, hpos⟩ := abs_le.mp h
  rw [clampUnit, if_neg (not_lt.mpr hpos)]
  exact if_neg (not_lt.mpr hneg)

theorem rootOrZero_eq (a : ℝ) : rootOrZero a = √a := by
  rw [rootOrZero]
  split
  · rfl
  next h => exact (Real.sqrt_zero).trans (Real.sqrt_eq_zero_of_nonpos (not_lt.mp h)).symm

/-- The matrix of a rotation is in proportion, and it is its own orthogonal factor. -/
theorem toVector_of_isOrthonormal {m : Mat3 ℝ} (h : m.IsOrthonormal) :
    toVector m = axisAngle m := by
  have hproportion : inProportion m = true := by
    rw [inProportion, List.all_eq_true]
    intro a ha
    obtain ⟨hneg, hpos⟩ := abs_le.mp (h.abs_le_one ha)
    have hhundred : (-((100 : ℕ) : ℝ) ≤ a) ∧ a < ((100 : ℕ) : ℝ) := by
      constructor <;> norm_num <;> linarith
    rw [Bool.and_eq_true, Bool.and_eq_true, decide_eq_true_iff, decide_eq_true_iff]
    exact ⟨⟨rfl, hhundred.1⟩, hhundred.2⟩
  rw [toVector, if_pos hproportion, h.orthogonalFactor]

section about

variable {c s : ℝ} {k : Vec3 ℝ} (hk : k.dot k = 1) (hcs : c ^ 2 + s ^ 2 = 1)

include hk

theorem trace_about : (about c s k).trace = 1 + 2 * c := by
  rw [Vec3.dot_eq] at hk
  simp only [about, Mat3.trace]
  linear_combination (1 - c) * hk

include hcs

theorem isOrthonormal_about : (about c s k).IsOrthonormal := by
  rw [Vec3.dot_eq] at hk
  constructor <;> simp only [about, Mat3.transpose, Vec3.dot_eq]
  · linear_combination ((1 - c) ^ 2 * k.x ^ 2 + s ^ 2) * hk + (1 - k.x ^ 2) * hcs
  · linear_combination ((1 - c) ^ 2 * k.y ^ 2 + s ^ 2) * hk + (1 - k.y ^ 2) * hcs
  · linear_combination ((1 - c) ^ 2 * k.z ^ 2 + s ^ 2) * hk + (1 - k.z ^ 2) * hcs
  · linear_combination (1 - c) ^ 2 * k.x * k.y * hk - k.x * k.y * hcs
  · linear_combination (1 - c) ^ 2 * k.x * k.z * hk - k.x * k.z * hcs
  · linear_combination (1 - c) ^ 2 * k.y * k.z * hk - k.y * k.z * hcs

omit hcs in
theorem sine_about (hs : 0 ≤ s) :
    Scalar.sqrt ((k.scale (2 * s)).dot (k.scale (2 * s)) * Scalar.ratio 1 4) = s := by
  have hsquare : (k.scale (2 * s)).dot (k.scale (2 * s)) * Scalar.ratio 1 4 = s ^ 2 := by
    rw [Vec3.dot_eq] at hk
    simp only [Vec3.scale_eq, Vec3.dot_eq, Scalar.ratio_eq, Nat.cast_one, Nat.cast_ofNat]
    linear_combination s ^ 2 * hk
  rw [hsquare]
  exact Real.sqrt_sq hs

theorem cosine_about : clampUnit (((about c s k).trace - 1) * Scalar.ratio 1 2) = c := by
  have hc : |c| ≤ 1 := by
    rw [← sq_le_one_iff_abs_le_one]
    linarith [sq_nonneg s]
  have hhalf : ((about c s k).trace - 1) * Scalar.ratio 1 2 = c := by
    rw [trace_about hk, Scalar.ratio_eq, Nat.cast_one, Nat.cast_ofNat]
    ring
  rw [hhalf, clampUnit_of_abs_le_one hc]

theorem axisAngle_about (hs : 0 ≤ s) : axisAngle (about c s k) =
    if s < leastSine then
      if 0 < c then ⟨0, 0, 0⟩
      else (halfTurnAxis (about c s k)).scale
        (Real.arccos c / (halfTurnAxis (about c s k)).norm)
    else k.scale (Real.arccos c) := by
  have hcosine := cosine_about hk hcs
  generalize hm : about c s k = m at hcosine
  have hskew : (⟨m.c.y - m.b.z, m.a.z - m.c.x, m.b.x - m.a.y⟩ : Vec3 ℝ) = k.scale (2 * s) := by
    rw [← hm]
    apply Vec3.ext <;> simp only [about, Vec3.scale_eq] <;> ring
  have hscale : s ≠ 0 → (k.scale (2 * s)).scale (1 / (s * (2 : ℕ)) * Real.arccos c)
      = k.scale (Real.arccos c) := by
    intro hne
    rw [Vec3.scale_scale]
    congr 1
    rw [Nat.cast_ofNat]
    field_simp
  simp only [axisAngle, hskew, sine_about hk hs, hcosine]
  split
  · rfl
  next hle => exact hscale (leastSine_pos.trans_le (not_lt.mp hle)).ne'

end about

/-! ## Near half a turn -/

/-- A size with the sign of `a`. -/
noncomputable def withSign (a size : ℝ) : ℝ := if a < 0 then -size else size

@[simp] theorem sq_withSign (a size : ℝ) : withSign a size ^ 2 = size ^ 2 := by
  rw [withSign]
  split
  · exact neg_sq size
  · rfl

theorem withSign_mul_abs {a t : ℝ} (r : ℝ) (h : a < 0 ↔ t < 0) : withSign a (r * |t|) = r * t := by
  rw [withSign]
  split
  next ha => rw [abs_of_neg (h.mp ha), mul_neg, neg_neg]
  next ha => rw [abs_of_nonneg (not_lt.mp (mt h.mpr ha))]

/-- The sizes of the coordinates come from the diagonal, and their signs from the first row. Only if
the first coordinate is smaller than the second may the sign of the third be another one. -/
theorem exists_halfTurnAxis (m : Mat3 ℝ) : ∃ sign : ℝ,
    (sign = 1 ∨ sign = -1 ∧ √((m.a.x + 1) / 2) < |withSign m.a.y √((m.b.y + 1) / 2)|) ∧
    halfTurnAxis m = ⟨√((m.a.x + 1) / 2), withSign m.a.y √((m.b.y + 1) / 2),
      sign * withSign m.a.z √((m.c.z + 1) / 2)⟩ := by
  have hhalf : ∀ a : ℝ, rootOrZero ((a + 1) * Scalar.ratio 1 2) = √((a + 1) / 2) := by
    intro a
    rw [rootOrZero_eq, Scalar.ratio_eq, Nat.cast_one, Nat.cast_ofNat, mul_one_div]
  have hsign : ∀ a b : ℝ, (if a < 0 then -b else b) = withSign a b := fun _ _ ↦ rfl
  simp only [halfTurnAxis, hhalf, hsign]
  split
  next h =>
    have hlt := h.1
    rw [Scalar.abs_eq, Scalar.abs_eq, abs_of_nonneg (Real.sqrt_nonneg _)] at hlt
    exact ⟨-1, .inr ⟨rfl, hlt⟩, by rw [neg_one_mul]⟩
  · exact ⟨1, .inl rfl, by rw [one_mul]⟩

theorem lt_zero_iff_of_diagonal {c s x t u : ℝ} (hs : 0 ≤ s) (hsmall : s < 1 / 2) (hc : c ≤ 0)
    (hx : x ^ 2 = 1 / 3) (ht : |t| = x) (hu : |u| = x) :
    (1 - c) * (x * t) + s * u < 0 ↔ t < 0 := by
  have hx0 : 0 ≤ x := ht ▸ abs_nonneg t
  have hx1 : 1 / 2 < x := by nlinarith
  obtain ⟨hu', hu⟩ := abs_le.mp hu.le
  rcases (abs_eq hx0).mp ht with rfl | rfl
  · have hpos : 0 < (1 - c) * (t * t) + s * u := by nlinarith
    exact iff_of_false (not_lt.mpr hpos.le) (not_lt.mpr hx0)
  · have hneg : (1 - c) * (x * -x) + s * u < 0 := by nlinarith
    exact iff_of_true hneg (by linarith)

section halfTurn

variable {c s : ℝ} {k : Vec3 ℝ} (hk : k.dot k = 1) (hc : -1 < c)

include hk hc

theorem sq_halfTurnAxis_about : 0 ≤ (halfTurnAxis (about c s k)).x ∧
    (halfTurnAxis (about c s k)).x ^ 2 = (1 + c + (1 - c) * k.x ^ 2) / 2 ∧
    (halfTurnAxis (about c s k)).y ^ 2 = (1 + c + (1 - c) * k.y ^ 2) / 2 ∧
    (halfTurnAxis (about c s k)).z ^ 2 = (1 + c + (1 - c) * k.z ^ 2) / 2 := by
  obtain ⟨sign, hsign, haxis⟩ := exists_halfTurnAxis (about c s k)
  have hsquare : sign ^ 2 = 1 := by
    obtain rfl | ⟨rfl, -⟩ := hsign <;> norm_num
  have hroot : ∀ t ∈ k.toList,
      √((c + (1 - c) * (t * t) + 1) / 2) ^ 2 = (1 + c + (1 - c) * t ^ 2) / 2 := by
    intro t ht
    have hle : t ^ 2 ≤ 1 := hk ▸ Vec3.sq_le_dot_self ht
    rw [Real.sq_sqrt (by nlinarith [sq_nonneg t])]
    ring
  rw [haxis]
  refine ⟨Real.sqrt_nonneg _, hroot _ (by simp [Vec3.toList]), ?_, ?_⟩
  · rw [sq_withSign]
    exact hroot _ (by simp [Vec3.toList])
  · rw [mul_pow, hsquare, one_mul, sq_withSign]
    exact hroot _ (by simp [Vec3.toList])

theorem norm_halfTurnAxis_about : (halfTurnAxis (about c s k)).norm = √(2 + c) := by
  obtain ⟨-, hx, hy, hz⟩ := sq_halfTurnAxis_about (s := s) hk hc
  rw [Vec3.dot_eq] at hk
  rw [Vec3.norm_eq, Vec3.dot_eq]
  congr 1
  linear_combination hx + hy + hz + (1 - c) / 2 * hk

/-- The axis that is read off the diagonal has the right sizes along a diagonal of space only, and
the right sign only if the first coordinate is positive. -/
theorem diagonal_of_halfTurnAxis_about (h : halfTurnAxis (about c s k) = k.scale √(2 + c)) :
    0 < k.x ∧ |k.y| = k.x ∧ |k.z| = k.x := by
  have hpos : 0 < √(2 + c) := Real.sqrt_pos.mpr (by linarith)
  have hsquare : √(2 + c) ^ 2 = 2 + c := Real.sq_sqrt (by linarith)
  obtain ⟨hx0, hx, hy, hz⟩ := sq_halfTurnAxis_about (s := s) hk hc
  rw [h] at hx0 hx hy hz
  -- The square of a coordinate is off by a multiple of `1 - 3 t ^ 2`, which has to vanish.
  have hthird : ∀ t : ℝ, (√(2 + c) * t) ^ 2 = (1 + c + (1 - c) * t ^ 2) / 2 → t ^ 2 = 1 / 3 := by
    intro t ht
    rw [mul_pow, hsquare] at ht
    have hzero : (1 + c) * (1 - 3 * t ^ 2) = 0 := by linear_combination -2 * ht
    rcases mul_eq_zero.mp hzero with h | h <;> linarith
  have hx' := hthird _ hx
  have hx0' : 0 ≤ k.x := nonneg_of_mul_nonneg_right hx0 hpos
  have hne : k.x ≠ 0 := fun h ↦ by norm_num [h] at hx'
  have habs : ∀ t : ℝ, t ^ 2 = 1 / 3 → |t| = k.x := fun t ht ↦ by
    rw [← abs_of_nonneg hx0', ← sq_eq_sq_iff_abs_eq_abs, ht, hx']
  exact ⟨lt_of_le_of_ne hx0' hne.symm, habs _ (hthird _ hy), habs _ (hthird _ hz)⟩

/-- Along a diagonal of space the axis that is read off the diagonal is the right one, if its first
coordinate is positive: all its coordinates have the same size, so no sign is corrected. -/
theorem halfTurnAxis_about_of_diagonal (hs : 0 ≤ s) (hsmall : s < 1 / 2) (hc' : c ≤ 0)
    (hx0 : 0 < k.x) (hy : |k.y| = k.x) (hz : |k.z| = k.x) :
    halfTurnAxis (about c s k) = k.scale √(2 + c) := by
  have hpos : 0 < √(2 + c) := Real.sqrt_pos.mpr (by linarith)
  have hxsq : k.x ^ 2 = 1 / 3 := by
    have hysq : k.y ^ 2 = k.x ^ 2 := by rw [← sq_abs, hy]
    have hzsq : k.z ^ 2 = k.x ^ 2 := by rw [← sq_abs, hz]
    rw [Vec3.dot_eq] at hk
    linear_combination (hk - hysq - hzsq) / 3
  have hroot : ∀ t : ℝ, |t| = k.x → √((c + (1 - c) * (t * t) + 1) / 2) = √(2 + c) * |t| := by
    intro t ht
    have htsq : t ^ 2 = 1 / 3 := by rw [← sq_abs, ht, hxsq]
    rw [← Real.sqrt_sq_eq_abs, ← Real.sqrt_mul (by linarith)]
    congr 1
    linear_combination (-3 / 2 - 3 / 2 * c) * htsq
  have hsign := withSign_mul_abs √(2 + c) (lt_zero_iff_of_diagonal hs hsmall hc' hxsq hy
    ((abs_neg k.z).trans hz))
  have hsign' := withSign_mul_abs √(2 + c) (lt_zero_iff_of_diagonal hs hsmall hc' hxsq hz hy)
  obtain ⟨sign, hflip, haxis⟩ := exists_halfTurnAxis (about c s k)
  dsimp only [about] at hflip haxis
  rw [mul_neg, ← sub_eq_add_neg] at hsign
  rw [hroot _ (abs_of_pos hx0), hroot _ hy, hroot _ hz, hsign, hsign'] at haxis
  rw [hroot _ (abs_of_pos hx0), hroot _ hy, hsign, abs_mul, abs_of_pos hpos, hy,
    abs_of_pos hx0] at hflip
  obtain rfl | ⟨-, hlt⟩ := hflip
  · refine haxis.trans ?_
    rw [one_mul, abs_of_pos hx0, Vec3.scale_eq]
  · exact absurd hlt (lt_irrefl _)

theorem halfTurnAxis_about_eq_iff (hs : 0 ≤ s) (hsmall : s < 1 / 2) (hc' : c ≤ 0) :
    halfTurnAxis (about c s k) = k.scale √(2 + c) ↔ 0 < k.x ∧ |k.y| = k.x ∧ |k.z| = k.x := by
  constructor
  · exact diagonal_of_halfTurnAxis_about hk hc
  · rintro ⟨hx0, hy, hz⟩
    exact halfTurnAxis_about_of_diagonal hk hc hs hsmall hc' hx0 hy hz

end halfTurn

/-! ## There and back -/

/-- The rotations whose vector comes back from their matrix. -/
inductive ComesBack (u : Vec3 ℝ) : Prop where
  /-- There is no rotation at all. -/
  | unturned (h : u = ⟨0, 0, 0⟩)
  /-- The sine of the angle is large enough. -/
  | clear (h : leastSine ≤ Real.sin u.norm)
  /-- Near half a turn, it is about a diagonal of space and its first coordinate is positive. -/
  | diagonal (hge : Real.pi / 2 ≤ u.norm) (h : 0 < u.x ∧ |u.y| = u.x ∧ |u.z| = u.x)

theorem neg_one_lt_cos {a : ℝ} (h0 : 0 ≤ a) (hlt : a < Real.pi) : -1 < Real.cos a :=
  Real.cos_pi ▸ Real.cos_lt_cos_of_nonneg_of_le_pi h0 le_rfl hlt

section

variable {v : Vec3 ℝ}

theorem dot_direction (h : 0 < v.norm) :
    (v.scale (1 / v.norm)).dot (v.scale (1 / v.norm)) = 1 := by
  rw [← Vec3.norm_mul_self, Vec3.norm_scale, abs_of_pos (one_div_pos.mpr h),
    one_div_mul_cancel h.ne', one_mul]

theorem scale_direction (h : 0 < v.norm) : (v.scale (1 / v.norm)).scale v.norm = v := by
  rw [Vec3.scale_scale, mul_one_div_cancel h.ne', Vec3.scale_one]

theorem toVector_ofVector (hle : leastAngle ≤ v.norm) (hlt : v.norm < Real.pi) :
    toVector (ofVector v) =
      if Real.sin v.norm < leastSine then
        if v.norm < Real.pi / 2 then ⟨0, 0, 0⟩
        else (halfTurnAxis (ofVector v)).scale (v.norm / (halfTurnAxis (ofVector v)).norm)
      else v := by
  have hpos : 0 < v.norm := leastAngle_pos.trans_le hle
  have hcs : Real.cos v.norm ^ 2 + Real.sin v.norm ^ 2 = 1 := Real.cos_sq_add_sin_sq _
  have hsin : 0 ≤ Real.sin v.norm := Real.sin_nonneg_of_nonneg_of_le_pi hpos.le hlt.le
  have hcos : 0 < Real.cos v.norm ↔ v.norm < Real.pi / 2 := by
    constructor
    · intro h
      by_contra hge
      exact absurd h (not_lt.mpr
        (Real.cos_nonpos_of_pi_div_two_le_of_le (not_lt.mp hge) (by linarith)))
    · exact fun h ↦ Real.cos_pos_of_mem_Ioo ⟨by linarith, h⟩
  have hk := dot_direction hpos
  rw [ofVector_of_le hle, toVector_of_isOrthonormal (isOrthonormal_about hk hcs),
    axisAngle_about hk hcs hsin, Real.arccos_cos hpos.le hlt.le, scale_direction hpos]
  simp only [hcos]

/-- **A small rotation is lost.** -/
theorem toVector_ofVector_eq_zero (hsin : Real.sin v.norm < leastSine)
    (hlt : v.norm < Real.pi / 2) : toVector (ofVector v) = ⟨0, 0, 0⟩ := by
  rcases lt_or_ge v.norm leastAngle with h | h
  · have hk : (⟨1, 0, 0⟩ : Vec3 ℝ).dot ⟨1, 0, 0⟩ = 1 := by norm_num [Vec3.dot_eq]
    rw [ofVector_of_lt h, ← about_one_zero,
      toVector_of_isOrthonormal (isOrthonormal_about hk (by norm_num)),
      axisAngle_about hk (by norm_num) le_rfl, if_pos leastSine_pos, if_pos one_pos]
  · rw [toVector_ofVector h (hlt.trans (by linarith [Real.pi_pos])), if_pos hsin, if_pos hlt]

theorem leastAngle_le_of_pi_div_two_le (h : Real.pi / 2 ≤ v.norm) : leastAngle ≤ v.norm := by
  linarith [Real.two_le_pi, leastSine_lt, leastAngle_lt_leastSine]

/-- A large rotation keeps its angle. -/
theorem norm_toVector_ofVector (hge : Real.pi / 2 ≤ v.norm) (hlt : v.norm < Real.pi) :
    (toVector (ofVector v)).norm = v.norm := by
  have hle := leastAngle_le_of_pi_div_two_le hge
  have hpos : 0 < v.norm := leastAngle_pos.trans_le hle
  have hc := neg_one_lt_cos hpos.le hlt
  have hroot : 0 < √(2 + Real.cos v.norm) := Real.sqrt_pos.mpr (by linarith)
  rw [toVector_ofVector hle hlt, if_neg (not_lt.mpr hge)]
  split
  · rw [ofVector_of_le hle, norm_halfTurnAxis_about (dot_direction hpos) hc, Vec3.norm_scale,
      norm_halfTurnAxis_about (dot_direction hpos) hc, abs_of_pos (div_pos hpos hroot),
      div_mul_cancel₀ _ hroot.ne']
  · rfl

/-- A rotation that is taken for none stays without effect, though it does not come back. -/
theorem ofVector_toVector_of_lt (h : v.norm < leastAngle) :
    ofVector (toVector (ofVector v)) = ofVector v := by
  have hsin : Real.sin v.norm < leastSine :=
    ((Real.sin_le v.norm_nonneg).trans_lt h).trans leastAngle_lt_leastSine
  have hlt : v.norm < Real.pi / 2 := by
    by_contra hge
    exact absurd h (not_lt.mpr (leastAngle_le_of_pi_div_two_le (not_lt.mp hge)))
  have hzero : (⟨0, 0, 0⟩ : Vec3 ℝ).norm < leastAngle := by
    rw [Vec3.norm_eq_zero_iff.mpr rfl]
    exact leastAngle_pos
  rw [toVector_ofVector_eq_zero hsin hlt, ofVector_of_lt hzero, ofVector_of_lt h]

/-- **Which rotations come back from their matrix.** -/
theorem toVector_ofVector_eq_iff (hlt : v.norm < Real.pi) :
    toVector (ofVector v) = v ↔ ComesBack v := by
  rcases lt_or_ge (Real.sin v.norm) leastSine with hsin | hsin
  case inr =>
    have hle : leastAngle ≤ v.norm :=
      (leastAngle_lt_leastSine.le.trans hsin).trans (Real.sin_le v.norm_nonneg)
    refine iff_of_true ?_ (.clear hsin)
    rw [toVector_ofVector hle hlt, if_neg (not_lt.mpr hsin)]
  -- With a small sine the angle is near none or near half a turn.
  rcases lt_or_ge v.norm (Real.pi / 2) with hsmall | hge
  · rw [toVector_ofVector_eq_zero hsin hsmall]
    constructor
    · exact fun h ↦ .unturned h.symm
    · intro hback
      cases hback with
      | unturned h => exact h.symm
      | clear h => exact absurd hsin (not_lt.mpr h)
      | diagonal h => exact absurd hsmall (not_lt.mpr h)
  · have hle := leastAngle_le_of_pi_div_two_le hge
    have hpos : 0 < v.norm := leastAngle_pos.trans_le hle
    have hc := neg_one_lt_cos hpos.le hlt
    have hc' : Real.cos v.norm ≤ 0 := Real.cos_nonpos_of_pi_div_two_le_of_le hge (by linarith)
    have hroot : 0 < √(2 + Real.cos v.norm) := Real.sqrt_pos.mpr (by linarith)
    have hsin0 : 0 ≤ Real.sin v.norm := Real.sin_nonneg_of_nonneg_of_le_pi hpos.le hlt.le
    have hne : v ≠ ⟨0, 0, 0⟩ := fun h ↦ hpos.ne' (Vec3.norm_eq_zero_iff.mpr h)
    have hscale : v.scale (√(2 + Real.cos v.norm) / v.norm)
        = (v.scale (1 / v.norm)).scale √(2 + Real.cos v.norm) := by
      rw [Vec3.scale_scale, mul_one_div]
    rw [toVector_ofVector hle hlt, if_pos hsin, if_neg (not_lt.mpr hge), ofVector_of_le hle,
      norm_halfTurnAxis_about (dot_direction hpos) hc,
      Vec3.scale_eq_iff (div_pos hpos hroot).ne', inv_div, hscale,
      halfTurnAxis_about_eq_iff (dot_direction hpos) hc hsin0 (hsin.trans leastSine_lt) hc']
    simp only [Vec3.scale_eq, abs_mul, abs_of_pos (one_div_pos.mpr hpos)]
    rw [mul_pos_iff_of_pos_left (one_div_pos.mpr hpos), mul_right_inj' (one_div_pos.mpr hpos).ne',
      mul_right_inj' (one_div_pos.mpr hpos).ne']
    constructor
    · exact .diagonal hge
    · intro hback
      cases hback with
      | unturned h => exact absurd h hne
      | clear h => exact absurd hsin (not_lt.mpr h)
      | diagonal _ h => exact h

end

/-- What is given back for a rotation. -/
structure GivenBack (u w : Vec3 ℝ) : Prop where
  /-- Some rotations come back as they were. -/
  same_iff : w = u ↔ ComesBack u
  /-- A small one is lost. -/
  small : Real.sin u.norm < leastSine → u.norm < Real.pi / 2 → w = ⟨0, 0, 0⟩
  /-- A large one has kept its angle. -/
  large : Real.pi / 2 ≤ u.norm → w.norm = u.norm

/-- What is asked of the conversions between the vector of a rotation and its matrix. -/
structure IsConversion (ofVector : Vec3 ℝ → Mat3 ℝ) (toVector : Mat3 ℝ → Vec3 ℝ) : Prop where
  /-- What is read off the matrix of a rotation by less than half a turn. -/
  givenBack : ∀ {v : Vec3 ℝ}, v.norm < Real.pi → GivenBack v (toVector (ofVector v))
  /-- The loss of a rotation that is taken for none is not noticed in the matrix. -/
  unnoticed : ∀ {v : Vec3 ℝ}, v.norm < leastAngle → ofVector (toVector (ofVector v)) = ofVector v

/-- **Of the vector of a rotation the matrix gives back what is in `GivenBack`**, and no matrix is
changed by the loss of an angle below the least one. -/
theorem isConversion : IsConversion ofVector toVector where
  givenBack hlt := {
    same_iff := toVector_ofVector_eq_iff hlt
    small := toVector_ofVector_eq_zero
    large := fun hge ↦ norm_toVector_ofVector hge hlt }
  unnoticed := ofVector_toVector_of_lt

end DampedLeastSquares.Rotation
