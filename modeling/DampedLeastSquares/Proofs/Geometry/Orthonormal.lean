import DampedLeastSquares.Geometry.Orthonormal
import DampedLeastSquares.Proofs.Scalar.Exact
import Mathlib.Tactic.Linarith
import Mathlib.Tactic.LinearCombination

/-!
# Orthonormal matrices

The orthogonal factor of a matrix is found by turning directions until their images are
perpendicular, and by giving each image the length one. Over the real numbers an orthonormal matrix
leaves nothing to do: its columns, which are the images of the coordinate directions, are
perpendicular and of length one as they stand. So it is its own orthogonal factor, and a rotation
that goes through the factor comes out as it went in.
-/

namespace DampedLeastSquares

theorem Scalar.ratio_eq (m n : ℕ) : (Scalar.ratio m n : ℝ) = m / n := rfl

theorem Scalar.ratio_lt_one {n : ℕ} (h : 1 < n) : (Scalar.ratio 1 n : ℝ) < 1 := by
  rw [ratio_eq, Nat.cast_one, div_lt_one (Nat.cast_pos.mpr (Nat.zero_lt_of_lt h))]
  exact Nat.one_lt_cast.mpr h

/-! ## Vectors -/

namespace Vec3

theorem ext {u v : Vec3 ℝ} (hx : u.x = v.x) (hy : u.y = v.y) (hz : u.z = v.z) : u = v := by
  cases u
  cases v
  simp only at hx hy hz
  rw [hx, hy, hz]

theorem dot_eq (u v : Vec3 ℝ) : u.dot v = u.x * v.x + u.y * v.y + u.z * v.z := rfl

theorem norm_eq (v : Vec3 ℝ) : v.norm = √(v.dot v) := rfl

theorem scale_eq (a : ℝ) (v : Vec3 ℝ) : v.scale a = ⟨a * v.x, a * v.y, a * v.z⟩ := rfl

theorem dot_self_nonneg (v : Vec3 ℝ) : 0 ≤ v.dot v :=
  add_nonneg (add_nonneg (mul_self_nonneg v.x) (mul_self_nonneg v.y)) (mul_self_nonneg v.z)

theorem norm_nonneg (v : Vec3 ℝ) : 0 ≤ v.norm := Real.sqrt_nonneg _

theorem norm_mul_self (v : Vec3 ℝ) : v.norm * v.norm = v.dot v :=
  Real.mul_self_sqrt v.dot_self_nonneg

theorem norm_scale (a : ℝ) (v : Vec3 ℝ) : (v.scale a).norm = |a| * v.norm := by
  have hdot : (v.scale a).dot (v.scale a) = a ^ 2 * v.dot v := by
    simp only [dot_eq, scale_eq]
    ring
  rw [norm_eq, hdot, Real.sqrt_mul (sq_nonneg a), Real.sqrt_sq_eq_abs, norm_eq]

@[simp] theorem scale_one (v : Vec3 ℝ) : v.scale 1 = v := by
  rw [scale_eq, one_mul, one_mul, one_mul]

theorem scale_scale (a b : ℝ) (v : Vec3 ℝ) : (v.scale b).scale a = v.scale (a * b) := by
  simp only [scale_eq, mul_assoc]

theorem scale_eq_iff {a : ℝ} (ha : a ≠ 0) {u v : Vec3 ℝ} : u.scale a = v ↔ u = v.scale a⁻¹ := by
  constructor
  · rintro rfl
    rw [scale_scale, inv_mul_cancel₀ ha, scale_one]
  · rintro rfl
    rw [scale_scale, mul_inv_cancel₀ ha, scale_one]

theorem sq_le_dot_self {v : Vec3 ℝ} {a : ℝ} (h : a ∈ v.toList) : a ^ 2 ≤ v.dot v := by
  have hx := sq_nonneg v.x
  have hy := sq_nonneg v.y
  have hz := sq_nonneg v.z
  simp only [toList, List.mem_cons, List.not_mem_nil, or_false] at h
  rw [dot_eq]
  rcases h with rfl | rfl | rfl <;> linarith

theorem norm_eq_zero_iff {v : Vec3 ℝ} : v.norm = 0 ↔ v = ⟨0, 0, 0⟩ := by
  rw [norm_eq, Real.sqrt_eq_zero v.dot_self_nonneg]
  constructor
  · intro h
    have hzero : ∀ a ∈ v.toList, a = 0 := fun a ha ↦
      pow_eq_zero_iff two_ne_zero |>.mp (le_antisymm (h ▸ sq_le_dot_self ha) (sq_nonneg a))
    exact ext (hzero _ (by simp [toList])) (hzero _ (by simp [toList])) (hzero _ (by simp [toList]))
  · rintro rfl
    rw [dot_eq, mul_zero, add_zero, add_zero]

end Vec3

/-! ## The orthogonal factor -/

/-- The columns of a matrix have length one and are perpendicular to each other. -/
structure Mat3.IsOrthonormal (m : Mat3 ℝ) : Prop where
  /-- The first column has length one. -/
  aa : m.transpose.a.dot m.transpose.a = 1
  /-- The second column has length one. -/
  bb : m.transpose.b.dot m.transpose.b = 1
  /-- The third column has length one. -/
  cc : m.transpose.c.dot m.transpose.c = 1
  /-- The first column is perpendicular to the second. -/
  ab : m.transpose.a.dot m.transpose.b = 0
  /-- The first column is perpendicular to the third. -/
  ac : m.transpose.a.dot m.transpose.c = 0
  /-- The second column is perpendicular to the third. -/
  bc : m.transpose.b.dot m.transpose.c = 0

/-- Directions with perpendicular images are not turned. -/
theorem Axis.turned?_of_dot_eq_zero {p q : Axis ℝ} (h : p.image.dot q.image = 0) :
    p.turned? q = none := by
  have htolerance : (0 : ℝ) ≤ Axis.tolerance := by
    change (0 : ℝ) ≤ (10 : ℕ) / (0x10000000000000 : ℕ)
    positivity
  have hle : Scalar.abs (p.image.dot q.image) ≤ tolerance * Scalar.sqrt (p.square * q.square) := by
    rw [h, Scalar.abs_eq, abs_zero]
    exact mul_nonneg htolerance (Real.sqrt_nonneg _)
  rw [turned?]
  exact if_pos hle

theorem leastLength_lt_one : (leastLength : ℝ) < 1 := by
  have hpow : ∀ k, k ≠ 0 → 1 < Nat.pow 2 k := fun k hk ↦ Nat.one_lt_pow hk Nat.one_lt_two
  exact Scalar.ratio_lt_one (hpow 1022 (by decide))

theorem unitImages_cons {axis : Axis ℝ} (h : axis.image.dot axis.image = 1)
    (rest : List (Axis ℝ)) (before : List (Vec3 ℝ)) (state : ℕ) :
    unitImages (axis :: rest) before state
      = axis.image :: unitImages rest (before ++ [axis.image]) state := by
  have hnorm : axis.image.norm = 1 := by rw [Vec3.norm_eq, h, Real.sqrt_one]
  have hleast : ¬axis.image.norm ≤ leastLength := by
    rw [hnorm, not_le]
    exact leastLength_lt_one
  have hscale : axis.image.scale (1 / axis.image.norm) = axis.image := by
    rw [hnorm, div_one, Vec3.scale_one]
  rw [unitImages, if_neg hleast, hscale]

namespace Mat3

variable {m : Mat3 ℝ}

theorem IsOrthonormal.abs_le_one (h : m.IsOrthonormal) {a : ℝ} (ha : a ∈ m.toList) : |a| ≤ 1 := by
  have hcolumn :
      a ∈ m.transpose.a.toList ∨ a ∈ m.transpose.b.toList ∨ a ∈ m.transpose.c.toList := by
    simp only [toList, toRows, transpose, Vec3.toList, List.flatMap_cons, List.flatMap_nil,
      List.append_nil, List.cons_append, List.nil_append, List.mem_cons, List.not_mem_nil,
      or_false] at ha ⊢
    tauto
  rw [← sq_le_one_iff_abs_le_one]
  rcases hcolumn with ha | ha | ha
  · exact h.aa ▸ Vec3.sq_le_dot_self ha
  · exact h.bb ▸ Vec3.sq_le_dot_self ha
  · exact h.cc ▸ Vec3.sq_le_dot_self ha

theorem IsOrthonormal.sweep (h : m.IsOrthonormal) :
    (Axes.ofMatrix m).sweep = (Axes.ofMatrix m, false) := by
  have hpq : (Axes.ofMatrix m).p.turned? (Axes.ofMatrix m).q = none :=
    Axis.turned?_of_dot_eq_zero h.ab
  have hpr : (Axes.ofMatrix m).p.turned? (Axes.ofMatrix m).r = none :=
    Axis.turned?_of_dot_eq_zero h.ac
  have hqr : (Axes.ofMatrix m).q.turned? (Axes.ofMatrix m).r = none :=
    Axis.turned?_of_dot_eq_zero h.bc
  simp only [Axes.sweep, hpq, hpr, hqr, Bool.or_self]

/-- Their images have one length, so they stay in order. -/
theorem IsOrthonormal.sorted (h : m.IsOrthonormal) : (Axes.ofMatrix m).sorted
    = [(Axes.ofMatrix m).p, (Axes.ofMatrix m).q, (Axes.ofMatrix m).r] := by
  have hp : (Axes.ofMatrix m).p.image.norm = 1 := (congrArg Real.sqrt h.aa).trans Real.sqrt_one
  have hq : (Axes.ofMatrix m).q.image.norm = 1 := (congrArg Real.sqrt h.bb).trans Real.sqrt_one
  have hr : (Axes.ofMatrix m).r.image.norm = 1 := (congrArg Real.sqrt h.cc).trans Real.sqrt_one
  have hlt : ¬(1 : ℝ) < 1 := lt_irrefl 1
  simp only [Axes.sorted, hp, hq, hr, if_neg hlt]

/-- **An orthonormal matrix is its own orthogonal factor.** -/
theorem IsOrthonormal.orthogonalFactor (h : m.IsOrthonormal) : m.orthogonalFactor = m := by
  have hsettle : (Axes.ofMatrix m).settle 30 = Axes.ofMatrix m := by
    rw [Axes.settle, h.sweep]
  have hunits : unitImages [(Axes.ofMatrix m).p, (Axes.ofMatrix m).q, (Axes.ofMatrix m).r] []
      signSeed = [m.transpose.a, m.transpose.b, m.transpose.c] := by
    rw [unitImages_cons h.aa, unitImages_cons h.bb, unitImages_cons h.cc]
    rfl
  rw [Mat3.orthogonalFactor, hsettle, h.sorted, hunits]
  -- The directions are those of the coordinates, and each puts its unit back into its column.
  change Mat3.add (Mat3.add (Mat3.add _ (outer _ identity.a)) (outer _ identity.b))
    (outer _ identity.c) = m
  simp only [add, Vec3.add, outer, Vec3.scale_eq, identity, transpose, mul_one, mul_zero, zero_add,
    add_zero]

end Mat3

end DampedLeastSquares
