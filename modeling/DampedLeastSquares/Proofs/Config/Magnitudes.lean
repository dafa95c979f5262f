import DampedLeastSquares.Config.Number
import Mathlib.Algebra.Order.Archimedean.Real.Basic
import Mathlib.Data.EReal.Basic

/-!
# Numbers on the line

Settings are compared with whole numbers through their magnitudes, by integer arithmetic and with a
branch for each kind of number. Every kind but the undefined one has a place on the line of real
numbers with its two ends, and there all the branches say the same: a number is in range if its
place is. An undefined number has no place and is in no range.
-/

namespace DampedLeastSquares.Number

/-- The place of a magnitude on the line with both its ends. What is undefined has none. -/
noncomputable def Magnitude.place? : Magnitude → Option EReal
  | .whole n => some ((n : ℝ) : EReal)
  | .fractional n places => some ((n / unit places : ℝ) : EReal)
  | .infinite negative => some (if negative then ⊥ else ⊤)
  | .undefined => none

/-- The place of a number. -/
noncomputable def place? (a : Number) : Option EReal := a.magnitude.place?

variable {a : Number} {bound n : Int} {places : Nat}

theorem unit_pos (places : Nat) : (0 : ℝ) < unit places := by
  have hpos : 0 < unit places := Int.pow_pos (by decide)
  exact_mod_cast hpos

theorem mul_unit_le_iff : bound * unit places ≤ n ↔ (bound : ℝ) ≤ n / unit places := by
  rw [le_div_iff₀ (unit_pos places)]
  exact_mod_cast Iff.rfl

theorem mul_unit_lt_iff : bound * unit places < n ↔ (bound : ℝ) < n / unit places := by
  rw [lt_div_iff₀ (unit_pos places)]
  exact_mod_cast Iff.rfl

theorem lt_mul_unit_iff : n < bound * unit places ↔ (n / unit places : ℝ) < bound := by
  rw [div_lt_iff₀ (unit_pos places)]
  exact_mod_cast Iff.rfl

theorem isAtLeast_iff : a.isAtLeast bound = true ↔
    ∃ v, a.place? = some v ∧ ((bound : ℝ) : EReal) ≤ v := by
  rw [isAtLeast, place?]
  cases a.magnitude with
  | whole n => simp [Magnitude.place?]
  | fractional n places => simp [Magnitude.place?, mul_unit_le_iff]
  | infinite negative => cases negative <;> simp [Magnitude.place?]
  | undefined => simp [Magnitude.place?]

theorem isAbove_iff : a.isAbove bound = true ↔
    ∃ v, a.place? = some v ∧ ((bound : ℝ) : EReal) < v := by
  rw [isAbove, place?]
  cases a.magnitude with
  | whole n => simp [Magnitude.place?]
  | fractional n places => simp [Magnitude.place?, mul_unit_lt_iff]
  | infinite negative => cases negative <;> simp [Magnitude.place?]
  | undefined => simp [Magnitude.place?]

theorem isBelow_iff : a.isBelow bound = true ↔
    ∃ v, a.place? = some v ∧ v < ((bound : ℝ) : EReal) := by
  rw [isBelow, place?]
  cases a.magnitude with
  | whole n => simp [Magnitude.place?]
  | fractional n places => simp [Magnitude.place?, lt_mul_unit_iff]
  | infinite negative => cases negative <;> simp [Magnitude.place?]
  | undefined => simp [Magnitude.place?]

/-- A number that is not below a whole one is at least that, or it is undefined. -/
theorem isBelow_eq_false_iff : a.isBelow bound = false ↔
    ∀ v, a.place? = some v → ((bound : ℝ) : EReal) ≤ v := by
  simp only [← Bool.not_eq_true, isBelow_iff, not_exists, not_and, not_lt]

/-! ## Whole parts -/

theorem floor_div (n : ℤ) {d : ℤ} (hd : 0 < d) : ⌊(n / d : ℝ)⌋ = n / d := by
  rw [Int.floor_div_cast_of_nonneg hd.le, Int.floor_intCast]

theorem ceil_div (n : ℤ) {d : ℤ} (hd : 0 < d) : ⌈(n / d : ℝ)⌉ = -(-n / d) := by
  rw [← floor_div _ hd, Int.cast_neg, neg_div, Int.floor_neg, neg_neg]

theorem ceiling?_of_place? {v : ℝ} (h : a.place? = some (v : EReal)) :
    a.ceiling? = some ⌈v⌉₊ := by
  rw [place?] at h
  rw [ceiling?]
  cases hmagnitude : a.magnitude with
  | whole n =>
    rw [hmagnitude] at h
    obtain rfl := EReal.coe_eq_coe_iff.mp (Option.some.inj h)
    rw [← Int.ceil_toNat, Int.ceil_intCast]
  | fractional n places =>
    rw [hmagnitude] at h
    obtain rfl := EReal.coe_eq_coe_iff.mp (Option.some.inj h)
    have hunit : 0 < unit places := by exact_mod_cast unit_pos places
    rw [← Int.ceil_toNat, ceil_div n hunit, ← Int.fdiv_eq_ediv_of_nonneg _ hunit.le]
  | infinite negative => cases negative <;> simp [hmagnitude, Magnitude.place?] at h
  | undefined => simp [hmagnitude, Magnitude.place?] at h

theorem ceiling?_eq_none_iff :
    a.ceiling? = none ↔ a.place? = none ∨ a.place? = some ⊤ := by
  rw [ceiling?, place?]
  cases a.magnitude with
  | whole n => simp [Magnitude.place?]
  | fractional n places => simp [Magnitude.place?]
  | infinite negative => cases negative <;> simp [Magnitude.place?]
  | undefined => simp [Magnitude.place?]

/-! ## Ranges of floats -/

/-- A float that has its place in a range. -/
def IsFloatIn (range : Set EReal) (a : Number) : Prop :=
  ∃ x v, a = real x ∧ a.place? = some v ∧ v ∈ range

theorem IsFloatIn.of_isAtLeast (hreal : ∃ x, a = real x) (h : a.isAtLeast bound = true) :
    a.IsFloatIn (Set.Ici ((bound : ℝ) : EReal)) := by
  obtain ⟨x, hx⟩ := hreal
  obtain ⟨v, hv, hle⟩ := isAtLeast_iff.mp h
  exact ⟨x, v, hx, hv, hle⟩

theorem IsFloatIn.of_isAbove (hreal : ∃ x, a = real x) (h : a.isAbove bound = true) :
    a.IsFloatIn (Set.Ioi ((bound : ℝ) : EReal)) := by
  obtain ⟨x, hx⟩ := hreal
  obtain ⟨v, hv, hlt⟩ := isAbove_iff.mp h
  exact ⟨x, v, hx, hv, hlt⟩

end DampedLeastSquares.Number
