import DampedLeastSquares.Proofs.Decimal.Nearest

/-!
# The shortest decimal of a float

The digits of a float are looked for on finer and finer grids of decimals. On the last grid, the
seventeenth, the search always ends: the first digit of the value stands sixteen places before it,
so one of its points is within `10 ^ -16 / 2` of the value in proportion, and the interval of a
float with 53 binary digits is wider than that. Whatever the search ends with lies in the interval,
and dropping zeros from the end does not change it.
-/

namespace DampedLeastSquares.Decimal

/-! ## The place of the first decimal digit -/

namespace Quotient

variable {q : Quotient}

theorem lt_pow_digitCount (n : Nat) : n < 10 ^ digitCount n := by
  rw [digitCount]
  by_cases hn : n = 0
  · rw [if_pos hn, hn]
    exact Nat.one_pos
  · rw [if_neg hn]
    exact (Nat.length_toDigits_le_iff (by decide) Nat.length_toDigits_pos).mp le_rfl

theorem digitCount_pos {n : Nat} (hn : 0 < n) : 0 < digitCount n := by
  rw [digitCount, if_neg hn.ne']
  exact Nat.length_toDigits_pos

theorem pow_digitCount_le {n : Nat} (hn : 0 < n) : 10 ^ (digitCount n - 1) ≤ n := by
  by_cases hone : digitCount n = 1
  · rw [hone]
    exact hn
  · have hpos := digitCount_pos hn
    by_contra hlt
    rw [digitCount, if_neg hn.ne'] at hone hpos hlt
    have := (Nat.length_toDigits_le_iff (n := n) (b := 10) (by decide) (by omega)).mpr
      (not_le.mp hlt)
    omega

theorem zpow_decimalExponent_le (hn : 0 < q.numerator) (hq : 0 < q.denominator) :
    (10 : ℚ) ^ q.decimalExponent ≤ q.value := by
  have hcast : (0 : ℚ) < q.denominator := by exact_mod_cast hq
  rw [decimalExponent]
  by_cases hwhole : q.denominator ≤ q.numerator
  · rw [if_pos hwhole]
    have hfloor : 0 < q.floor := Nat.div_pos hwhole hq
    calc (10 : ℚ) ^ ((digitCount q.floor : Int) - 1)
        = ((10 ^ (digitCount q.floor - 1) : Nat) : ℚ) := by
          rw [← Int.natCast_pred_of_pos (digitCount_pos hfloor), zpow_natCast]
          norm_num
      _ ≤ q.floor := by exact_mod_cast pow_digitCount_le hfloor
      _ ≤ q.value := floor_le_value hq
  · rw [if_neg hwhole]
    set ceiling := (q.denominator + q.numerator - 1) / q.numerator with hceiling
    have hup : q.denominator ≤ q.numerator * ceiling := by
      have := Nat.lt_mul_div_succ (q.denominator + q.numerator - 1) hn
      rw [← hceiling, Nat.mul_succ] at this
      omega
    have hpower : q.denominator ≤ q.numerator * 10 ^ digitCount (ceiling - 1) := by
      have := lt_pow_digitCount (ceiling - 1)
      exact hup.trans (Nat.mul_le_mul_left _ (by omega))
    have hexponent : Int.negOfNat (digitCount (ceiling - 1)) = -(digitCount (ceiling - 1) : Int) :=
      Int.negOfNat_eq
    rw [hexponent, zpow_neg, zpow_natCast, value, inv_eq_one_div,
      div_le_div_iff₀ (by positivity) hcast, one_mul]
    exact_mod_cast hpower

end Quotient

/-! ## The search -/

namespace RoundingInterval

theorem holds_of_near {mantissa : Nat} {exponent : Int} {w : ℚ} (hm : 0 < mantissa)
    (h : |w - mantissa| < if mantissa = leastMantissa then 1 / 4 else 1 / 2) :
    (ofBinary mantissa exponent).Holds (w * 2 ^ exponent) := by
  rw [holds_iff, lower_ofBinary hm]
  rw [abs_lt] at h
  by_cases hpower : mantissa = leastMantissa
  · rw [if_pos hpower] at h
    split_ifs <;> constructor <;> linarith
  · have hwide : ¬(mantissa = leastMantissa ∧ exponent ≠ -1074) := fun hboth ↦ hpower hboth.1
    rw [if_neg hpower] at h
    rw [if_neg hwide]
    split_ifs <;> constructor <;> linarith

end RoundingInterval

namespace Digits

theorem abs_value_round_sub_le (tie : Tie) {q : Quotient} (hq : 0 < q.denominator) (place : Int) :
    |(⟨(q.scale 10 (-place)).round tie, place⟩ : Digits).value - q.value| ≤ 10 ^ place / 2 := by
  have hstep : (0 : ℚ) < 10 ^ place := zpow_pos (by norm_num) _
  have hvalue : q.value = (q.scale 10 (-place)).value * 10 ^ place := by
    rw [Quotient.value_scale, mul_assoc, Nat.cast_ofNat, ← zpow_add₀ (by norm_num), neg_add_cancel,
      zpow_zero, mul_one]
  have hround := Quotient.abs_round_sub_value_le tie
    (Quotient.denominator_scale_pos (by decide : 0 < 10) hq (-place))
  rw [value, hvalue, ← sub_mul, abs_mul, abs_of_pos hstep]
  calc _ ≤ 1 / 2 * (10 : ℚ) ^ place := mul_le_mul_of_nonneg_right hround hstep.le
    _ = 10 ^ place / 2 := by ring

theorem numerator_ofBinary_pos {mantissa : Nat} (hm : 0 < mantissa) (exponent : Int) :
    0 < (Quotient.ofBinary mantissa exponent).numerator := by
  cases exponent with
  | ofNat e => exact Nat.mul_pos hm (Nat.pow_pos Nat.two_pos)
  | negSucc e => exact hm

/-- On a grid with seventeen digits, the point next to the value lies in the interval. -/
theorem contains_round (tie : Tie) {mantissa : Nat} (hm : 0 < mantissa)
    (hlt : mantissa < 2 * leastMantissa) (exponent : Int) :
    let q := Quotient.ofBinary mantissa exponent
    (RoundingInterval.ofBinary mantissa exponent).contains
      ⟨(q.scale 10 (-(q.decimalExponent - 16))).round tie, q.decimalExponent - 16⟩ = true := by
  intro q
  have hunit : (0 : ℚ) < 2 ^ exponent := zpow_pos two_pos _
  have hvalue : q.value = mantissa * 2 ^ exponent := Quotient.value_ofBinary mantissa exponent
  have hleading := Quotient.zpow_decimalExponent_le (numerator_ofBinary_pos hm exponent)
    (Quotient.denominator_ofBinary_pos mantissa exponent)
  have hnear := abs_value_round_sub_le tie (Quotient.denominator_ofBinary_pos mantissa exponent)
    (q.decimalExponent - 16)
  set d : Digits := ⟨(q.scale 10 (-(q.decimalExponent - 16))).round tie, q.decimalExponent - 16⟩
  have hstep : (10 : ℚ) ^ (q.decimalExponent - 16) ≤ mantissa / 10 ^ 16 * 2 ^ exponent := by
    rw [zpow_sub₀ (by norm_num), div_mul_eq_mul_div, ← hvalue]
    exact div_le_div_of_nonneg_right hleading (by norm_num)
  have hscaled : d.value = d.value / 2 ^ exponent * 2 ^ exponent :=
    (div_mul_cancel₀ _ hunit.ne').symm
  have hdistance : |d.value / 2 ^ exponent - mantissa| ≤ mantissa / 10 ^ 16 / 2 := by
    rw [← mul_le_mul_iff_left₀ hunit, ← abs_of_pos hunit, ← abs_mul, sub_mul, abs_of_pos hunit,
      ← hscaled, ← hvalue]
    linarith
  rw [RoundingInterval.contains_iff, hscaled]
  refine RoundingInterval.holds_of_near hm (hdistance.trans_lt ?_)
  by_cases hpower : mantissa = leastMantissa
  · rw [if_pos hpower, hpower]
    norm_num [leastMantissa]
  · have hfew : (mantissa : ℚ) < 2 ^ 53 := by exact_mod_cast hlt
    rw [if_neg hpower]
    linarith

/-! ## The result -/

theorem value_dropZeros (fuel : Nat) (d : Digits) : (dropZeros fuel d).value = d.value := by
  induction fuel generalizing d with
  | zero => rfl
  | succ fuel ih =>
    rw [dropZeros]
    by_cases hzero : d.coefficient ≠ 0 ∧ d.coefficient % 10 = 0
    · have hcoefficient : d.coefficient = d.coefficient / 10 * 10 := by omega
      rw [if_pos hzero, ih, value, value, hcoefficient, zpow_add₀ (by norm_num), zpow_one,
        Nat.mul_div_cancel _ (by decide)]
      push_cast
      ring
    · rw [if_neg hzero]

/-- The shortest decimal of a float lies in its interval. -/
theorem holds_shortest (tie : Tie) {mantissa : Nat} (hm : 0 < mantissa)
    (hlt : mantissa < 2 * leastMantissa) (exponent : Int) :
    (RoundingInterval.ofBinary mantissa exponent).Holds (shortest tie mantissa exponent).value := by
  set q := Quotient.ofBinary mantissa exponent
  set i := RoundingInterval.ofBinary mantissa exponent
  set grids := (List.range 17).map fun (extra : Nat) ↦ q.decimalExponent - (extra : Int) with hgrids
  have hlast : q.decimalExponent - 16 ∈ grids :=
    List.mem_map.mpr ⟨16, List.mem_range.mpr (by decide), rfl⟩
  obtain ⟨d, hd⟩ : ∃ d, grids.findSome? (onGrid? tie i q) = some d := by
    rw [← Option.isSome_iff_exists, List.findSome?_isSome_iff]
    refine ⟨_, hlast, List.find?_isSome.mpr ⟨_, List.mem_cons_self, ?_⟩⟩
    exact contains_round tie hm hlt exponent
  obtain ⟨place, -, hplace⟩ := List.exists_of_findSome?_eq_some hd
  have hcontains : i.contains d = true := List.find?_some hplace
  have hshortest : shortest tie mantissa exponent = d.trim := by
    change ((grids.findSome? (onGrid? tie i q)).getD (significant q 17)).trim = d.trim
    rw [hd, Option.getD_some]
  rw [hshortest, trim, value_dropZeros]
  exact (RoundingInterval.contains_iff i d).mp hcontains

end Digits

end DampedLeastSquares.Decimal
