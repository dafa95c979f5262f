import DampedLeastSquares.Proofs.Decimal.Numerals

/-!
# Numbers too large for a float

The largest float is `2 ^ 1024 - 2 ^ 971`, and the next one would be `2 ^ 1024`. A number halfway
between the two is rounded to the even mantissa, which is that of the next one, and so the numbers
that have a finite float next to them are those below `2 ^ 1024 - 2 ^ 970`.

Only the numbers whose first binary digit has the place 1023 need a look at the rounding. Those with
fewer digits stay finite even if they are rounded up, and those with more have an exponent that no
finite float has.
-/

namespace DampedLeastSquares.Decimal

section

open Float.Model

variable {s : UnpackedFloat.Sign} {e : BitVec 11} {f : BitVec 52}

theorem isFinite_ofComponents_iff (h : e = -1#11 → f = 0#52) :
    (ofComponents s e f).isFinite = true ↔ e ≠ -1#11 := by
  refine ⟨fun hfinite hall ↦ ?_, isFinite_ofComponents⟩
  rw [hall, h hall] at hfinite
  have hinfinite : (ofComponents s (-1#11) 0#52).isFinite = false := by cases s <;> decide +kernel
  rw [hinfinite] at hfinite
  exact nomatch hfinite

theorem isFinite_ofBits_iff {bits : Nat} (h : bits ≤ 0x7ff * leastMantissa) (negative : Bool) :
    (if negative then -Float.ofBits bits.toUInt64 else Float.ofBits bits.toUInt64).isFinite =
      true ↔ bits < 0x7ff * leastMantissa := by
  have hleast : leastMantissa = 2 ^ 52 := rfl
  set e := BitVec.ofNat 11 (bits / 2 ^ 52) with he
  set f := BitVec.ofNat 52 bits with hf
  have hexponent : e.toNat = bits / 2 ^ 52 := by
    rw [he, BitVec.toNat_ofNat]
    omega
  have hfraction : f.toNat = bits % 2 ^ 52 := by rw [hf, BitVec.toNat_ofNat]
  have hlast : e = -1#11 ↔ bits / 2 ^ 52 = 2047 := by
    rw [← BitVec.toNat_inj, hexponent]
    exact Iff.rfl
  have hvalid : e = -1#11 → f = 0#52 := by
    intro hall
    apply BitVec.eq_of_toNat_eq
    rw [hfraction]
    change bits % 2 ^ 52 = 0
    have := hlast.mp hall
    omega
  have hbits : Float.ofBits bits.toUInt64 = ofComponents .positive e f := by
    have hunit : (-1074 + 1074 : Int).toNat = 0 := rfl
    have hbinary : ofBinary bits (-1074) = ofComponents .positive e f :=
      ofBinary_eq_ofComponents (by omega)
    rw [← hbinary, ofBinary, hunit, Nat.zero_mul, Nat.zero_add]
  have hsigned : (if negative then -Float.ofBits bits.toUInt64 else Float.ofBits bits.toUInt64) =
      ofComponents (if negative then .negative else .positive) e f := by
    rw [hbits]
    cases negative
    · rfl
    · exact neg_ofComponents hvalid
  rw [hsigned, isFinite_ofComponents_iff hvalid, ne_eq, hlast]
  omega

end

namespace Quotient

variable {q : Quotient}

/-- The least number without a finite float next to it. -/
def overflow : ℚ := 2 ^ 1024 - 2 ^ 970

theorem overflow_eq : overflow = (2 ^ 53 - 1 / 2) * 2 ^ (971 : Int) := by
  have hlast : (2 : ℚ) ^ 971 = 2 ^ 970 * 2 := pow_succ 2 970
  have hhalf : (1 / 2 : ℚ) * 2 ^ 971 = 2 ^ 970 := by
    rw [hlast, mul_comm, mul_assoc, mul_one_div_cancel two_ne_zero, mul_one]
  rw [overflow, zpow_ofNat, sub_mul, hhalf, ← pow_add]

/-- A mantissa of 53 digits is kept below the next power of two if it is below the middle. -/
theorem round_toEven_lt_iff (hq : 0 < q.denominator) (h : q.value < 2 ^ 53) :
    q.round .toEven < 2 ^ 53 ↔ q.value < 2 ^ 53 - 1 / 2 := by
  constructor
  · intro hround
    by_contra hvalue
    have hnear : |((2 ^ 53 : Nat) : ℚ) - q.value| ≤ 1 / 2 := by
      push_cast
      exact abs_le.mpr ⟨by linarith, by linarith⟩
    rw [round_toEven_eq hq hnear fun _ ↦ rfl] at hround
    exact hround.false
  · intro hvalue
    have := (abs_le.mp (abs_round_sub_value_le .toEven hq)).2
    have hround : (q.round .toEven : ℚ) < (2 ^ 53 : Nat) := by
      push_cast
      linarith
    exact_mod_cast hround

/-- A positive number has a finite float next to it, with either sign, if it is below the middle
between the largest float and the next power of two. -/
theorem isFinite_toFloat_iff (hn : 0 < q.numerator) (hq : 0 < q.denominator) (negative : Bool) :
    (if negative then -q.toFloat else q.toFloat).isFinite = true ↔ q.value < overflow := by
  obtain ⟨hlow, hhigh⟩ := binaryExponent_spec hn hq
  set p := q.binaryExponent with hp
  set exponent := max (-1074) (p - 52) with hexponent
  set m := q.scale 2 (-exponent) with hm
  have hunit : (0 : ℚ) < 2 ^ exponent := zpow_pos two_pos _
  have hvalue : q.value = m.value * 2 ^ exponent := by
    rw [hm, value_scale 2 q, Nat.cast_ofNat, mul_assoc, ← zpow_add₀ two_ne_zero, neg_add_cancel,
      zpow_zero, mul_one]
  have hpos : 0 < m.denominator := denominator_scale_pos Nat.two_pos hq _
  obtain ⟨hbelow, habove⟩ := abs_le.mp (abs_round_sub_value_le .toEven hpos)
  have hfew : m.value < 2 ^ 53 := by
    refine (mul_lt_mul_iff_left₀ hunit).mp (hvalue ▸ hhigh.trans_le ?_)
    rw [← zpow_ofNat, ← zpow_add₀ two_ne_zero]
    exact zpow_le_zpow_right₀ one_le_two (by omega)
  have hround : m.round .toEven < 2 ^ 53 + 1 := by
    have : (m.round .toEven : ℚ) < 2 ^ 53 + 1 := by linarith
    exact_mod_cast this
  have hleast : leastMantissa = 2 ^ 52 := rfl
  rw [toFloat, if_neg hn.ne', ← hp, ← hexponent]
  simp only
  rw [← hm, isFinite_ofBits_iff (min_le_right _ _), min_lt_iff, or_iff_left (lt_irrefl _), hleast]
  rcases lt_trichotomy p 1023 with hless | hlast | hmore
  · -- Even rounded up to one digit more, the exponent is in range.
    have hunits : (exponent + 1074).toNat * 2 ^ 52 ≤ 2044 * 2 ^ 52 :=
      Nat.mul_le_mul_right _ (by omega)
    refine iff_of_true (by omega) ?_
    calc q.value < 2 ^ (p + 1) := hhigh
      _ ≤ 2 ^ (52 + 971 : Int) := zpow_le_zpow_right₀ one_le_two (by omega)
      _ = 2 ^ 52 * 2 ^ (971 : Int) := by rw [zpow_add₀ two_ne_zero, zpow_ofNat]
      _ ≤ overflow := by
        rw [overflow_eq]
        exact mul_le_mul_of_nonneg_right (by norm_num) (zpow_pos two_pos _).le
  · obtain hmax : exponent = 971 := by omega
    rw [hvalue, overflow_eq, hmax, mul_lt_mul_iff_left₀ (zpow_pos two_pos _),
      ← round_toEven_lt_iff hpos hfew]
    have hunits : (971 + 1074 : Int).toNat = 2045 := rfl
    omega
  · -- The exponent is that of an infinite float.
    have hunits : 2046 * 2 ^ 52 ≤ (exponent + 1074).toNat * 2 ^ 52 :=
      Nat.mul_le_mul_right _ (by omega)
    have hfull : (2 : ℚ) ^ 52 ≤ m.value := by
      refine (mul_le_mul_iff_left₀ hunit).mp (hvalue ▸ le_trans ?_ hlow)
      rw [← zpow_ofNat, ← zpow_add₀ two_ne_zero]
      exact zpow_le_zpow_right₀ one_le_two (by omega)
    have hround : 2 ^ 52 - 1 < m.round .toEven := by
      have : ((2 ^ 52 - 1 : Nat) : ℚ) < m.round .toEven := by
        push_cast
        linarith
      exact_mod_cast this
    refine iff_of_false (by omega) (not_lt.mpr ?_)
    calc overflow ≤ 2 ^ 53 * 2 ^ (971 : Int) := by
          rw [overflow_eq]
          exact mul_le_mul_of_nonneg_right (by norm_num) (zpow_pos two_pos _).le
      _ = 2 ^ (53 + 971 : Int) := by rw [zpow_add₀ two_ne_zero, zpow_ofNat 2 53]
      _ ≤ 2 ^ p := zpow_le_zpow_right₀ one_le_two (by omega)
      _ ≤ q.value := hlow

end Quotient

/-- **A decimal is read as a finite float if it is below the middle between the largest float and
the next power of two**, with either sign. -/
theorem isFinite_toFloat_iff (negative : Bool) (d : Digits) :
    (toFloat negative d.coefficient d.exponent).isFinite = true ↔ d.value < Quotient.overflow := by
  by_cases hsmall : d.coefficient = 0 ∨
      d.exponent + (Quotient.digitCount d.coefficient : Int) < -330
  · rw [toFloat, if_pos hsmall]
    have hvalue : d.value ≤ 1 := by
      rcases hsmall with hzero | hfew
      · rw [Digits.value, hzero, Nat.cast_zero, zero_mul]
        exact zero_le_one
      · exact d.value_lt_zpow.le.trans (zpow_le_one_of_nonpos₀ (by norm_num) (by omega))
    refine iff_of_true (by cases negative <;> decide +kernel) (hvalue.trans_lt ?_)
    calc (1 : ℚ) < 2 ^ 53 - 1 / 2 := by norm_num
      _ ≤ (2 ^ 53 - 1 / 2) * 2 ^ (971 : Int) :=
        le_mul_of_one_le_right (by norm_num) (one_le_zpow₀ one_le_two (by decide))
      _ = Quotient.overflow := Quotient.overflow_eq.symm
  have hpos : 0 < d.coefficient := Nat.pos_of_ne_zero fun h ↦ hsmall (.inl h)
  by_cases hlarge : 310 < d.exponent + (Quotient.digitCount d.coefficient : Int)
  · rw [toFloat, if_neg hsmall, if_pos hlarge]
    refine iff_of_false (by cases negative <;> decide +kernel) (not_lt.mpr ?_)
    calc Quotient.overflow ≤ 2 ^ (1024 : Int) := by
          rw [Quotient.overflow, zpow_ofNat]
          exact sub_le_self _ (pow_nonneg zero_le_two _)
      _ ≤ 10 ^ (309 : Int) := zpow_two_lt.le
      _ ≤ 10 ^ (d.exponent + (Quotient.digitCount d.coefficient - 1 : Int)) :=
        zpow_le_zpow_right₀ (by norm_num) (by omega)
      _ ≤ d.value := Digits.zpow_le_value hpos
  · have hvalue : (Quotient.scale 10 ⟨d.coefficient, 1⟩ d.exponent).value = d.value := by
      rw [Quotient.value_scale, Quotient.value, Nat.cast_one, div_one, Digits.value]
      rfl
    have hdenominator : 0 < (Quotient.scale 10 ⟨d.coefficient, 1⟩ d.exponent).denominator :=
      Quotient.denominator_scale_pos (by decide) Nat.one_pos _
    have hnumerator : 0 < (Quotient.scale 10 ⟨d.coefficient, 1⟩ d.exponent).numerator := by
      refine Nat.pos_of_ne_zero fun hzero ↦ ?_
      have hdpos : 0 < d.value := mul_pos (by exact_mod_cast hpos) (zpow_pos (by norm_num) _)
      rw [← hvalue, Quotient.value, hzero, Nat.cast_zero, zero_div] at hdpos
      exact hdpos.false
    rw [toFloat, if_neg hsmall, if_neg hlarge,
      Quotient.isFinite_toFloat_iff hnumerator hdenominator, hvalue]

theorem isFinite_ofInt_iff {n : Int} :
    (ofInt n).isFinite = true ↔ n.natAbs < 2 ^ 1024 - 2 ^ 970 := by
  have hpower : 2 ^ 970 ≤ 2 ^ 1024 := by decide +kernel
  have hvalue : (⟨n.natAbs, 0⟩ : Digits).value = (n.natAbs : ℚ) := by
    rw [Digits.value, zpow_zero, mul_one]
  have hoverflow : Quotient.overflow = ((2 ^ 1024 - 2 ^ 970 : Nat) : ℚ) := by
    rw [Nat.cast_sub hpower, Quotient.overflow, Nat.cast_pow, Nat.cast_pow, Nat.cast_ofNat]
  rw [ofInt, isFinite_toFloat_iff _ ⟨n.natAbs, 0⟩, hvalue, hoverflow, Nat.cast_lt]

end DampedLeastSquares.Decimal
