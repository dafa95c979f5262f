import DampedLeastSquares.Decimal.Digits
import DampedLeastSquares.Proofs.Decimal.Fields
import Mathlib.Algebra.Order.Field.Rat
import Mathlib.Algebra.Order.Floor.Semiring
import Mathlib.Data.Rat.Floor
import Mathlib.Tactic.FieldSimp
import Mathlib.Tactic.Linarith
import Mathlib.Tactic.Positivity

/-!
# The nearest float

A quotient of natural numbers stands for a rational number, and on that number everything the texts
of floats do with quotients can be said: scaling multiplies by a power, rounding moves by half at
most, and the two exponents are the places of the first digit.

The interval of a float holds the numbers that are at least as near to the float as to its
neighbours. The nearest float to any of them is the float itself. There is one case in which the
number and the float differ in their exponents: the interval of a power of two reaches below it,
where the exponent is one less and the mantissa is rounded up to a number with one digit more.
-/

namespace DampedLeastSquares.Decimal

namespace Quotient

/-- The rational number that a quotient stands for. -/
def value (q : Quotient) : ℚ := q.numerator / q.denominator

variable {q r : Quotient}

theorem value_le_value_iff (hq : 0 < q.denominator) (hr : 0 < r.denominator) :
    q.value ≤ r.value ↔ q.numerator * r.denominator ≤ r.numerator * q.denominator := by
  rw [value, value, div_le_div_iff₀ (by exact_mod_cast hq) (by exact_mod_cast hr)]
  exact_mod_cast Iff.rfl

theorem denominator_scale_pos {base : Nat} (hbase : 0 < base) (hq : 0 < q.denominator) (e : Int) :
    0 < (scale base q e).denominator := by
  cases e with
  | ofNat e => exact hq
  | negSucc e => exact Nat.mul_pos hq (Nat.pow_pos hbase)

theorem value_scale (base : Nat) (q : Quotient) (e : Int) :
    (scale base q e).value = q.value * (base : ℚ) ^ e := by
  cases e with
  | ofNat e =>
    simp only [value, scale, Nat.pow_eq, Nat.cast_mul, Nat.cast_pow, Int.ofNat_eq_natCast,
      zpow_natCast]
    ring
  | negSucc e =>
    simp only [value, scale, Nat.pow_eq, Nat.cast_mul, Nat.cast_pow, zpow_negSucc]
    rw [div_mul_eq_div_div, div_eq_mul_inv (_ / _)]

theorem value_ofBinary (mantissa : Nat) (exponent : Int) :
    (ofBinary mantissa exponent).value = mantissa * (2 : ℚ) ^ exponent := by
  rw [ofBinary, value_scale, value, Nat.cast_one, div_one, Nat.cast_ofNat]

theorem denominator_ofBinary_pos (mantissa : Nat) (exponent : Int) :
    0 < (ofBinary mantissa exponent).denominator :=
  denominator_scale_pos Nat.two_pos Nat.one_pos exponent

/-! ## Rounding -/

/-- What is left of the value above the number below it. -/
def rest (q : Quotient) : ℚ := ((q.numerator % q.denominator : Nat) : ℚ) / q.denominator

theorem value_eq (hq : 0 < q.denominator) : q.value = q.floor + q.rest := by
  have hcast : (q.denominator : ℚ) ≠ 0 := by exact_mod_cast hq.ne'
  have hdivision : (q.numerator : ℚ) =
      q.denominator * q.floor + (q.numerator % q.denominator : Nat) := by
    exact_mod_cast (Nat.div_add_mod q.numerator q.denominator).symm
  rw [value, rest, eq_comm, ← eq_sub_iff_add_eq', div_eq_iff hcast, sub_mul,
    div_mul_cancel₀ _ hcast, hdivision]
  ring

theorem rest_nonneg (q : Quotient) : 0 ≤ q.rest := by
  rw [rest]
  positivity

theorem rest_lt_one (hq : 0 < q.denominator) : q.rest < 1 := by
  rw [rest, div_lt_one (by exact_mod_cast hq)]
  exact_mod_cast Nat.mod_lt q.numerator hq

theorem floor_le_value (hq : 0 < q.denominator) : (q.floor : ℚ) ≤ q.value := by
  rw [value_eq hq]
  exact le_add_of_nonneg_right q.rest_nonneg

theorem round_cases (tie : Tie) (hq : 0 < q.denominator) :
    (q.round tie = q.floor ∧ q.rest ≤ 1 / 2) ∨ (q.round tie = q.floor + 1 ∧ 1 / 2 ≤ q.rest) := by
  have hcast : (0 : ℚ) < q.denominator := by exact_mod_cast hq
  have hlow : 2 * (q.numerator % q.denominator) ≤ q.denominator → q.rest ≤ 1 / 2 := by
    intro h
    have h' : 2 * ((q.numerator % q.denominator : Nat) : ℚ) ≤ q.denominator := by exact_mod_cast h
    rw [rest, div_le_iff₀ hcast]
    linarith
  have hhigh : q.denominator ≤ 2 * (q.numerator % q.denominator) → 1 / 2 ≤ q.rest := by
    intro h
    have h' : (q.denominator : ℚ) ≤ 2 * ((q.numerator % q.denominator : Nat) : ℚ) := by
      exact_mod_cast h
    rw [rest, le_div_iff₀ hcast]
    linarith
  unfold round
  by_cases hbelow : 2 * (q.numerator % q.denominator) < q.denominator
  · exact .inl ⟨if_pos hbelow, hlow hbelow.le⟩
  by_cases habove : q.denominator < 2 * (q.numerator % q.denominator)
  · exact .inr ⟨(if_neg hbelow).trans (if_pos habove), hhigh habove.le⟩
  simp only [if_neg hbelow, if_neg habove]
  cases tie with
  | toEven =>
    have hparity : q.floor + q.floor % 2 = q.floor ∨ q.floor + q.floor % 2 = q.floor + 1 := by
      omega
    exact hparity.imp (⟨·, hlow (not_lt.mp habove)⟩) (⟨·, hhigh (not_lt.mp hbelow)⟩)
  | away => exact .inr ⟨rfl, hhigh (not_lt.mp hbelow)⟩

theorem abs_round_sub_value_le (tie : Tie) (hq : 0 < q.denominator) :
    |(q.round tie : ℚ) - q.value| ≤ 1 / 2 := by
  have hnonneg := q.rest_nonneg
  have hlt := rest_lt_one hq
  rw [abs_le, value_eq hq]
  obtain ⟨hround, hrest⟩ | ⟨hround, hrest⟩ := round_cases tie hq
  · rw [hround]
    constructor <;> linarith
  · rw [hround, Nat.cast_succ]
    constructor <;> linarith

theorem even_round_toEven (hq : 0 < q.denominator) (h : q.rest = 1 / 2) :
    q.round .toEven % 2 = 0 := by
  have hcast : (q.denominator : ℚ) ≠ 0 := by exact_mod_cast hq.ne'
  have htwice : 2 * (q.numerator % q.denominator) = q.denominator := by
    rw [rest, div_eq_iff hcast] at h
    have : 2 * ((q.numerator % q.denominator : Nat) : ℚ) = q.denominator := by linarith
    exact_mod_cast this
  unfold round
  simp only [htwice, lt_irrefl, if_false]
  omega

/-- A number that is within half of the value, and even if it is no nearer than that, is the one
that the value is rounded to. -/
theorem round_toEven_eq {n : Nat} (hq : 0 < q.denominator) (hn : |(n : ℚ) - q.value| ≤ 1 / 2)
    (htie : |(n : ℚ) - q.value| = 1 / 2 → n % 2 = 0) : q.round .toEven = n := by
  have hnonneg := q.rest_nonneg
  have hlt := rest_lt_one hq
  rw [value_eq hq] at hn htie
  obtain ⟨hlow, hhigh⟩ := abs_le.mp hn
  have hcases : n = q.floor ∨ n = q.floor + 1 := by
    have hlow' : (q.floor : ℚ) < n + 1 := by linarith
    have hhigh' : (n : ℚ) < q.floor + 2 := by linarith
    have hlow'' : q.floor < n + 1 := by exact_mod_cast hlow'
    have hhigh'' : n < q.floor + 2 := by exact_mod_cast hhigh'
    omega
  by_contra hne
  have hhalf : q.rest = 1 / 2 := by
    obtain ⟨hround, hrest⟩ | ⟨hround, hrest⟩ := round_cases .toEven hq
    · obtain rfl : n = q.floor + 1 := hcases.resolve_left (fun h ↦ hne (hround.trans h.symm))
      push_cast at hhigh
      linarith
    · obtain rfl : n = q.floor := hcases.resolve_right (fun h ↦ hne (hround.trans h.symm))
      linarith
  have hround := round_cases .toEven hq
  have heven := even_round_toEven hq hhalf
  have hodd : n % 2 = 0 := by
    apply htie
    rw [hhalf]
    obtain rfl | rfl := hcases
    · rw [sub_add_cancel_left, abs_neg]
      norm_num
    · push_cast
      rw [add_sub_add_left_eq_sub]
      norm_num
  omega

/-! ## The place of the first binary digit -/

theorem two_zpow_log2_le {n : Nat} (hn : n ≠ 0) : (2 : ℚ) ^ (n.log2 : Int) ≤ n := by
  rw [zpow_natCast]
  exact_mod_cast Nat.log2_self_le hn

theorem lt_two_zpow_log2 (n : Nat) : (n : ℚ) < (2 : ℚ) ^ ((n.log2 : Int) + 1) := by
  have h : n < 2 ^ (n.log2 + 1) := Nat.lt_log2_self
  exact_mod_cast h

theorem binaryExponent_spec (hn : 0 < q.numerator) (hq : 0 < q.denominator) :
    (2 : ℚ) ^ q.binaryExponent ≤ q.value ∧ q.value < (2 : ℚ) ^ (q.binaryExponent + 1) := by
  have hcast : (0 : ℚ) < q.denominator := by exact_mod_cast hq
  have hlow : (2 : ℚ) ^ ((q.numerator.log2 : Int) - q.denominator.log2 - 1) ≤ q.value := by
    rw [value, le_div_iff₀ hcast]
    calc (2 : ℚ) ^ ((q.numerator.log2 : Int) - q.denominator.log2 - 1) * q.denominator
        ≤ 2 ^ ((q.numerator.log2 : Int) - q.denominator.log2 - 1) *
            2 ^ ((q.denominator.log2 : Int) + 1) :=
          mul_le_mul_of_nonneg_left (lt_two_zpow_log2 _).le (zpow_pos two_pos _).le
      _ = 2 ^ (q.numerator.log2 : Int) := by
          rw [← zpow_add₀ two_ne_zero]
          congr 1
          omega
      _ ≤ q.numerator := two_zpow_log2_le hn.ne'
  have hhigh : q.value < (2 : ℚ) ^ ((q.numerator.log2 : Int) - q.denominator.log2 + 1) := by
    rw [value, div_lt_iff₀ hcast]
    calc (q.numerator : ℚ) < 2 ^ ((q.numerator.log2 : Int) + 1) := lt_two_zpow_log2 _
      _ = 2 ^ ((q.numerator.log2 : Int) - q.denominator.log2 + 1) *
            2 ^ (q.denominator.log2 : Int) := by
          rw [← zpow_add₀ two_ne_zero]
          congr 1
          omega
      _ ≤ 2 ^ ((q.numerator.log2 : Int) - q.denominator.log2 + 1) * q.denominator :=
          mul_le_mul_of_nonneg_left (two_zpow_log2_le hq.ne') (zpow_pos two_pos _).le
  have htest := value_le_value_iff (q := scale 2 ⟨1, 1⟩ ((q.numerator.log2 : Int) -
    q.denominator.log2)) (denominator_scale_pos Nat.two_pos Nat.one_pos _) hq
  rw [value_scale, value, Nat.cast_one, div_one, one_mul, Nat.cast_ofNat] at htest
  rw [binaryExponent]
  simp only [← htest]
  by_cases hpower : (2 : ℚ) ^ ((q.numerator.log2 : Int) - q.denominator.log2) ≤ q.value
  · rw [if_pos hpower]
    exact ⟨hpower, hhigh⟩
  · rw [if_neg hpower, sub_add_cancel]
    exact ⟨hlow, not_le.mp hpower⟩

theorem le_binaryExponent_iff (hn : 0 < q.numerator) (hq : 0 < q.denominator) {k : Int} :
    k ≤ q.binaryExponent ↔ (2 : ℚ) ^ k ≤ q.value := by
  obtain ⟨hlow, hhigh⟩ := binaryExponent_spec hn hq
  constructor
  · intro h
    exact (zpow_le_zpow_right₀ one_le_two h).trans hlow
  · intro h
    exact Int.lt_add_one_iff.mp ((zpow_lt_zpow_iff_right₀ one_lt_two).mp (h.trans_lt hhigh))

end Quotient

/-! ## The interval of a float -/

/-- The rational number that a decimal stands for. -/
def Digits.value (d : Digits) : ℚ := d.coefficient * (10 : ℚ) ^ d.exponent

namespace RoundingInterval

/-- What it means for a number to lie in an interval. -/
def Holds (i : RoundingInterval) (v : ℚ) : Prop :=
  if i.closed then
    i.lower * (2 : ℚ) ^ (i.exponent - 2) ≤ v ∧ v ≤ i.upper * (2 : ℚ) ^ (i.exponent - 2)
  else i.lower * (2 : ℚ) ^ (i.exponent - 2) < v ∧ v < i.upper * (2 : ℚ) ^ (i.exponent - 2)

theorem contains_iff (i : RoundingInterval) (d : Digits) :
    i.contains d = true ↔ i.Holds d.value := by
  set decimal := Quotient.scale 10 ⟨d.coefficient, 1⟩ d.exponent with hdecimal
  set unit := Quotient.ofBinary 1 (i.exponent - 2) with hunit
  have hvalue : decimal.value = d.value := by
    rw [hdecimal, Quotient.value_scale, Quotient.value, Nat.cast_one, div_one, Digits.value]
    rfl
  have hdecimal_pos : 0 < decimal.denominator :=
    Quotient.denominator_scale_pos (by decide) Nat.one_pos _
  have hunit_pos : 0 < unit.denominator := Quotient.denominator_ofBinary_pos 1 _
  have hend (n : Nat) : (⟨n * unit.numerator, unit.denominator⟩ : Quotient).value =
      n * (2 : ℚ) ^ (i.exponent - 2) := by
    have := Quotient.value_ofBinary 1 (i.exponent - 2)
    rw [← hunit, Quotient.value, Nat.cast_one, one_mul] at this
    rw [Quotient.value, Nat.cast_mul, mul_div_assoc, this]
  have hle (n : Nat) := Quotient.value_le_value_iff (q := ⟨n * unit.numerator, unit.denominator⟩)
    (r := decimal) hunit_pos hdecimal_pos
  have hge (n : Nat) := Quotient.value_le_value_iff (q := decimal)
    (r := ⟨n * unit.numerator, unit.denominator⟩) hdecimal_pos hunit_pos
  simp only [hend, hvalue] at hle hge
  rw [contains, Holds]
  by_cases hclosed : i.closed = true
  · rw [if_pos hclosed, if_pos hclosed, decide_eq_true_iff, hle, hge]
  · rw [if_neg hclosed, if_neg hclosed, decide_eq_true_iff]
    exact and_congr (lt_iff_lt_of_le_iff_le (hge _)).symm (lt_iff_lt_of_le_iff_le (hle _)).symm

/-- In units of the last digit of the mantissa, the upper end is half a unit away. -/
theorem holds_iff {mantissa : Nat} {exponent : Int} {w : ℚ} :
    (ofBinary mantissa exponent).Holds (w * 2 ^ exponent) ↔
      if mantissa % 2 = 0 then
        ((ofBinary mantissa exponent).lower : ℚ) / 4 ≤ w ∧ w ≤ mantissa + 1 / 2
      else ((ofBinary mantissa exponent).lower : ℚ) / 4 < w ∧ w < mantissa + 1 / 2 := by
  have hunit : (0 : ℚ) < 2 ^ exponent := zpow_pos two_pos _
  have hquarter : (2 : ℚ) ^ ((ofBinary mantissa exponent).exponent - 2) = 1 / 4 * 2 ^ exponent := by
    rw [ofBinary, zpow_sub₀ two_ne_zero]
    ring
  have hupper : ((ofBinary mantissa exponent).upper : ℚ) * (1 / 4) = mantissa + 1 / 2 := by
    simp only [ofBinary, Nat.cast_add, Nat.cast_mul, Nat.cast_ofNat]
    ring
  rw [Holds, hquarter, ← mul_assoc, ← mul_assoc, hupper, mul_one_div]
  by_cases heven : mantissa % 2 = 0
  · have hclosed : (ofBinary mantissa exponent).closed = true := decide_eq_true heven
    rw [if_pos hclosed, if_pos heven, mul_le_mul_iff_left₀ hunit, mul_le_mul_iff_left₀ hunit]
  · have hopen : ¬(ofBinary mantissa exponent).closed = true := by
      rw [ofBinary, decide_eq_true_iff]
      exact heven
    rw [if_neg hopen, if_neg heven, mul_lt_mul_iff_left₀ hunit, mul_lt_mul_iff_left₀ hunit]

/-- In the same units, the lower end is half a unit away, or a quarter below a power of two. -/
theorem lower_ofBinary {mantissa : Nat} (hm : 0 < mantissa) (exponent : Int) :
    ((ofBinary mantissa exponent).lower : ℚ) / 4 =
      if mantissa = leastMantissa ∧ exponent ≠ -1074 then (mantissa : ℚ) - 1 / 4
      else mantissa - 1 / 2 := by
  rw [ofBinary, apply_ite Nat.cast, Nat.cast_sub (by omega), Nat.cast_sub (by omega)]
  split_ifs <;> push_cast <;> ring

/-- A number in the interval of a float is within half a unit of the mantissa, and nearer than that
unless the mantissa is even. -/
theorem Holds.near {mantissa : Nat} {exponent : Int} {w : ℚ} (hm : 0 < mantissa)
    (h : (ofBinary mantissa exponent).Holds (w * 2 ^ exponent)) :
    |(mantissa : ℚ) - w| ≤ 1 / 2 ∧ (|(mantissa : ℚ) - w| = 1 / 2 → mantissa % 2 = 0) := by
  have hlower : (mantissa : ℚ) - 1 / 2 ≤ (ofBinary mantissa exponent).lower / 4 := by
    rw [lower_ofBinary hm]
    split_ifs <;> linarith
  rw [holds_iff] at h
  by_cases heven : mantissa % 2 = 0
  · rw [if_pos heven] at h
    exact ⟨abs_le.mpr ⟨by linarith, by linarith⟩, fun _ ↦ heven⟩
  · rw [if_neg heven] at h
    have hstrict : |(mantissa : ℚ) - w| < 1 / 2 := abs_lt.mpr ⟨by linarith, by linarith⟩
    exact ⟨hstrict.le, (absurd · hstrict.ne)⟩

theorem Holds.bounds {mantissa : Nat} {exponent : Int} {v : ℚ} (hm : 0 < mantissa)
    (h : (ofBinary mantissa exponent).Holds v) :
    ((mantissa : ℚ) - 1 / 2) * 2 ^ exponent ≤ v ∧ v ≤ ((mantissa : ℚ) + 1 / 2) * 2 ^ exponent := by
  have hunit : (0 : ℚ) < 2 ^ exponent := zpow_pos two_pos _
  rw [← div_mul_cancel₀ v hunit.ne'] at h
  obtain ⟨hhigh, hlow⟩ := abs_le.mp (h.near hm).1
  rw [← le_div_iff₀ hunit, ← div_le_iff₀ hunit]
  constructor <;> linarith

theorem Holds.le_of_leastMantissa {exponent : Int} {w : ℚ} (hexponent : exponent ≠ -1074)
    (h : (ofBinary leastMantissa exponent).Holds (w * 2 ^ exponent)) :
    (leastMantissa : ℚ) - 1 / 4 ≤ w := by
  have heven : leastMantissa % 2 = 0 := by decide
  rw [holds_iff, if_pos heven, lower_ofBinary (by decide), if_pos ⟨rfl, hexponent⟩] at h
  exact h.1

end RoundingInterval

namespace Quotient

variable {q : Quotient}

theorem ofBinary_two_mul_leastMantissa {exponent : Int} (h : -1074 < exponent) :
    Decimal.ofBinary (2 * leastMantissa) (exponent - 1) =
      Decimal.ofBinary leastMantissa exponent := by
  have hcarry : (exponent + 1074).toNat = (exponent - 1 + 1074).toNat + 1 := by omega
  rw [Decimal.ofBinary, Decimal.ofBinary, hcarry, Nat.two_mul, ← Nat.add_assoc, Nat.add_one_mul]

theorem toFloat_eq {n : Nat} {exponent : Int} (hn : 0 < q.numerator) (hq : 0 < q.denominator)
    (hexponent : max (-1074) (q.binaryExponent - 52) = exponent)
    (hnear : |(n : ℚ) - q.value * 2 ^ (-exponent)| ≤ 1 / 2)
    (htie : |(n : ℚ) - q.value * 2 ^ (-exponent)| = 1 / 2 → n % 2 = 0)
    (hfinite : (exponent + 1074).toNat * leastMantissa + n ≤ 0x7ff * leastMantissa) :
    q.toFloat = Decimal.ofBinary n exponent := by
  have hvalue : (q.scale 2 (-exponent)).value = q.value * 2 ^ (-exponent) := value_scale 2 q _
  have hround : (q.scale 2 (-exponent)).round .toEven = n :=
    round_toEven_eq (denominator_scale_pos Nat.two_pos hq _) (by rwa [hvalue]) (by rwa [hvalue])
  rw [toFloat, if_neg hn.ne', hexponent]
  simp only [hround]
  rw [min_eq_left hfinite, Decimal.ofBinary]

/-- The nearest float to a number in the interval of a float is that float. -/
theorem toFloat_eq_ofBinary {mantissa : Nat} {exponent : Int}
    (hq : 0 < q.denominator) (hm : 0 < mantissa) (hbinary : IsBinary mantissa exponent)
    (h : (RoundingInterval.ofBinary mantissa exponent).Holds q.value) :
    q.toFloat = Decimal.ofBinary mantissa exponent := by
  obtain ⟨hlt, hle, hge, hfull⟩ := hbinary
  set w := q.value * (2 : ℚ) ^ (-exponent) with hw
  have hunit : (0 : ℚ) < 2 ^ exponent := zpow_pos two_pos _
  have hvalue : q.value = w * 2 ^ exponent := by
    rw [hw, mul_assoc, ← zpow_add₀ two_ne_zero, neg_add_cancel, zpow_zero, mul_one]
  rw [hvalue] at h
  obtain ⟨hnear, htie⟩ := h.near hm
  obtain ⟨hhigh, hlow⟩ := abs_le.mp hnear
  have hleast : (leastMantissa : ℚ) = 2 ^ (52 : Int) := by norm_num [leastMantissa]
  have hn : 0 < q.numerator := by
    by_contra hzero
    have hone : (1 : ℚ) ≤ mantissa := by exact_mod_cast hm
    have : q.value = 0 := by rw [value, Nat.eq_zero_of_not_pos hzero, Nat.cast_zero, zero_div]
    rw [hw, this, zero_mul] at hlow
    linarith
  have hdigits (k : Int) : exponent + k ≤ q.binaryExponent ↔ (2 : ℚ) ^ k ≤ w := by
    rw [le_binaryExponent_iff hn hq, hvalue, add_comm, zpow_add₀ two_ne_zero,
      mul_le_mul_iff_left₀ hunit]
  have hbelow : ¬exponent + 53 ≤ q.binaryExponent := by
    have hlast : (mantissa : ℚ) + 1 ≤ 2 * leastMantissa := by exact_mod_cast hlt
    have hdouble : (2 : ℚ) ^ (53 : Int) = 2 * leastMantissa := by norm_num [leastMantissa]
    rw [hdigits, hdouble]
    linarith
  by_cases hreach : exponent ≠ -1074 ∧ w < leastMantissa
  · -- The value has one digit less than the mantissa, which is that of a power of two.
    obtain ⟨hexponent, hreach⟩ := hreach
    have hfew : ¬exponent + 52 ≤ q.binaryExponent := by
      rwa [hdigits, ← hleast, not_le]
    obtain rfl : mantissa = leastMantissa := by
      refine le_antisymm ?_ (hfull.resolve_right hexponent)
      have : (mantissa : ℚ) < leastMantissa + 1 := by linarith
      exact Nat.lt_succ_iff.mp (by exact_mod_cast this)
    have hquarter := h.le_of_leastMantissa hexponent
    have hmany : exponent + 51 ≤ q.binaryExponent := by
      rw [hdigits]
      norm_num [leastMantissa] at hquarter ⊢
      linarith
    have hdouble : q.value * 2 ^ (-(exponent - 1)) = 2 * w := by
      rw [neg_sub, sub_eq_add_neg, zpow_add₀ two_ne_zero, zpow_one, hw]
      ring
    have hshift : max (-1074) (q.binaryExponent - 52) = exponent - 1 := by omega
    rw [← ofBinary_two_mul_leastMantissa (by omega)]
    refine toFloat_eq hn hq hshift ?_ (fun _ ↦ by decide) (by rw [leastMantissa]; omega)
    rw [hdouble, Nat.cast_mul, Nat.cast_ofNat, abs_le]
    constructor <;> linarith
  · refine toFloat_eq hn hq ?_ hnear htie ?_
    · have hmany : exponent = -1074 ∨ exponent + 52 ≤ q.binaryExponent := by
        rw [hdigits, ← hleast, ← not_lt, ← not_ne_iff, ← not_and_or]
        exact hreach
      omega
    · rw [leastMantissa] at hlt ⊢
      omega

end Quotient

end DampedLeastSquares.Decimal
