import DampedLeastSquares.Decimal.Layout
import DampedLeastSquares.Proofs.Decimal.Shortest
import DampedLeastSquares.Toml.Literal

/-!
# Numbers read back from their texts

The text of a whole number is its digits behind a sign. The plain text of a finite float is a sign,
digits, a point, and digits, and read as one number with the point in its place these stand for the
shortest decimal of the float. That decimal lies in the interval of the float, so the nearest float
to it is the float that was written.
-/

namespace DampedLeastSquares.Decimal

/-! ## Digits -/

/-- A run of digits. -/
def AreDigits (cs : List Char) : Prop := ∀ c ∈ cs, c.isDigit = true

theorem AreDigits.append {cs ds : List Char} (hc : AreDigits cs) (hd : AreDigits ds) :
    AreDigits (cs ++ ds) := by
  intro c h
  exact (List.mem_append.mp h).elim (hc c) (hd c)

theorem areDigits_toDigits (n : Nat) : AreDigits (Nat.toDigits 10 n) :=
  fun _ ↦ Nat.isDigit_of_mem_toDigits (by decide) (by decide)

theorem areDigits_replicate (n : Nat) : AreDigits (List.replicate n '0') := by
  intro c h
  rw [(List.mem_replicate.mp h).2]
  rfl

theorem readNat_eq {cs : List Char} (h : AreDigits cs) :
    readNat 10 cs = Nat.ofDigitChars 10 cs 0 := by
  rw [readNat, Nat.ofDigitChars_eq_foldl]
  generalize 0 = n
  induction cs generalizing n with
  | nil => rfl
  | cons c cs ih =>
    have hc : digitValue c = c.toNat - '0'.toNat := if_pos (h c List.mem_cons_self)
    rw [List.foldl_cons, List.foldl_cons, hc, Nat.mul_comm]
    exact ih (fun d hd ↦ h d (List.mem_cons_of_mem _ hd)) _

theorem readNat_toDigits (n : Nat) : readNat 10 (Nat.toDigits 10 n) = n := by
  rw [readNat_eq (areDigits_toDigits n), Nat.ofDigitChars_ten_toDigits]

/-- Digits as a numeral has them before the point: at least one, and no zero before others. -/
structure AreWhole (cs : List Char) : Prop where
  /-- All characters are digits. -/
  digits : AreDigits cs
  /-- There is a digit at least. -/
  ne_nil : cs ≠ []
  /-- Zero comes first only if nothing follows it. -/
  leading : ∀ rest, cs = '0' :: rest → rest = []

theorem head?_toDigits {n : Nat} (hn : 0 < n) : (Nat.toDigits 10 n).head? ≠ some '0' := by
  have hdigit : ∀ d < 10, 0 < d → [d.digitChar].head? ≠ some '0' := by decide
  induction n using Nat.strongRecOn with
  | ind n ih =>
    by_cases hsmall : n < 10
    · rw [Nat.toDigits_of_lt_base hsmall]
      exact hdigit n hsmall hn
    · rw [Nat.toDigits_of_base_le (by decide) (not_lt.mp hsmall),
        List.head?_append_of_ne_nil _ Nat.toDigits_ne_nil]
      exact ih (n / 10) (by omega) (by omega)

theorem areWhole_of_head? {cs : List Char} (hdigits : AreDigits cs) (hne : cs ≠ [])
    (hhead : cs.head? ≠ some '0') : AreWhole cs where
  digits := hdigits
  ne_nil := hne
  leading rest h := absurd (by rw [h]; rfl) hhead

theorem areWhole_toDigits (n : Nat) : AreWhole (Nat.toDigits 10 n) := by
  by_cases hn : n = 0
  · rw [hn, Nat.toDigits_zero]
    exact ⟨areDigits_toDigits 0, nofun, fun rest h ↦ (List.cons.inj h).2.symm⟩
  · exact areWhole_of_head? (areDigits_toDigits n) Nat.toDigits_ne_nil
      (head?_toDigits (Nat.pos_of_ne_zero hn))

/-! ## Digits around a point -/

/-- Digits before and behind a point, and the number that they write. -/
structure Write (whole fraction : List Char) (v : ℚ) : Prop where
  /-- The digits before the point. -/
  before : AreWhole whole
  /-- The digits behind the point. -/
  behind : AreDigits fraction
  /-- All digits together, with the last at its place, stand for the number. -/
  value : (⟨readNat 10 (whole ++ fraction), -(fraction.length : Int)⟩ : Digits).value = v

theorem readNat_zeros_append {cs : List Char} (h : AreDigits cs) (n : Nat) :
    readNat 10 (List.replicate n '0' ++ cs) = readNat 10 cs := by
  rw [readNat_eq ((areDigits_replicate n).append h), readNat_eq h, Nat.ofDigitChars_append,
    Nat.ofDigitChars_replicate_zero, Nat.mul_zero]

theorem readNat_append_zeros {cs : List Char} (h : AreDigits cs) (n : Nat) :
    readNat 10 (cs ++ List.replicate n '0') = 10 ^ n * readNat 10 cs := by
  rw [readNat_eq (h.append (areDigits_replicate n)), readNat_eq h, Nat.ofDigitChars_append,
    Nat.ofDigitChars_replicate_zero]

namespace Digits

theorem write_split {d : Digits} (hd : 0 < d.coefficient) : Write d.split.1 d.split.2 d.value := by
  obtain ⟨coefficient, exponent⟩ := d
  have hdigits : AreDigits (Nat.toDigits 10 coefficient) := areDigits_toDigits coefficient
  have hhead := head?_toDigits hd
  cases exponent with
  | ofNat e =>
    have hsplit : (⟨coefficient, .ofNat e⟩ : Digits).split =
        (Nat.toDigits 10 coefficient ++ List.replicate e '0', []) :=
      congrArg (·, []) (if_neg hd.ne')
    rw [hsplit]
    refine ⟨areWhole_of_head? (hdigits.append (areDigits_replicate e)) ?_ ?_, nofun, ?_⟩
    · exact List.append_ne_nil_of_left_ne_nil Nat.toDigits_ne_nil _
    · rwa [List.head?_append_of_ne_nil _ Nat.toDigits_ne_nil]
    · rw [List.append_nil, readNat_append_zeros hdigits, readNat_toDigits, value, value]
      simp only [List.length_nil, Nat.cast_zero, neg_zero, zpow_zero, Int.ofNat_eq_natCast,
        zpow_natCast, Nat.cast_mul, Nat.cast_pow, Nat.cast_ofNat]
      ring
  | negSucc e =>
    set cs := Nat.toDigits 10 coefficient with hcs
    by_cases hplaces : e + 1 < cs.length
    · have hsplit : (⟨coefficient, .negSucc e⟩ : Digits).split =
          (cs.take (cs.length - (e + 1)), cs.drop (cs.length - (e + 1))) := if_pos hplaces
      have hlength : (cs.drop (cs.length - (e + 1))).length = e + 1 := by
        rw [List.length_drop]
        omega
      have hkept : cs.length - (e + 1) ≠ 0 := by omega
      rw [hsplit]
      refine ⟨areWhole_of_head? (fun c h ↦ hdigits c (List.mem_of_mem_take h)) ?_ ?_,
        fun c h ↦ hdigits c (List.mem_of_mem_drop h), ?_⟩
      · rw [ne_eq, List.take_eq_nil_iff]
        exact not_or.mpr ⟨hkept, Nat.toDigits_ne_nil⟩
      · rwa [List.head?_take, if_neg hkept]
      · rw [List.take_append_drop, hlength, hcs, readNat_toDigits]
        rfl
    · have hsplit : (⟨coefficient, .negSucc e⟩ : Digits).split =
          (['0'], List.replicate (e + 1 - cs.length) '0' ++ cs) := if_neg hplaces
      have hlength : (List.replicate (e + 1 - cs.length) '0' ++ cs).length = e + 1 := by
        rw [List.length_append, List.length_replicate]
        omega
      rw [hsplit]
      refine ⟨areWhole_toDigits 0, (areDigits_replicate _).append hdigits, ?_⟩
      rw [hlength, ← List.append_assoc]
      change (⟨readNat 10 (List.replicate (e + 1 - cs.length + 1) '0' ++ cs), _⟩ : Digits).value = _
      rw [readNat_zeros_append hdigits, hcs, readNat_toDigits]
      rfl

theorem exists_write_pointed {d : Digits} (hd : 0 < d.coefficient) :
    ∃ whole fraction, d.pointed.toList = whole ++ '.' :: fraction ∧ fraction ≠ [] ∧
      Write whole fraction d.value := by
  have hwrite := write_split hd
  rw [pointed]
  cases hsplit : d.split with
  | mk whole fraction =>
    rw [hsplit] at hwrite
    cases fraction with
    | nil =>
      refine ⟨whole, ['0'], ?_, List.cons_ne_nil _ _, hwrite.before, areDigits_replicate 1, ?_⟩
      · rw [String.toList_append, String.toList_ofList]
        rfl
      · have hzero : readNat 10 (whole ++ ['0']) = 10 ^ 1 * readNat 10 whole :=
          readNat_append_zeros hwrite.before.digits 1
        rw [← hwrite.value, List.append_nil, hzero, value, value]
        norm_num
        ring
    | cons c fraction =>
      refine ⟨whole, c :: fraction, ?_, List.cons_ne_nil _ _, hwrite⟩
      simp only [String.toList_append, String.toList_ofList, List.append_assoc]
      rfl

end Digits

/-! ## The nearest float to a decimal -/

theorem zpow_ten_le : (10 : ℚ) ^ (-330 : Int) ≤ 2 ^ (-1075 : Int) := by
  have h : 2 ^ 1075 ≤ 10 ^ 330 := by decide +kernel
  rw [zpow_neg, zpow_neg, inv_le_inv₀ (zpow_pos (by norm_num) _) (zpow_pos two_pos _)]
  exact_mod_cast h

theorem zpow_two_lt : (2 : ℚ) ^ (1024 : Int) < 10 ^ (309 : Int) := by
  have h : 2 ^ 1024 < 10 ^ 309 := by decide +kernel
  exact_mod_cast h

theorem Digits.value_lt_zpow (d : Digits) :
    d.value < (10 : ℚ) ^ (d.exponent + (Quotient.digitCount d.coefficient : Int)) := by
  rw [Digits.value, add_comm, zpow_add₀ (by norm_num), zpow_natCast]
  exact mul_lt_mul_of_pos_right (by exact_mod_cast Quotient.lt_pow_digitCount _)
    (zpow_pos (by norm_num) _)

theorem Digits.zpow_le_value {d : Digits} (hd : 0 < d.coefficient) :
    (10 : ℚ) ^ (d.exponent + (Quotient.digitCount d.coefficient - 1 : Int)) ≤ d.value := by
  rw [Digits.value, add_comm, zpow_add₀ (by norm_num),
    ← Int.natCast_pred_of_pos (Quotient.digitCount_pos hd), zpow_natCast]
  exact mul_le_mul_of_nonneg_right (by exact_mod_cast Quotient.pow_digitCount_le hd)
    (zpow_pos (by norm_num) _).le

theorem leading_of_holds {d : Digits} {mantissa : Nat} {exponent : Int} (hm : 0 < mantissa)
    (hbinary : IsBinary mantissa exponent)
    (h : (RoundingInterval.ofBinary mantissa exponent).Holds d.value) :
    0 < d.coefficient ∧ -330 ≤ d.exponent + (Quotient.digitCount d.coefficient : Int) ∧
      d.exponent + (Quotient.digitCount d.coefficient : Int) ≤ 310 := by
  obtain ⟨hlow, hhigh⟩ := h.bounds hm
  have hone : (1 : ℚ) ≤ mantissa := by exact_mod_cast hm
  have hfew : (mantissa : ℚ) + 1 ≤ 2 ^ (53 : Int) := by exact_mod_cast hbinary.mantissa_lt
  have hsmall : (10 : ℚ) ^ (-330 : Int) ≤ d.value := by
    calc (10 : ℚ) ^ (-330 : Int) ≤ 2 ^ (-1 + -1074 : Int) := zpow_ten_le
      _ = 1 / 2 * 2 ^ (-1074 : Int) := by rw [zpow_add₀ two_ne_zero, zpow_neg_one, one_div]
      _ ≤ (mantissa - 1 / 2) * 2 ^ exponent := mul_le_mul (by linarith)
          (zpow_le_zpow_right₀ one_le_two hbinary.le_exponent) (zpow_pos two_pos _).le (by linarith)
      _ ≤ d.value := hlow
  have hlarge : d.value < (10 : ℚ) ^ (309 : Int) := by
    calc d.value ≤ (mantissa + 1 / 2) * 2 ^ exponent := hhigh
      _ ≤ 2 ^ (53 : Int) * 2 ^ (971 : Int) := mul_le_mul (by linarith)
          (zpow_le_zpow_right₀ one_le_two hbinary.exponent_le) (zpow_pos two_pos _).le
          (by positivity)
      _ = 2 ^ (53 + 971 : Int) := (zpow_add₀ two_ne_zero _ _).symm
      _ < 10 ^ (309 : Int) := zpow_two_lt
  have hd : 0 < d.coefficient := by
    have hpos : 0 < d.value := (zpow_pos (by norm_num) _).trans_le hsmall
    rw [Digits.value, mul_pos_iff_of_pos_right (zpow_pos (by norm_num) _)] at hpos
    exact_mod_cast hpos
  have hbelow := (zpow_lt_zpow_iff_right₀ (by norm_num)).mp (hsmall.trans_lt d.value_lt_zpow)
  have habove := (zpow_lt_zpow_iff_right₀ (by norm_num)).mp
    ((Digits.zpow_le_value hd).trans_lt hlarge)
  exact ⟨hd, hbelow.le, by omega⟩

/-- A decimal in the interval of a float is read as that float. -/
theorem toFloat_eq_of_holds {negative : Bool} {d : Digits} {mantissa : Nat} {exponent : Int}
    (hm : 0 < mantissa) (hbinary : IsBinary mantissa exponent)
    (h : (RoundingInterval.ofBinary mantissa exponent).Holds d.value) :
    toFloat negative d.coefficient d.exponent =
      if negative then -ofBinary mantissa exponent else ofBinary mantissa exponent := by
  obtain ⟨hd, hsmall, hlarge⟩ := leading_of_holds hm hbinary h
  have hvalue : (Quotient.scale 10 ⟨d.coefficient, 1⟩ d.exponent).value = d.value := by
    rw [Quotient.value_scale, Quotient.value, Nat.cast_one, div_one, Digits.value]
    rfl
  have hsome : ¬(d.coefficient = 0 ∨
      d.exponent + (Quotient.digitCount d.coefficient : Int) < -330) := by omega
  rw [toFloat, if_neg hsome, if_neg (not_lt.mpr hlarge), Quotient.toFloat_eq_ofBinary
    (Quotient.denominator_scale_pos (by decide) Nat.one_pos _) hm hbinary (by rwa [hvalue])]

theorem ofBinary_zero {exponent : Int} (hbinary : IsBinary 0 exponent) :
    ofBinary 0 exponent = 0 := by
  obtain rfl : exponent = -1074 := hbinary.full.resolve_left (by decide)
  decide +kernel

/-- The plain text of a finite float is digits around a point, behind a sign if it is negative, and
the float is the nearest to the number that these write. -/
theorem exists_plain {x : Float} {negative : Bool} {mantissa : Nat} {exponent : Int}
    (hx : Exact.ofFloat x = .finite negative mantissa exponent) :
    ∃ whole fraction, (plain x).toList = (signText negative).toList ++ (whole ++ '.' :: fraction) ∧
      AreWhole whole ∧ AreDigits fraction ∧ fraction ≠ [] ∧
      (⟨whole, fraction, 0⟩ : Numeral).toFloat negative = x := by
  obtain ⟨hbinary, -, hvalue⟩ := eq_of_ofFloat_finite hx
  rw [plain, hx, textOf, String.toList_append]
  by_cases hzero : mantissa = 0
  · rw [if_pos hzero]
    refine ⟨['0'], ['0'], rfl, areWhole_toDigits 0, areDigits_replicate 1, List.cons_ne_nil _ _, ?_⟩
    rw [hzero] at hbinary
    rw [hvalue, hzero, ofBinary_zero hbinary]
    rfl
  · have hm := Nat.pos_of_ne_zero hzero
    have hholds := Digits.holds_shortest .away hm hbinary.mantissa_lt exponent
    obtain ⟨whole, fraction, htext, hne, hwrite⟩ :=
      Digits.exists_write_pointed (leading_of_holds hm hbinary hholds).1
    rw [if_neg hzero]
    refine ⟨whole, fraction, by rw [htext], hwrite.before, hwrite.behind, hne, ?_⟩
    rw [← hwrite.value] at hholds
    rw [Numeral.toFloat, zero_sub, hvalue]
    exact toFloat_eq_of_holds (d := ⟨readNat 10 (whole ++ fraction), -(fraction.length : Int)⟩) hm
      hbinary hholds

end DampedLeastSquares.Decimal
