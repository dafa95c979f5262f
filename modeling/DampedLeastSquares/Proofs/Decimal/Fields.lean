import DampedLeastSquares.Decimal.Exact
import Mathlib

/-!
# The fields of a float

A float is a pattern of 64 bits: a sign, an exponent, and a fraction. Its operations go through an
unpacked form and back, so the first thing to know is that unpacking a pattern and packing the
result changes nothing, as long as the pattern is not one of the many for an undefined value.

From this it follows that what `Exact.ofFloat` reads off the fields determines the float. Without
its sign, a finite one is `ofBinary` of its mantissa and its exponent.
-/

namespace DampedLeastSquares.Decimal

open Float.Model (Format)
open Float.Model.UnpackedFloat

/-! ## Patterns of bits -/

section Patterns

variable {s : Sign} {e : BitVec 11} {f : BitVec 52}

theorem toNat_packComponents : (packComponents .binary64 s e f).toNat =
    s.toBitVec.toNat * 2 ^ 63 + e.toNat * 2 ^ 52 + f.toNat := by
  rw [packComponents, BitVec.toNat_append, ← Nat.shiftLeft_add_eq_or_of_lt f.isLt,
    BitVec.toNat_append, ← Nat.shiftLeft_add_eq_or_of_lt e.isLt, Nat.shiftLeft_eq, Nat.shiftLeft_eq]
  omega

theorem exists_eq_packComponents (b : BitVec 64) : ∃ s e f, b = packComponents .binary64 s e f := by
  have hb := b.isLt
  refine ⟨.ofBitVec (.ofNat 1 (b.toNat / 2 ^ 63)), .ofNat 11 (b.toNat / 2 ^ 52),
    .ofNat 52 b.toNat, BitVec.eq_of_toNat_eq ?_⟩
  have hsign : ∀ v : BitVec 1, (Sign.ofBitVec v).toBitVec = v := by decide
  rw [toNat_packComponents, hsign, BitVec.toNat_ofNat, BitVec.toNat_ofNat, BitVec.toNat_ofNat]
  omega

theorem unpackSign_packComponents :
    Sign.ofBitVec (unpackSign (packComponents .binary64 s e f)) = s := by
  have hbit : unpackSign (packComponents .binary64 s e f) = s.toBitVec := by
    apply BitVec.eq_of_toNat_eq
    have hs := s.toBitVec.isLt
    have he := e.isLt
    have hf := f.isLt
    rw [unpackSign, BitVec.toNat_cast, BitVec.extractLsb_toNat, toNat_packComponents,
      Nat.shiftRight_eq_div_pow]
    change (s.toBitVec.toNat * 2 ^ 63 + e.toNat * 2 ^ 52 + f.toNat) / 2 ^ 63 % 2 = _
    omega
  have hsign : ∀ t : Sign, Sign.ofBitVec t.toBitVec = t := fun t ↦ by cases t <;> rfl
  rw [hbit, hsign]

theorem neg_unpack : (unpack .binary64 (packComponents .binary64 s e f)).neg =
    unpack .binary64 (packComponents .binary64 (-s) e f) := by
  simp only [unpack, unpackMantissa_packComponents, unpackExponent_packComponents,
    unpackSign_packComponents]
  split_ifs <;> rfl

/-- The fraction of a full number of digits has a one before it that is not among the bits. -/
theorem toNat_append_one : (1#1 ++ f).toNat = 2 ^ 52 + f.toNat := by
  rw [BitVec.toNat_append, ← Nat.shiftLeft_add_eq_or_of_lt f.isLt, Nat.shiftLeft_eq]
  rfl

theorem pack_finite {m : Nat} {x : Int} {hm : 0 < m} (hx : x ≤ 971) :
    pack .binary64 (.finite s m x hm) =
      if m.log2 = 52 then
        packComponents .binary64 s (.ofNat 11 (x + 1075).toNat) (.ofNat 52 m)
      else packComponents .binary64 s 0#11 (.ofNat 52 m) := by
  have hbiased : (x + Format.binary64.exponentBias + (52 : Nat)).toNat = (x + 1075).toNat := by
    change (x + (1023 : Nat) + (52 : Nat)).toNat = _
    omega
  have hbits : (m.log2 + 1 = Format.binary64.mantissaBits) = (m.log2 = 52) := by
    change (m.log2 + 1 = 53) = _
    exact propext (by omega)
  have hrange : ¬2 ^ 11 ≤ (x + 1075).toNat + 1 := by omega
  rw [pack, hbiased, if_neg hrange]
  simp only [hbits]

/-- Packing what was unpacked gives the pattern back. -/
theorem pack_unpack (h : e = -1#11 → f = 0#52) :
    pack .binary64 (unpack .binary64 (packComponents .binary64 s e f)) =
      packComponents .binary64 s e f := by
  have he := e.isLt
  have hf := f.isLt
  have hbias : ((Format.binary64.exponentBias : Int) + (52 : Nat)) = 1075 := rfl
  rw [unpack]
  simp only [unpackMantissa_packComponents, unpackExponent_packComponents,
    unpackSign_packComponents, hbias]
  by_cases hall : e = -1#11
  · rw [if_pos hall, if_pos (h hall), hall, h hall]
    rfl
  rw [if_neg hall]
  by_cases hzero : e = 0#11
  · rw [if_pos hzero]
    by_cases hnone : f = 0#52
    · rw [dif_pos hnone, hzero, hnone]
      rfl
    · have hlog : ¬f.toNat.log2 = 52 := by
        have : f.toNat ≠ 0 := fun h0 ↦ hnone (BitVec.eq_of_toNat_eq h0)
        have := (Nat.log2_lt this).mpr hf
        omega
      rw [dif_neg hnone, hzero, pack_finite (by decide), if_neg hlog, BitVec.ofNat_toNat,
        BitVec.setWidth_eq]
  · have hlog : (2 ^ 52 + f.toNat).log2 = 52 :=
      (Nat.log2_eq_iff (by omega)).mpr ⟨by omega, by omega⟩
    have hlast : e.toNat ≠ 2047 := fun h ↦ hall (BitVec.eq_of_toNat_eq h)
    have hexponent : ((e.toNat : Int) - 1075 + 1075).toNat = e.toNat := by omega
    have hfraction : BitVec.ofNat 52 (2 ^ 52 + f.toNat) = f := by
      apply BitVec.eq_of_toNat_eq
      rw [BitVec.toNat_ofNat]
      omega
    rw [if_neg hzero, pack_finite (by omega)]
    simp only [toNat_append_one]
    rw [if_pos hlog, hexponent, hfraction, BitVec.ofNat_toNat, BitVec.setWidth_eq]

end Patterns

/-! ## Floats -/

/-- The float with the given fields. -/
def ofComponents (s : Sign) (e : BitVec 11) (f : BitVec 52) : Float :=
  .ofBits (.ofBitVec (packComponents .binary64 s e f))

section Floats

variable {s : Sign} {e : BitVec 11} {f : BitVec 52}

theorem toBits_ofComponents (h : e = -1#11 → f = 0#52) :
    (ofComponents s e f).toBits = .ofBitVec (packComponents .binary64 s e f) :=
  congrArg UInt64.ofBitVec (pack_unpack h)

theorem neg_ofComponents (h : e = -1#11 → f = 0#52) :
    -(ofComponents s e f) = ofComponents (-s) e f := by
  change Float.ofModel (.pack (neg (unpack .binary64
    (pack .binary64 (unpack .binary64 (packComponents .binary64 s e f)))))) = _
  rw [pack_unpack h, neg_unpack]
  rfl

theorem ofFloat_of_toBits {x : Float} (hx : x.toBits = .ofBitVec (packComponents .binary64 s e f)) :
    Exact.ofFloat x =
      if e = -1#11 then if f = 0#52 then .infinite (s == .negative) else .undefined
      else if e = 0#11 then .finite (s == .negative) f.toNat (-1074)
      else .finite (s == .negative) (2 ^ 52 + f.toNat) (e.toNat - 1075) := by
  have he := e.isLt
  have hf := f.isLt
  have hbits : x.toBits.toNat = s.toBitVec.toNat * 2 ^ 63 + e.toNat * 2 ^ 52 + f.toNat := by
    rw [hx, ← toNat_packComponents]
    rfl
  have hnegative : decide (0x8000000000000000 ≤ x.toBits.toNat) = (s == .negative) := by
    rw [hbits]
    cases s
    · exact decide_eq_true (by change _ ≤ 1 * 2 ^ 63 + _ + _; omega)
    · exact decide_eq_false (by change ¬_ ≤ 0 * 2 ^ 63 + _ + _; omega)
  have hbiased : x.toBits.toNat / leastMantissa % 0x800 = e.toNat := by
    rw [hbits, leastMantissa]
    omega
  have hfraction : x.toBits.toNat % leastMantissa = f.toNat := by
    rw [hbits, leastMantissa]
    omega
  have hall : (e.toNat = 0x7ff) = (e = -1#11) := propext (BitVec.toNat_inj (y := -1#11))
  have hzero : (e.toNat = 0) = (e = 0#11) := propext (BitVec.toNat_inj (y := 0#11))
  have hnone : (f.toNat = 0) = (f = 0#52) := propext (BitVec.toNat_inj (y := 0#52))
  rw [Exact.ofFloat, hnegative, hbiased, hfraction]
  simp only [hall, hzero, hnone]
  rfl

theorem eq_of_toBits_eq {x y : Float} (h : x.toBits = y.toBits) : x = y := by
  obtain ⟨bits, _⟩ := x
  obtain ⟨bits', _⟩ := y
  obtain rfl : bits = bits' := h
  rfl

theorem exists_eq_ofComponents {x : Float} (hx : Exact.ofFloat x ≠ .undefined) :
    ∃ s e f, (e = -1#11 → f = 0#52) ∧ x = ofComponents s e f := by
  obtain ⟨s, e, f, hbits⟩ := exists_eq_packComponents x.toBits.toBitVec
  have hvalid : e = -1#11 → f = 0#52 := by
    intro hall
    by_contra hnone
    rw [ofFloat_of_toBits (congrArg UInt64.ofBitVec hbits), if_pos hall, if_neg hnone] at hx
    exact hx rfl
  exact ⟨s, e, f, hvalid, eq_of_toBits_eq ((congrArg UInt64.ofBitVec hbits).trans
    (toBits_ofComponents hvalid).symm)⟩

theorem isFinite_ofComponents (h : e ≠ -1#11) : (ofComponents s e f).isFinite = true := by
  change isFinite (unpack .binary64 (pack .binary64
    (unpack .binary64 (packComponents .binary64 s e f)))) = true
  rw [pack_unpack (absurd · h), unpack]
  simp only [unpackMantissa_packComponents, unpackExponent_packComponents]
  rw [if_neg h]
  split_ifs <;> rfl

end Floats

/-- What the mantissa and the exponent of a finite float have to be. -/
structure IsBinary (mantissa : Nat) (exponent : Int) : Prop where
  /-- The mantissa has at most 53 digits. -/
  mantissa_lt : mantissa < 2 * leastMantissa
  /-- The exponent is one that a float can have. -/
  le_exponent : -1074 ≤ exponent
  /-- The exponent is not that of a float without an end. -/
  exponent_le : exponent ≤ 971
  /-- Only with the least exponent the mantissa may have fewer than 53 digits. -/
  full : leastMantissa ≤ mantissa ∨ exponent = -1074

/-- The float `mantissa · 2 ^ exponent`. -/
def ofBinary (mantissa : Nat) (exponent : Int) : Float :=
  .ofBits ((exponent + 1074).toNat * leastMantissa + mantissa).toUInt64

theorem ofBinary_eq_ofComponents {mantissa : Nat} {exponent : Int} {e : BitVec 11} {f : BitVec 52}
    (h : (exponent + 1074).toNat * 2 ^ 52 + mantissa = e.toNat * 2 ^ 52 + f.toNat) :
    ofBinary mantissa exponent = ofComponents .positive e f := by
  have he := e.isLt
  have hf := f.isLt
  refine congrArg Float.ofBits (UInt64.toNat_inj.mp ?_)
  have hleast : leastMantissa = 2 ^ 52 := rfl
  change _ = (packComponents .binary64 .positive e f).toNat
  rw [toNat_packComponents, hleast, h, UInt64.toNat_ofNat']
  change (e.toNat * 2 ^ 52 + f.toNat) % 2 ^ 64 = 0 * 2 ^ 63 + _ + _
  omega

theorem eq_of_ofFloat_finite {x : Float} {negative : Bool} {mantissa : Nat} {exponent : Int}
    (hx : Exact.ofFloat x = .finite negative mantissa exponent) :
    IsBinary mantissa exponent ∧ x.isFinite = true ∧
      x = if negative then -ofBinary mantissa exponent else ofBinary mantissa exponent := by
  obtain ⟨s, e, f, hvalid, rfl⟩ := exists_eq_ofComponents (x := x) (by rw [hx]; nofun)
  have he := e.isLt
  have hf := f.isLt
  have hleast : leastMantissa = 2 ^ 52 := rfl
  have hall : e ≠ -1#11 := by
    intro hall
    rw [ofFloat_of_toBits (toBits_ofComponents hvalid), if_pos hall, if_pos (hvalid hall)] at hx
    cases hx
  have hlast : e.toNat ≠ 2047 := fun h ↦ hall (BitVec.eq_of_toNat_eq h)
  have hsigned : ofComponents s e f = if s == .negative then -ofComponents .positive e f
      else ofComponents .positive e f := by
    cases s with
    | negative =>
      have hneg : -Sign.positive = Sign.negative := rfl
      rw [neg_ofComponents hvalid, hneg]
      exact (if_pos rfl).symm
    | positive => exact (if_neg nofun).symm
  rw [ofFloat_of_toBits (toBits_ofComponents hvalid), if_neg hall] at hx
  by_cases hzero : e = 0#11
  · rw [if_pos hzero] at hx
    obtain ⟨rfl, rfl, rfl⟩ := Exact.finite.inj hx
    refine ⟨⟨by omega, Int.le_refl _, by decide, .inr rfl⟩, isFinite_ofComponents hall, ?_⟩
    rw [ofBinary_eq_ofComponents (e := e) (f := f) (by rw [hzero]; rfl), ← hsigned]
  · have hpositive : e.toNat ≠ 0 := fun h ↦ hzero (BitVec.eq_of_toNat_eq h)
    rw [if_neg hzero] at hx
    obtain ⟨rfl, rfl, rfl⟩ := Exact.finite.inj hx
    refine ⟨⟨by omega, by omega, by omega, .inl (by omega)⟩, isFinite_ofComponents hall, ?_⟩
    rw [ofBinary_eq_ofComponents (e := e) (f := f) (by omega), ← hsigned]

theorem eq_of_ofFloat_infinite {x : Float} {negative : Bool}
    (hx : Exact.ofFloat x = .infinite negative) : x = if negative then -1 / 0 else 1 / 0 := by
  obtain ⟨s, e, f, hvalid, rfl⟩ := exists_eq_ofComponents (x := x) (by rw [hx]; nofun)
  rw [ofFloat_of_toBits (toBits_ofComponents hvalid)] at hx
  split_ifs at hx with hall hnone
  cases hx
  rw [hall, hnone]
  cases s <;> decide +kernel

end DampedLeastSquares.Decimal
