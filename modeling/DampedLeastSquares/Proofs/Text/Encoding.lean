import DampedLeastSquares.Text.Utf8
import Mathlib.Data.List.Basic

/-!
# Texts read back from their octets

The octets of a character announce how many they are and leave room for nothing else, so that they
are read as the character, whatever stands behind them. Hence every text is read back from its
octets.
-/

namespace DampedLeastSquares.Text

/-! ## The octets of a text -/

theorem toList_loop (b : ByteArray) (i : Nat) (collected : List UInt8) :
    ByteArray.toList.loop b i collected = collected.reverse ++ b.data.toList.drop i := by
  fun_induction ByteArray.toList.loop b i collected with
  | case1 i collected hi ih =>
    have hlength : i < b.data.toList.length := hi
    have hget : b.get! i = b.data.toList[i] := getElem!_pos b.data i hi
    rw [ih, List.drop_eq_getElem_cons hlength, hget, List.reverse_cons, List.append_assoc,
      List.singleton_append]
  | case2 i collected hi =>
    rw [List.drop_eq_nil_of_le (Nat.le_of_not_lt hi), List.append_nil]

theorem toList_toUTF8 (text : String) :
    text.toUTF8.toList = text.toList.flatMap String.utf8EncodeChar := by
  have hbytes : text.toUTF8 = (text.toList.flatMap String.utf8EncodeChar).toByteArray :=
    String.utf8Encode_toList.symm
  rw [hbytes, ByteArray.toList, toList_loop, List.data_toByteArray, List.drop_zero]
  rfl

/-! ## The first octet of a character -/

theorem ofNat_lt_ofNat {n bound : Nat} (hn : n < 256) (hbound : bound < 256) :
    UInt8.ofNat n < UInt8.ofNat bound ↔ n < bound := by
  rw [UInt8.lt_iff_toNat_lt, UInt8.toNat_ofNat_of_lt' hn, UInt8.toNat_ofNat_of_lt' hbound]

theorem ofNat_eq_ofNat {n m : Nat} (hn : n < 256) (hm : m < 256) :
    UInt8.ofNat n = UInt8.ofNat m ↔ n = m := by
  rw [← UInt8.toNat_inj, UInt8.toNat_ofNat_of_lt' hn, UInt8.toNat_ofNat_of_lt' hm]

theorem announce_ofNat {n : Nat} (hn : n < 256) : announce (UInt8.ofNat n) =
    if n < 0x80 then some (n, [])
    else if n < 0xc2 then none
    else if n < 0xe0 then some (n % 32, [anyTail])
    else if n < 0xf0 then
      let first := if n = 0xe0 then ⟨0xa0, 0xbf⟩ else if n = 0xed then ⟨0x80, 0x9f⟩ else anyTail
      some (n % 16, [first, anyTail])
    else if n < 0xf5 then
      let first := if n = 0xf0 then ⟨0x90, 0xbf⟩ else if n = 0xf4 then ⟨0x80, 0x8f⟩ else anyTail
      some (n % 8, [first, anyTail, anyTail])
    else none := by
  have hlt : ∀ bound, bound < 256 → (UInt8.ofNat n < UInt8.ofNat bound ↔ n < bound) :=
    fun _ ↦ ofNat_lt_ofNat hn
  have heq : ∀ m, m < 256 → (UInt8.ofNat n = UInt8.ofNat m ↔ n = m) := fun _ ↦ ofNat_eq_ofNat hn
  simp only [announce, UInt8.toNat_ofNat_of_lt' hn, ← hlt 0x80 (by decide), ← hlt 0xc2 (by decide),
    ← hlt 0xe0 (by decide), ← hlt 0xf0 (by decide), ← hlt 0xf5 (by decide),
    ← heq 0xe0 (by decide), ← heq 0xed (by decide), ← heq 0xf0 (by decide), ← heq 0xf4 (by decide)]
  rfl

/-! ## The octets that follow -/

theorem readTail_cons {range : OctetRange} {n : Nat} (hlow : range.low.toNat ≤ n % 64 + 128)
    (hhigh : n % 64 + 128 ≤ range.high.toNat) (ranges : List OctetRange) (seen value : Nat)
    (rest : List UInt8) :
    readTail (range :: ranges) seen value (UInt8.ofNat (n % 64 + 128) :: rest) =
      readTail ranges (seen + 1) (value * 64 + n % 64) rest := by
  have hsmall : n % 64 + 128 < 256 := by omega
  have hoctet : (UInt8.ofNat (n % 64 + 128)).toNat = n % 64 + 128 :=
    UInt8.toNat_ofNat_of_lt' hsmall
  have hcontains : range.contains (UInt8.ofNat (n % 64 + 128)) = true := by
    rw [OctetRange.contains, Bool.and_eq_true, decide_eq_true_iff, decide_eq_true_iff,
      UInt8.le_iff_toNat_le, UInt8.le_iff_toNat_le, hoctet]
    exact ⟨hlow, hhigh⟩
  have hbits : (n % 64 + 128) % 64 = n % 64 := by omega
  rw [readTail, if_pos hcontains, hoctet, hbits]

theorem readTail_anyTail (n : Nat) (ranges : List OctetRange) (seen value : Nat)
    (rest : List UInt8) :
    readTail (anyTail :: ranges) seen value (UInt8.ofNat (n % 64 + 128) :: rest) =
      readTail ranges (seen + 1) (value * 64 + n % 64) rest := by
  have hlow : anyTail.low.toNat = 128 := rfl
  have hhigh : anyTail.high.toNat = 191 := rfl
  exact readTail_cons (by omega) (by omega) ranges seen value rest

/-! ## Characters -/

theorem readChar_eq {lead : UInt8} {value code : Nat} {ranges : List OctetRange}
    {tail rest : List UInt8} {c : Char} (hannounce : announce lead = some (value, ranges))
    (htail : readTail ranges 1 value tail = .ok (code, rest)) (hcode : code = c.toNat)
    (position : Nat) : readChar position lead tail = .ok (c, rest) := by
  simp only [readChar, hannounce, htail, hcode, Char.ofNat_toNat]

theorem announce_two {v : Nat} (hlow : 0x7f < v) (hhigh : v ≤ 0x7ff) :
    announce (UInt8.ofNat (v / 64 % 32 + 0xc0)) = some (v / 64, [anyTail]) := by
  have hbits : (v / 64 % 32 + 0xc0) % 32 = v / 64 := by omega
  rw [announce_ofNat (by omega), if_neg (by omega), if_neg (by omega), if_pos (by omega), hbits]

/-- What a character of three octets announces. It does not fit into two and is no surrogate, so
the second octet is in range. -/
theorem announce_three {v : Nat} (hlow : 0x7ff < v) (hhigh : v ≤ 0xffff)
    (hchar : v < 0xd800 ∨ 0xdfff < v) :
    ∃ first : OctetRange, announce (UInt8.ofNat (v / 4096 % 16 + 0xe0)) =
        some (v / 4096, [first, anyTail]) ∧
      first.low.toNat ≤ v / 64 % 64 + 128 ∧ v / 64 % 64 + 128 ≤ first.high.toNat := by
  have hbits : (v / 4096 % 16 + 0xe0) % 16 = v / 4096 := by omega
  rw [announce_ofNat (by omega), if_neg (by omega), if_neg (by omega), if_neg (by omega),
    if_pos (by omega), hbits]
  refine ⟨_, rfl, ?_⟩
  split
  · change 0xa0 ≤ _ ∧ _ ≤ 0xbf
    omega
  · split
    · change 0x80 ≤ _ ∧ _ ≤ 0x9f
      omega
    · change 0x80 ≤ _ ∧ _ ≤ 0xbf
      omega

/-- What a character of four octets announces. It does not fit into three and is not beyond the last
character, so the second octet is in range. -/
theorem announce_four {v : Nat} (hlow : 0xffff < v) (hhigh : v < 0x110000) :
    ∃ first : OctetRange, announce (UInt8.ofNat (v / 262144 % 8 + 0xf0)) =
        some (v / 262144, [first, anyTail, anyTail]) ∧
      first.low.toNat ≤ v / 4096 % 64 + 128 ∧ v / 4096 % 64 + 128 ≤ first.high.toNat := by
  have hbits : (v / 262144 % 8 + 0xf0) % 8 = v / 262144 := by omega
  rw [announce_ofNat (by omega), if_neg (by omega), if_neg (by omega), if_neg (by omega),
    if_neg (by omega), if_pos (by omega), hbits]
  refine ⟨_, rfl, ?_⟩
  split
  · change 0x90 ≤ _ ∧ _ ≤ 0xbf
    omega
  · split
    · change 0x80 ≤ _ ∧ _ ≤ 0x8f
      omega
    · change 0x80 ≤ _ ∧ _ ≤ 0xbf
      omega

theorem readChar_utf8EncodeChar (c : Char) (rest : List UInt8) :
    ∃ lead tail, String.utf8EncodeChar c = lead :: tail ∧
      ∀ position, readChar position lead (tail ++ rest) = .ok (c, rest) := by
  obtain ⟨v, hv⟩ : ∃ v, c.toNat = v := ⟨_, rfl⟩
  have hchar : v < 0xd800 ∨ 0xdfff < v ∧ v < 0x110000 := hv ▸ c.valid
  rw [String.utf8EncodeChar]
  simp only [show c.val.toNat = v from hv]
  by_cases hone : v ≤ 0x7f
  · rw [if_pos hone]
    refine ⟨_, _, rfl, fun position ↦ ?_⟩
    have hannounce : announce (UInt8.ofNat v) = some (v, []) := by
      rw [announce_ofNat (by omega), if_pos (by omega)]
    exact readChar_eq hannounce rfl hv.symm position
  rw [if_neg hone]
  by_cases htwo : v ≤ 0x7ff
  · rw [if_pos htwo]
    refine ⟨_, _, rfl, fun position ↦ ?_⟩
    exact readChar_eq (announce_two (by omega) htwo) (readTail_anyTail v [] 1 _ rest) (by omega)
      position
  rw [if_neg htwo]
  by_cases hthree : v ≤ 0xffff
  · rw [if_pos hthree]
    refine ⟨_, _, rfl, fun position ↦ ?_⟩
    obtain ⟨first, hannounce, hlow, hhigh⟩ :=
      announce_three (by omega) hthree (hchar.imp id And.left)
    have htail := (readTail_cons hlow hhigh [anyTail] 1 (v / 4096) _).trans
      (readTail_anyTail v [] 2 _ rest)
    exact readChar_eq hannounce htail (by omega) position
  · rw [if_neg hthree]
    refine ⟨_, _, rfl, fun position ↦ ?_⟩
    obtain ⟨first, hannounce, hlow, hhigh⟩ := announce_four (by omega) (v := v) (by omega)
    have htail := (readTail_cons hlow hhigh [anyTail, anyTail] 1 (v / 262144) _).trans
      ((readTail_anyTail (v / 64) [anyTail] 2 _ _).trans (readTail_anyTail v [] 3 _ rest))
    exact readChar_eq hannounce htail (by omega) position

/-! ## Texts -/

/-- With as much fuel as there are octets, all characters are read. -/
theorem decodeFrom_flatMap (cs : List Char) (fuel position : Nat)
    (hfuel : (cs.flatMap String.utf8EncodeChar).length ≤ fuel) :
    decodeFrom fuel position (cs.flatMap String.utf8EncodeChar) = .ok cs := by
  induction cs generalizing fuel position with
  | nil => cases fuel <;> rfl
  | cons c cs ih =>
    obtain ⟨lead, tail, hoctets, hread⟩ :=
      readChar_utf8EncodeChar c (cs.flatMap String.utf8EncodeChar)
    rw [List.flatMap_cons, hoctets, List.cons_append] at hfuel ⊢
    rw [List.length_cons, List.length_append] at hfuel
    cases fuel with
    | zero => exact absurd hfuel (Nat.not_succ_le_zero _)
    | succ fuel =>
      rw [decodeFrom, hread]
      change (do
        let chars ← decodeFrom fuel _ (cs.flatMap String.utf8EncodeChar)
        return c :: chars) = _
      rw [ih fuel _ (by omega)]
      rfl

theorem decodeUtf8_toUTF8 (text : String) : decodeUtf8 text.toUTF8.toList = .ok text.toList := by
  rw [decodeUtf8, toList_toUTF8]
  exact decodeFrom_flatMap text.toList _ 0 (Nat.le_refl _)

/-! ## Ends of lines -/

theorem unifyNewlines_eq_self {cs : List Char} (h : '\r' ∉ cs) : unifyNewlines cs = cs := by
  induction cs with
  | nil => rfl
  | cons c cs ih =>
    rw [List.mem_cons, not_or] at h
    rw [unifyNewlines, ih h.2]
    · rintro rest rfl
      exact fun _ ↦ h.1 rfl
    · exact fun hc ↦ h.1 hc.symm

end DampedLeastSquares.Text
