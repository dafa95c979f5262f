import DampedLeastSquares.Proofs.Decimal.Numerals
import DampedLeastSquares.Toml.Literal
import Mathlib.Data.List.TakeWhile

/-!
# Literals read back

A document holds whole numbers, floats and truth values as runs of characters. Read as a literal,
the run that a value was written as gives that value: a whole number because its digits are those
of its size, a float because its text is digits around a point, which no whole number is, and the
number that they write is nearest to the float.
-/

namespace DampedLeastSquares.Toml

open Decimal

/-! ## Runs of digits -/

theorem ne_of_test {p : Char → Bool} {c d : Char} (hc : p c = true) (hd : p d = false) : c ≠ d := by
  rintro rfl
  rw [hc] at hd
  exact absurd hd nofun

theorem groupedDigits?_cons_cons {isDigit : Char → Bool} {c d : Char} {cs : List Char}
    (hd : d ≠ '_') : groupedDigits? isDigit (c :: d :: cs) =
      if isDigit c then (groupedDigits? isDigit (d :: cs)).map (c :: ·) else none := by
  rw [groupedDigits?]
  · exact nofun
  · intro rest h
    exact hd (List.cons.inj h).1

theorem groupedDigits?_eq {cs : List Char} (hdigits : AreDigits cs) (hne : cs ≠ []) :
    groupedDigits? Char.isDigit cs = some cs := by
  induction cs with
  | nil => exact absurd rfl hne
  | cons c cs ih =>
    obtain ⟨hc, hcs⟩ := List.forall_mem_cons.mp hdigits
    cases cs with
    | nil => exact if_pos hc
    | cons d cs =>
      have hd : d ≠ '_' := ne_of_test (hcs d List.mem_cons_self) rfl
      rw [groupedDigits?_cons_cons hd, if_pos hc, ih hcs (List.cons_ne_nil d cs), Option.map_some]

theorem groupedDigits?_append_point {cs : List Char} (hdigits : AreDigits cs) (rest : List Char) :
    groupedDigits? Char.isDigit (cs ++ '.' :: rest) = none := by
  induction cs with
  | nil =>
    cases rest with
    | nil => rfl
    | cons d rest =>
      by_cases hd : d = '_'
      · rw [hd]
        rfl
      · exact groupedDigits?_cons_cons hd
  | cons c cs ih =>
    obtain ⟨-, hcs⟩ := List.forall_mem_cons.mp hdigits
    obtain ⟨d, tail, hd, htail⟩ : ∃ d tail, d ≠ '_' ∧ cs ++ '.' :: rest = d :: tail := by
      cases cs with
      | nil => exact ⟨'.', rest, by decide, rfl⟩
      | cons d cs => exact ⟨d, _, ne_of_test (hcs d List.mem_cons_self) rfl, rfl⟩
    rw [List.cons_append, htail, groupedDigits?_cons_cons hd, ← htail, ih hcs]
    exact ite_self none

theorem decimalDigits?_eq {cs : List Char} (h : AreWhole cs) : decimalDigits? cs = some cs := by
  rw [decimalDigits?, groupedDigits?_eq h.digits h.ne_nil]
  split
  · rename_i heq
    exact absurd (h.leading _ (Option.some.inj heq)) (List.cons_ne_nil _ _)
  · rfl

/-! ## Signs -/

theorem splitSign_append (negative : Bool) {whole : List Char} (h : AreWhole whole)
    (rest : List Char) :
    splitSign ((signText negative).toList ++ (whole ++ rest)) = (negative, whole ++ rest) := by
  cases negative with
  | true => rfl
  | false =>
    cases whole with
    | nil => exact absurd rfl h.ne_nil
    | cons c whole =>
      have hc := h.digits c List.mem_cons_self
      change splitSign (c :: (whole ++ rest)) = (false, c :: (whole ++ rest))
      rw [splitSign]
      · intro tail heq
        exact ne_of_test hc rfl (List.cons.inj heq).1
      · intro tail heq
        exact ne_of_test hc rfl (List.cons.inj heq).1

/-- The characters of a number as it is written. -/
def isNumeric (c : Char) : Bool := c.isDigit || c = '.' || c = '-'

theorem isNumeric_of_mem (negative : Bool) {whole rest : List Char} (h : AreWhole whole)
    (hrest : ∀ c ∈ rest, isNumeric c = true) :
    ∀ c ∈ (signText negative).toList ++ (whole ++ rest), isNumeric c = true := by
  intro c hc
  rw [List.mem_append, List.mem_append] at hc
  obtain hsign | hwhole | hc := hc
  · cases negative with
    | true =>
      obtain rfl : c = '-' := List.mem_singleton.mp hsign
      rfl
    | false => exact absurd hsign List.not_mem_nil
  · rw [isNumeric, h.digits c hwhole]
    rfl
  · exact hrest c hc

theorem forall_isNumeric {fraction : List Char} (h : AreDigits fraction) :
    ∀ c ∈ '.' :: fraction, isNumeric c = true := by
  refine List.forall_mem_cons.mpr ⟨rfl, fun c hc ↦ ?_⟩
  rw [isNumeric, h c hc]
  rfl

/-- A number without letters in it is not written in another base than ten. -/
theorem unboundedInteger?_eq {cs : List Char} (h : ∀ c ∈ cs, isNumeric c = true) :
    unboundedInteger? cs = decimalInteger? cs := by
  have hsecond : ∀ c rest, isNumeric c = false → cs ≠ '0' :: c :: rest := by
    rintro c rest hc rfl
    exact ne_of_test (h c (List.mem_cons_of_mem _ List.mem_cons_self)) hc rfl
  rw [unboundedInteger?]
  · intro rest
    exact hsecond 'x' rest rfl
  · intro rest
    exact hsecond 'o' rest rfl
  · intro rest
    exact hsecond 'b' rest rfl

/-! ## Whole numbers -/

theorem toList_toString (n : Int) :
    (toString n).toList = (signText (decide (n < 0))).toList ++ Nat.toDigits 10 n.natAbs := by
  cases n with
  | ofNat n => exact Nat.toList_repr
  | negSucc n =>
    have hnegative : decide (Int.negSucc n < 0) = true := decide_eq_true (Int.negSucc_lt_zero n)
    rw [hnegative]
    exact (String.toList_append).trans (congrArg ('-' :: ·) Nat.toList_repr)

theorem integer?_toString {n : Int} (hlow : leastInteger ≤ n) (hhigh : n ≤ greatestInteger) :
    integer? (toString n).toList = some n := by
  have hwhole := areWhole_toDigits n.natAbs
  have hnumeric := isNumeric_of_mem (decide (n < 0)) hwhole (List.forall_mem_nil _)
  have hsign := splitSign_append (decide (n < 0)) hwhole []
  rw [List.append_nil] at hnumeric hsign
  have hn : (if decide (n < 0) then -(n.natAbs : Int) else n.natAbs) = n := by
    simp only [decide_eq_true_iff]
    omega
  rw [toList_toString, integer?, unboundedInteger?_eq hnumeric, decimalInteger?, hsign]
  simp only [decimalDigits?_eq hwhole, readNat_toDigits, hn, Option.bind_eq_bind, Option.bind_some]
  exact if_pos ⟨hlow, hhigh⟩

theorem integer?_pointed {negative : Bool} {whole fraction : List Char} (h : AreWhole whole)
    (hfraction : AreDigits fraction) :
    integer? ((signText negative).toList ++ (whole ++ '.' :: fraction)) = none := by
  have hnumeric := isNumeric_of_mem negative h (forall_isNumeric hfraction)
  have hnone : decimalDigits? (whole ++ '.' :: fraction) = none := by
    rw [decimalDigits?, groupedDigits?_append_point h.digits]
  rw [integer?, unboundedInteger?_eq hnumeric, decimalInteger?, splitSign_append negative h]
  simp only [hnone]
  rfl

/-! ## Floats -/

theorem numeral?_pointed {whole fraction : List Char} (h : AreWhole whole)
    (hfraction : AreDigits fraction) (hne : fraction ≠ []) :
    numeral? (whole ++ '.' :: fraction) = some ⟨whole, fraction, 0⟩ := by
  have hpower : ∀ c, c.isDigit = true → (!(decide (c = 'e') || decide (c = 'E'))) = true := by
    intro c hc
    rw [decide_eq_false (ne_of_test hc rfl), decide_eq_false (ne_of_test hc rfl)]
    rfl
  have hmark : ∀ c, c.isDigit = true →
      (!(decide (c = '.') || decide (c = 'e') || decide (c = 'E'))) = true := by
    intro c hc
    rw [decide_eq_false (ne_of_test hc rfl), Bool.false_or]
    exact hpower c hc
  rw [numeral?, List.takeWhile_append_of_pos fun c hc ↦ hmark c (h.digits c hc),
    List.dropWhile_append_of_pos fun c hc ↦ hmark c (h.digits c hc)]
  have hbehind : ∀ c ∈ fraction, (!(decide (c = 'e') || decide (c = 'E'))) = true :=
    fun c hc ↦ hpower c (hfraction c hc)
  rw [List.takeWhile_cons_of_neg (by decide), List.dropWhile_cons_of_neg (by decide),
    List.append_nil, decimalDigits?_eq h]
  simp only [List.takeWhile_eq_self_iff.mpr hbehind, List.dropWhile_eq_nil_iff.mpr hbehind,
    groupedDigits?_eq hfraction hne, Option.bind_eq_bind, Option.bind_some]

/-- Digits around a point are read as the float that is nearest to the number that they write. -/
theorem float?_pointed {negative : Bool} {whole fraction : List Char} (h : AreWhole whole)
    (hfraction : AreDigits fraction) (hne : fraction ≠ [])
    (hfinite : ((⟨whole, fraction, 0⟩ : Numeral).toFloat negative).isFinite = true) :
    float? ((signText negative).toList ++ (whole ++ '.' :: fraction)) =
      some ((⟨whole, fraction, 0⟩ : Numeral).toFloat negative) := by
  have hletter : ∀ c rest, c.isDigit = false → whole ++ '.' :: fraction ≠ c :: rest := by
    intro c rest hc
    cases whole with
    | nil => exact absurd rfl h.ne_nil
    | cons d whole =>
      intro heq
      exact ne_of_test (h.digits d List.mem_cons_self) hc (List.cons.inj heq).1
  rw [float?, splitSign_append negative h]
  simp only
  split
  · rename_i heq
    exact absurd heq (hletter 'i' _ rfl)
  · rename_i heq
    exact absurd heq (hletter 'n' _ rfl)
  · rw [numeral?_pointed h hfraction hne]
    exact if_pos hfinite

/-! ## Literals -/

theorem literal?_of_integer? {cs : List Char} {n : Int} (h : integer? cs = some n) :
    literal? cs = some (.integer n) := by
  have htrue : cs ≠ ['t', 'r', 'u', 'e'] := by
    rintro rfl
    exact absurd h nofun
  have hfalse : cs ≠ ['f', 'a', 'l', 's', 'e'] := by
    rintro rfl
    exact absurd h nofun
  rw [literal?, if_neg htrue, if_neg hfalse, h]

theorem literal?_of_float? {cs : List Char} {x : Float} (hinteger : integer? cs = none)
    (hfloat : float? cs = some x) : literal? cs = some (.float x) := by
  have htrue : cs ≠ ['t', 'r', 'u', 'e'] := by
    rintro rfl
    exact absurd hfloat nofun
  have hfalse : cs ≠ ['f', 'a', 'l', 's', 'e'] := by
    rintro rfl
    exact absurd hfloat nofun
  rw [literal?, if_neg htrue, if_neg hfalse, hinteger, hfloat]

/-- The characters of values that are written without quotes. -/
def isPlain (c : Char) : Bool := c.isAlphanum || c = '.' || c = '-'

theorem isPlain_of_isNumeric {c : Char} (h : isNumeric c = true) : isPlain c = true := by
  rw [isNumeric, Bool.or_assoc, Bool.or_eq_true] at h
  rw [isPlain, Char.isAlphanum, Bool.or_assoc, Bool.or_eq_true, Bool.or_eq_true]
  exact h.imp .inr id

/-- A value that is written without quotes: a run of characters, and what it is read as. -/
structure Denotes (cs : List Char) (v : Value) : Prop where
  /-- There are some characters. -/
  ne_nil : cs ≠ []
  /-- The characters need no quotes. -/
  plain : ∀ c ∈ cs, isPlain c = true
  /-- The characters are read as the value. -/
  literal : literal? cs = some v

theorem denotes_truth (b : Bool) : Denotes (if b then "true" else "false").toList (.boolean b) := by
  cases b
  · exact ⟨List.cons_ne_nil _ _, List.all_eq_true.mp rfl, rfl⟩
  · exact ⟨List.cons_ne_nil _ _, List.all_eq_true.mp rfl, rfl⟩

theorem denotes_toString {n : Int} (hlow : leastInteger ≤ n) (hhigh : n ≤ greatestInteger) :
    Denotes (toString n).toList (.integer n) where
  ne_nil := by
    rw [toList_toString]
    exact List.append_ne_nil_of_right_ne_nil _ Nat.toDigits_ne_nil
  plain c hc := by
    rw [toList_toString, ← List.append_nil (Nat.toDigits 10 n.natAbs)] at hc
    exact isPlain_of_isNumeric (isNumeric_of_mem _ (areWhole_toDigits n.natAbs)
      (List.forall_mem_nil _) c hc)
  literal := literal?_of_integer? (integer?_toString hlow hhigh)

theorem denotes_plain {x : Float} (hx : Exact.ofFloat x ≠ .undefined) :
    Denotes (plain x).toList (.float x) := by
  cases hexact : Exact.ofFloat x with
  | undefined => exact absurd hexact hx
  | infinite negative =>
    rw [plain, hexact, eq_of_ofFloat_infinite hexact]
    cases negative
    · exact ⟨List.cons_ne_nil _ _, List.all_eq_true.mp rfl, rfl⟩
    · exact ⟨List.cons_ne_nil _ _, List.all_eq_true.mp rfl, rfl⟩
  | finite negative mantissa exponent =>
    obtain ⟨-, hfinite, -⟩ := eq_of_ofFloat_finite hexact
    obtain ⟨whole, fraction, htext, hwhole, hfraction, hne, hread⟩ := exists_plain hexact
    have hfloat := float?_pointed hwhole hfraction hne (by rwa [hread])
    rw [hread] at hfloat
    rw [htext]
    refine ⟨?_, fun c hc ↦ ?_, literal?_of_float? (integer?_pointed hwhole hfraction) hfloat⟩
    · rw [← List.append_assoc]
      exact List.append_ne_nil_of_right_ne_nil _ (List.cons_ne_nil _ _)
    · exact isPlain_of_isNumeric (isNumeric_of_mem _ hwhole (forall_isNumeric hfraction) c hc)

end DampedLeastSquares.Toml
