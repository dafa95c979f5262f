import DampedLeastSquares.Bundle.Sparsity
import Mathlib.Algebra.Order.Ring.Int
import Mathlib.Tactic.ByContra
import Mathlib.Tactic.FinCases

/-!
# Columns computed in words

The columns of a point are computed in the words in which its number is given, and are then counted
from either end. The three numbers that are computed follow each other. What is left of them as
words does so up to the greatest word, and the columns that the words mean do so up to the last
column.

Marked are the columns of the point itself exactly if its number counts from the start and there is
a word for the last of them. No other words mean these columns by chance: columns come in threes,
and the number of words is no multiple of three.
-/

namespace DampedLeastSquares

namespace WordFormat

variable {f : WordFormat} {i : Int}

theorem le_modulus (f : WordFormat) : 256 ≤ f.modulus := by
  have hall : ∀ bits ∈ [8, 16, 32, 64], 256 ≤ Nat.pow 2 bits := by decide
  exact hall f.bits f.bits_mem

theorem modulus_mod_three (f : WordFormat) : f.modulus % 3 = 1 := by
  have hall : ∀ bits ∈ [8, 16, 32, 64], Nat.pow 2 bits % 3 = 1 := by decide
  exact hall f.bits f.bits_mem

/-- Words without a sign begin at zero, and half of those with a sign are negative. -/
theorem least_cases (f : WordFormat) : f.least = 0 ∨ 2 * f.least = -f.modulus := by
  have hall : ∀ bits ∈ [8, 16, 32, 64],
      2 * -((Nat.pow 2 (bits - 1) : Nat) : Int) = -((Nat.pow 2 bits : Nat) : Int) := by decide
  rw [least]
  split
  · exact Or.inr (hall f.bits f.bits_mem)
  · exact Or.inl rfl

theorem wrap_add_one (f : WordFormat) (i : Int) :
    f.wrap (i + 1) = f.wrap i + 1 ∨ f.wrap i = f.greatest ∧ f.wrap (i + 1) = f.least := by
  have hpos := f.modulus_pos
  have hword := f.holds_wrap i
  rw [← wrap_wrap_add]
  by_cases hlast : f.wrap i = f.greatest
  · have hnext : f.greatest + 1 = f.least + 1 * f.modulus := by rw [greatest]; omega
    rw [hlast, hnext, wrap_add_mul, wrap_of_holds (by rw [Holds, greatest]; omega)]
    exact Or.inr ⟨rfl, rfl⟩
  · rw [Holds] at hword
    rw [wrap_of_holds (by rw [Holds]; omega)]
    exact Or.inl rfl

/-- What is left of a number is within bounds that do not prefer a sign, unless the number has a
sign and the words have none. -/
theorem wrap_inRange {n : Int} (hsign : 0 ≤ i ∨ f.least ≠ 0) (h : -n ≤ i ∧ i < n) :
    -n ≤ f.wrap i ∧ f.wrap i < n := by
  have hleast := f.least_cases
  have hpos := f.modulus_pos
  have hword := f.holds_wrap i
  by_cases hi : f.Holds i
  · rwa [wrap_of_holds hi]
  · rw [Holds, greatest] at hi hword
    omega

theorem holds_asIndex (h : f.Holds i) (hwide : int64.Holds i) : f.asIndex.Holds i := by
  unfold asIndex
  split
  · exact hwide
  · exact h

theorem emod_cases {n : Int} (h : -n ≤ i ∧ i < n) : 0 ≤ i ∧ i % n = i ∨ i < 0 ∧ i % n = i + n := by
  rcases lt_or_ge i 0 with hneg | hnonneg
  · rw [Int.emod_eq_add_self_emod, Int.emod_eq_of_lt (by omega) (by omega)]
    exact Or.inr ⟨hneg, rfl⟩
  · exact Or.inl ⟨hnonneg, Int.emod_eq_of_lt hnonneg h.2⟩

/-- The words of numbers that follow each other do so and mean positions that follow each other, or
else they mean the same position or two that are further apart than any of three. -/
theorem wrap_add_one_emod {n : Int} (hthree : n % 3 = 0) (hlarge : 3 < n)
    (hsign : 0 ≤ i ∨ f.least ≠ 0) (hlow : -n ≤ i) (hhigh : i + 1 < n) :
    f.wrap (i + 1) = f.wrap i + 1 ∧ f.wrap (i + 1) % n = f.wrap i % n + 1 ∨
      f.wrap (i + 1) % n = f.wrap i % n ∨
      f.wrap (i + 1) % n + 2 < f.wrap i % n ∨ f.wrap i % n + 2 < f.wrap (i + 1) % n := by
  have hfirst := emod_cases (wrap_inRange hsign ⟨hlow, by omega⟩)
  have hsecond := emod_cases (wrap_inRange (f := f) (i := i + 1) (n := n) (by omega)
    ⟨by omega, hhigh⟩)
  rcases f.wrap_add_one i with hnext | ⟨hgreatest, hnext⟩
  · -- Only from the last column to the first one the positions do not follow each other.
    omega
  · -- From the greatest word to the least it is one less than the number of words.
    have hmany := f.le_modulus
    rw [greatest] at hgreatest
    rcases f.least_cases with hleast | hleast
    · omega
    · have hmodulus := f.modulus_mod_three
      have hlast : f.wrap i % n = f.wrap i := (hfirst.resolve_right (by omega)).2
      have hnegative : f.wrap (i + 1) % n = f.wrap (i + 1) + n :=
        (hsecond.resolve_left (by omega)).2
      omega

/-- **Wrapped columns are the columns of a point only where nothing is wrapped.** There are six
columns for each camera and behind them three for each point. Let an index mean the point in a row,
from either end. If each of the columns of this point is one of the three that are computed from the
index, then the index is not negative, and there was a word for all three. -/
theorem holds_of_forall_column {cameras points : Nat} {index row : Int} (hcameras : 0 < cameras)
    (hstart : f.Holds (6 * cameras)) (hindex : f.Holds index) (hrow : 0 ≤ row ∧ row < points)
    (hmeans : row = index ∨ index < 0 ∧ row = index + points)
    (hall : ∀ t ∈ [(0 : Int), 1, 2], ∃ s ∈ [(0 : Int), 1, 2],
      f.wrap (6 * cameras + index * 3 + s) % (6 * cameras + 3 * points : Nat)
        = 6 * cameras + row * 3 + t) :
    0 ≤ index ∧ f.Holds (6 * cameras + index * 3 + 2) := by
  generalize hn : ((6 * cameras + 3 * points : Nat) : Int) = n at hall
  generalize hv : (6 * cameras + index * 3 : Int) = v at hall ⊢
  have hmodulus := f.modulus_mod_three
  have hword := f.holds_wrap v
  have hlast := f.holds_wrap (v + 2)
  simp only [Holds, greatest] at hstart hindex hword
  have hsize : n % 3 = 0 ∧ 3 < n := by omega
  have hbounds : -n ≤ v ∧ v + 2 < n := by omega
  have hsign : 0 ≤ v ∨ f.least ≠ 0 := by omega
  have hfirst := wrap_add_one_emod hsize.1 hsize.2 hsign hbounds.1 (by omega)
  have hsecond := wrap_add_one_emod (f := f) (i := v + 1) hsize.1 hsize.2 (by omega) (by omega)
    (by omega)
  have htwo : v + 1 + 1 = v + 2 := by omega
  rw [htwo] at hsecond
  simp only [List.forall_mem_cons, List.not_mem_nil, false_implies, implies_true, and_true,
    List.exists_mem_cons_iff, false_and, exists_false, or_false, Int.add_zero] at hall
  -- The three columns lie side by side, so the words do not jump, and the first is the first.
  obtain ⟨hcolumn, hwords⟩ : f.wrap v % n = 6 * cameras + row * 3 ∧
      f.wrap (v + 2) = f.wrap v + 2 := by omega
  -- The first word is off by a multiple of three times the number of words, which is too much.
  obtain ⟨k, hk⟩ := f.exists_wrap_eq v
  have hmeans' := emod_cases (wrap_inRange hsign ⟨hbounds.1, by omega⟩)
  clear hall hfirst hsecond
  have hmany := f.le_modulus
  have hleast := f.least_cases
  have hbound : -3 < k ∧ k < 3 := by
    constructor
    · by_contra hle
      have := Int.mul_le_mul_of_nonneg_right (not_lt.mp hle) (Int.natCast_nonneg f.modulus)
      omega
    · by_contra hle
      have := Int.mul_le_mul_of_nonneg_right (not_lt.mp hle) (Int.natCast_nonneg f.modulus)
      omega
  have hmultiple : k * f.modulus % 3 = 0 := by omega
  have hone : (f.modulus : Int) % 3 = 1 := by omega
  rw [Int.mul_emod, hone, Int.mul_one, Int.emod_emod] at hmultiple
  obtain rfl : k = 0 := by omega
  rw [Int.zero_mul, Int.add_zero] at hk
  rw [hwords, hk] at hlast
  rw [hk] at hcolumn hmeans'
  exact ⟨by omega, hlast⟩

theorem holds_of_le {j : Int} (hnonneg : 0 ≤ i) (hle : i ≤ j) (h : f.Holds j) : f.Holds i := by
  have hleast := f.least_cases
  rw [Holds] at h ⊢
  omega

end WordFormat

/-- What the reductions on the way take away is lost at the end as well. -/
theorem Sparsity.blockIndex_eq (words : WordFormat) (start : Int) (width s : Nat) (index : Int) :
    blockIndex words start width s index = words.asIndex.wrap (start + index * width + s) := by
  simp [blockIndex]

end DampedLeastSquares
