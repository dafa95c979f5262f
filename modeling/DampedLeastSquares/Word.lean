/-!
# Words

The entries of an array of whole numbers are words of one format: so many bits, with a sign or
without. What is computed from such an array has the format of the array. A sum or a product for
which there is no word loses its upper bits, and nothing says so.
-/

namespace DampedLeastSquares

/-- A format of words. -/
structure WordFormat where
  /-- The number of bits. -/
  bits : Nat
  /-- Whether the words have a sign. -/
  signed : Bool
  /-- A word takes one, two, four or eight octets. -/
  bits_mem : bits ∈ [8, 16, 32, 64] := by decide
  deriving DecidableEq, Repr

namespace WordFormat

/-- The narrowest words without a sign. -/
def uint8 : WordFormat where
  bits := 8
  signed := false

/-- Words of middle width with a sign. -/
def int32 : WordFormat where
  bits := 32
  signed := true

/-- The widest words with a sign. -/
def int64 : WordFormat where
  bits := 64
  signed := true

/-- The widest words without a sign. -/
def uint64 : WordFormat where
  bits := 64
  signed := false

/-- The name of a format. -/
def name (f : WordFormat) : String := (if f.signed then "int" else "uint") ++ toString f.bits

/-- How many words there are. -/
def modulus (f : WordFormat) : Nat := Nat.pow 2 f.bits

/-- The least word. -/
def least (f : WordFormat) : Int := if f.signed then -(Nat.pow 2 (f.bits - 1) : Nat) else 0

/-- The greatest word. -/
def greatest (f : WordFormat) : Int := f.least + f.modulus - 1

/-- Whether there is a word for a number. -/
def Holds (f : WordFormat) (i : Int) : Prop := f.least ≤ i ∧ i ≤ f.greatest

instance (f : WordFormat) (i : Int) : Decidable (f.Holds i) := inferInstanceAs (Decidable (_ ∧ _))

/-- The word that is left of a number. -/
def wrap (f : WordFormat) (i : Int) : Int := (i - f.least) % f.modulus + f.least

/-- The format of indices as which the words of a format are read. An index has 64 bits and a sign,
and there is an index for every word but some of the widest without a sign; these are read as if
they had one. -/
def asIndex (f : WordFormat) : WordFormat := if f.bits = 64 then int64 else f

/-! ## Words and numbers -/

variable (f : WordFormat) {i j : Int}

theorem modulus_pos : 0 < f.modulus := Nat.two_pow_pos f.bits

@[simp] theorem modulus_asIndex : f.asIndex.modulus = f.modulus := by
  unfold asIndex
  split
  · rename_i hbits
    rw [modulus, modulus, hbits]
    rfl
  · rfl

theorem holds_wrap (i : Int) : f.Holds (f.wrap i) := by
  have hpos : (0 : Int) < f.modulus := Int.natCast_pos.mpr f.modulus_pos
  have hnonneg := Int.emod_nonneg (i - f.least) (Int.ne_of_gt hpos)
  have hlt := Int.emod_lt_of_pos (i - f.least) hpos
  rw [Holds, greatest, wrap]
  omega

variable {f}

/-- A number for which there is a word is left as it is. -/
theorem wrap_of_holds (h : f.Holds i) : f.wrap i = i := by
  rw [Holds, greatest] at h
  rw [wrap, Int.emod_eq_of_lt (by omega) (by omega), Int.sub_add_cancel]

/-- What is left of a number differs from it by a multiple of the number of words. -/
theorem exists_wrap_eq (f : WordFormat) (i : Int) : ∃ k, f.wrap i = i + k * f.modulus := by
  refine ⟨-((i - f.least) / f.modulus), ?_⟩
  have hdiv := Int.mul_ediv_add_emod (i - f.least) f.modulus
  rw [Int.mul_comm] at hdiv
  rw [wrap, Int.neg_mul]
  omega

/-- Numbers that differ by a multiple of the number of words leave the same word. -/
theorem wrap_add_mul (f : WordFormat) (i k : Int) : f.wrap (i + k * f.modulus) = f.wrap i := by
  have hmove : i + k * f.modulus - f.least = i - f.least + k * f.modulus := by omega
  rw [wrap, wrap, hmove, Int.add_mul_emod_self_right]

@[simp] theorem wrap_wrap_add (f : WordFormat) (i j : Int) :
    f.wrap (f.wrap i + j) = f.wrap (i + j) := by
  obtain ⟨k, hk⟩ := f.exists_wrap_eq i
  rw [hk, Int.add_right_comm, wrap_add_mul]

@[simp] theorem wrap_add_wrap (f : WordFormat) (i j : Int) :
    f.wrap (i + f.wrap j) = f.wrap (i + j) := by
  rw [Int.add_comm, wrap_wrap_add, Int.add_comm]

/-- A word that is left of a number is read as the index that is left of the number. -/
@[simp] theorem wrap_asIndex_wrap (f : WordFormat) (i : Int) :
    f.asIndex.wrap (f.wrap i) = f.asIndex.wrap i := by
  obtain ⟨k, hk⟩ := f.exists_wrap_eq i
  rw [hk, ← f.modulus_asIndex, wrap_add_mul]

end WordFormat

end DampedLeastSquares
