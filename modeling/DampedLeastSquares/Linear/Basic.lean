import DampedLeastSquares.Scalar

/-!
# Vectors as lists

A vector is the list of its entries. Sums are taken from the first entry to the last, which matters
where addition rounds. Two vectors of different lengths meet only in their common part.
-/

namespace DampedLeastSquares.Linear

variable {R : Type} [Scalar R]

/-- The sum of the entries, from the first to the last. -/
def sum (v : List R) : R := v.foldl (· + ·) 0

/-- The inner product. -/
def dot (u v : List R) : R := sum (List.zipWith (· * ·) u v)

/-- The sum of the squares of the entries. -/
def sumSquares (v : List R) : R := sum (v.map fun a ↦ a * a)

/-- The Euclidean length. -/
def norm (v : List R) : R := Scalar.sqrt (sumSquares v)

/-- The arithmetic mean. -/
def mean (v : List R) : R := sum v / (v.length : R)

/-- The root of the mean square, which is zero for the empty vector. -/
def rms (v : List R) : R :=
  if v.isEmpty then 0 else Scalar.sqrt (mean (v.map fun a ↦ a * a))

/-- Entrywise difference. -/
def sub (u v : List R) : List R := List.zipWith (· - ·) u v

/-- Whether every entry is finite. -/
def allFinite (v : List R) : Bool := v.all Scalar.isFinite

end DampedLeastSquares.Linear
