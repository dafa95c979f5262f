import DampedLeastSquares.Solve.Basic

/-!
# State that is a vector

The simplest model is a vector of known size, whose values may still be missing. It can be stored
if there are values, and it is restored from vectors of its size only.
-/

namespace DampedLeastSquares

/-- A vector as a model. -/
structure FlatState (R : Type) where
  /-- The number of entries that a vector must have. -/
  size : Int
  /-- The entries, if they are known. -/
  values : Option (List R)

namespace FlatState

variable {R : Type}

/-- The state with the given values, of any shape, or of the given size. If both are given, they
have to agree. -/
def make : Option (Tensor R) → Option Int → Except Fault (FlatState R)
  | none, none => .error .sizeMissing
  | none, some size => .ok ⟨size, none⟩
  | some values, none => .ok ⟨values.size, some values.entries⟩
  | some values, some size =>
    if (values.size : Int) = size then .ok ⟨size, some values.entries⟩
    else .error (.sizeMismatch size values.size)

/-- The vector of the state. -/
def store (s : FlatState R) : Option (List R) := s.values

/-- The state with the values of a vector. An array that is no vector, or a vector of another size,
is refused. -/
def restore (s : FlatState R) (vector : Tensor R) : Option (FlatState R) :=
  match vector.toList? with
  | some values => if (values.length : Int) = s.size then some { s with values } else none
  | none => none

end FlatState

/-- The residuals of a problem at the vector of a model. Without a vector there are none, which is
reported. -/
def Problem.evaluateModel {R : Type} [Scalar R] (p : Problem R) (model : FlatState R) :
    Called (List R) (List R) × List (Record R) :=
  match model.store with
  | none => (⟨[], .ok []⟩, [.noVector])
  | some x => (⟨[x], p.residual 0 x⟩, [])

end DampedLeastSquares
