import DampedLeastSquares.Scalar
import DampedLeastSquares.Tensor

/-!
# Moving along a coordinate

Difference quotients and updates both move a point along one coordinate after another. Points are
lists of coordinates. Where a caller hands over an array instead, its rows along the first axis take
the place of the coordinates, and a row moves as a whole.

By how much a point moves is computed only once it is known that the coordinate exists. The amount
is therefore a computation, and if both fail, then the missing coordinate is the fault.
-/

namespace DampedLeastSquares

variable {R : Type} [Scalar R]

/-- The point with one coordinate, counted from either end, moved by an amount. -/
def moveEntry (x : List R) (var : Int) (amount : Except Fault R) : Except Fault (List R) :=
  match position? var x.length with
  | some i => amount.map fun a ↦ x.modify i (· + a)
  | none => .error (refuseIndex var (.indexOutOfBounds var 0 x.length))

/-- The array with one row, counted from either end, moved by an amount. -/
def Tensor.moveRow (x : Tensor R) (var : Int) (amount : Except Fault R) :
    Except Fault (Tensor R) :=
  match x.shape with
  | [] => .error (refuseIndex var (.tooManyIndices 0 1))
  | n :: _ =>
    match position? var n with
    | some i => amount.map fun a ↦ x.modifyRow (· + a) i
    | none => .error (refuseIndex var (.indexOutOfBounds var 0 n))

end DampedLeastSquares
