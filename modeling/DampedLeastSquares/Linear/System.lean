import DampedLeastSquares.Linear.Basic

/-!
# Square linear systems

The systems of this library are symmetric: as many equations as unknowns, and the coefficient of one
unknown in the equation of another is the coefficient of the other in the equation of the one.
Elimination keeps to that as long as it removes an unknown with the equation of the same number, and
then a diagonal that was positive stays so. One round picks an unknown, the last one unless its own
coefficient is small beside the others of its column; removes it from the other equations; solves
what is left; and finds the unknown from its equation. If the coefficient to divide by is zero, the
equation with the largest coefficient of the unknown takes its place, so that a system is singular
exactly when some round finds an unknown without coefficients.

The coefficient that is divided by is inverted once, and the rest is multiplication. Where it is too
small to have an inverse, no solution comes out finite. A single equation is divided directly.

The recursion is on the number of unknowns, and each round drops one equation and one unknown, so
a round never looks at a coefficient that is already gone.
-/

namespace DampedLeastSquares.Linear

variable {R : Type} [Scalar R]

/-- One equation: `coefficients · (x₀, x₁, …) = rhs`. -/
structure Equation (R : Type) where
  /-- The coefficients of the unknowns. -/
  coefficients : List R
  /-- The right-hand side. -/
  rhs : R

namespace Equation

/-- The coefficient of an unknown. -/
def coefficient (e : Equation R) (p : Nat) : R := e.coefficients.getD p 0

/-- The coefficients of the unknowns other than `p`. -/
def others (e : Equation R) (p : Nat) : List R := e.coefficients.eraseIdx p

/-- What is left of an equation when the unknown `p` is removed with the help of `pivot`, where the
coefficient of `p` has the given inverse. -/
def reduce (p : Nat) (inverse : R) (pivot e : Equation R) : Equation R :=
  let factor := e.coefficient p * inverse
  ⟨List.zipWith (fun a b ↦ a - factor * b) (e.others p) (pivot.others p),
    e.rhs - factor * pivot.rhs⟩

/-- The unknown `p`, given the others. -/
def isolate (p : Nat) (inverse : R) (pivot : Equation R) (xs : List R) : R :=
  pivot.rhs * inverse - dot ((pivot.others p).map (· * inverse)) xs

end Equation

/-- The position and the value of the greatest of some sizes, and the first of equal ones. -/
def greatest? : List R → Option (Nat × R)
  | [] => none
  | a :: as =>
    match greatest? as with
    | none => some (0, a)
    | some (i, b) => if a < b then some (i + 1, b) else some (0, a)

/-- How large a coefficient on the diagonal has to be, beside the others of its column, for its
unknown to be taken first: the ratio at which either choice lets the others grow alike. -/
def pivotRatio : R := (1 + Scalar.sqrt ((17 : Nat) : R)) / ((8 : Nat) : R)

/-- The unknown to be removed: the last one if its coefficient on the diagonal is large enough, or
else the one that has the greatest coefficient in its equation. -/
def selectUnknown (equations : List (Equation R)) : Nat :=
  let last := equations.length - 1
  let sizes := fun (p : Nat) ↦ equations.map fun e ↦ Scalar.abs (e.coefficient p)
  let column := sizes last
  match greatest? (column.take last) with
  | none => last
  | some (i, most) =>
    let own := column.getD last 0
    let widest := ((greatest? ((sizes i).eraseIdx i)).map Prod.snd).getD 0
    if pivotRatio * most ≤ own || pivotRatio * most * (most / widest) ≤ own then last else i

/-- The equation to remove the unknown `p` with, and the others: the equation of the same number, or
the one with the greatest coefficient if that has none. -/
def selectPivot (p : Nat) (equations : List (Equation R)) :
    Option (Equation R × List (Equation R)) := do
  let own ← equations[p]?
  if Scalar.isZero (own.coefficient p) then
    let (q, most) ← greatest? (equations.map fun e ↦ Scalar.abs (e.coefficient p))
    let pivot ← equations[q]?
    if Scalar.isZero most then none else some (pivot, equations.eraseIdx q)
  else some (own, equations.eraseIdx p)

/-- The solution of `n` equations in `n` unknowns, if each round finds a pivot. -/
def eliminate : Nat → List (Equation R) → Option (List R)
  | 0, _ => some []
  | n + 1, equations =>
    let p := selectUnknown equations
    match selectPivot p equations with
    | none => none
    | some (pivot, rest) =>
      let inverse := 1 / pivot.coefficient p
      (eliminate n (rest.map (pivot.reduce p inverse))).map fun xs ↦
        xs.insertIdx p (pivot.isolate p inverse xs)

/-- The solution of the system with the given rows and right-hand sides. There is none if an entry
is not finite or if the system is singular. -/
def solve? (rows : List (List R)) (rhs : List R) : Option (List R) :=
  if rows.all allFinite && allFinite rhs then
    match rows, rhs with
    | [[a]], [b] => if Scalar.isZero a then none else some [b / a]
    | rows, rhs => eliminate rhs.length (List.zipWith Equation.mk rows rhs)
  else none

end DampedLeastSquares.Linear
