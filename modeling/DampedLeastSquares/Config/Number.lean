import DampedLeastSquares.Amount
import DampedLeastSquares.Decimal.Layout
import DampedLeastSquares.Decimal.Reading
import DampedLeastSquares.Fault

/-!
# Numbers in settings

A setting is written as a whole number, of any size, as a float, or as a truth value that counts as
zero or one. Which of these it is shows in messages and in saved files, and it decides nothing else:
comparisons go by the value, exactly, so that a whole number too large for a float still compares
as itself.
-/

namespace DampedLeastSquares

/-- A number together with the way it is written. -/
inductive Number
  /-- A whole number. -/
  | int (value : Int)
  /-- A float. -/
  | real (value : Float)
  /-- A truth value. -/
  | truth (value : Bool)

namespace Number

/-- The text of a number in a message. -/
def text : Number → String
  | int n => toString n
  | real x => Decimal.roundTrip x
  | truth b => if b then "True" else "False"

/-- The float next to the number. -/
def toFloat : Number → Float
  | int n => Decimal.ofInt n
  | real x => x
  | truth b => if b then 1 else 0

/-- The amount that a number stands for. -/
def toAmount : Number → Amount Float
  | int n => .whole n
  | real x => .scalar x
  | truth b => .whole (if b then 1 else 0)

/-- The number without its way of writing: a whole number, or a float that is none. -/
inductive Magnitude
  /-- A whole number. -/
  | whole (n : Int)
  /-- A finite number `n / 2 ^ places`. -/
  | fractional (n : Int) (places : Nat)
  /-- Beyond every number. -/
  | infinite (negative : Bool)
  /-- Not comparable with any number. -/
  | undefined

/-- How many units of the last of so many binary places make one. -/
def unit (places : Nat) : Int := Int.pow 2 places

/-- The exact value. -/
def magnitude : Number → Magnitude
  | int n => .whole n
  | truth b => .whole (if b then 1 else 0)
  | real x =>
    match Decimal.Exact.ofFloat x with
    | .undefined => .undefined
    | .infinite negative => .infinite negative
    | .finite negative m e =>
      let n : Int := if negative then -(m : Int) else m
      match e with
      | .ofNat e => .whole (n * unit e)
      | .negSucc e => .fractional n (e + 1)

/-- Whether the number is below a whole one. -/
def isBelow (a : Number) (bound : Int) : Bool :=
  match a.magnitude with
  | .whole n => n < bound
  | .fractional n places => n < bound * unit places
  | .infinite negative => negative
  | .undefined => false

/-- Whether the number is above a whole one. -/
def isAbove (a : Number) (bound : Int) : Bool :=
  match a.magnitude with
  | .whole n => bound < n
  | .fractional n places => bound * unit places < n
  | .infinite negative => !negative
  | .undefined => false

/-- Whether the number is a whole one or above it. -/
def isAtLeast (a : Number) (bound : Int) : Bool :=
  match a.magnitude with
  | .whole n => bound ≤ n
  | .fractional n places => bound * unit places ≤ n
  | .infinite negative => !negative
  | .undefined => false

/-- Whether the number is at most a whole one. -/
def isAtMost (a : Number) (bound : Int) : Bool :=
  match a.magnitude with
  | .whole n => n ≤ bound
  | .fractional n places => n ≤ bound * unit places
  | .infinite negative => negative
  | .undefined => false

/-- Whether two numbers have the same value, however they are written. -/
def sameValue (a b : Number) : Bool :=
  match a.magnitude, b.magnitude with
  | .whole m, .whole n => m = n
  | .fractional m p, .fractional n q => m * unit q = n * unit p
  | .whole m, .fractional n q => m * unit q = n
  | .fractional m p, .whole n => m = n * unit p
  | .infinite s, .infinite t => s = t
  | _, _ => false

/-- Whether the number counts as true: unless it is zero. -/
def isTrue (a : Number) : Bool := !(a.isAtMost 0 && a.isAtLeast 0)

/-- The least natural number that the number does not exceed, if there is one. -/
def ceiling? (a : Number) : Option Nat :=
  match a.magnitude with
  | .whole n => some n.toNat
  | .fractional n places => some (-(Int.fdiv (-n) (unit places))).toNat
  | .infinite negative => if negative then some 0 else none
  | .undefined => none

/-- The whole number that is left when the fraction is dropped. -/
def truncate (a : Number) : Except Fault Int :=
  match a.magnitude with
  | .whole n => .ok n
  | .fractional n places => .ok (Int.tdiv n (unit places))
  | .infinite _ => .error .infiniteIndex
  | .undefined => .error .undefinedIndex

end Number

end DampedLeastSquares
