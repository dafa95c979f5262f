import DampedLeastSquares.Decimal.Digits

/-!
# Layouts of decimal numbers

A layout decides how chosen digits are written: positionally, with a point inside a run of digits,
or scientifically, with one digit before the point and a power of ten behind it. The texts of this
library are four combinations of a choice of digits with a layout:

* `exponential`: so many places behind the point, always scientific;
* `general`: so many significant digits, scientific only for very small and very large numbers,
  and no zeros at the end;
* `roundTrip`: the fewest digits that read back, scientific from `10 ^ 16` and below `10 ^ -4`;
* `plain`: the fewest digits that read back, always positional. Where two decimals are as short and
  as near, it takes the one further from zero; everywhere else it is the even one.
-/

namespace DampedLeastSquares.Decimal

/-- The text with blanks put before it up to the given width. -/
def padLeft (width : Nat) (text : String) : String :=
  String.ofList (List.replicate (width - text.length) ' ') ++ text

/-- The text with blanks put behind it up to the given width. -/
def padRight (width : Nat) (text : String) : String :=
  text ++ String.ofList (List.replicate (width - text.length) ' ')

/-- A minus sign, if there is to be one. -/
def signText (negative : Bool) : String := if negative then "-" else ""

/-- A power of ten: a letter, a sign, and at least `width` digits. -/
def exponentText (width : Nat) (exponent : Int) : String :=
  let digits := Nat.toDigits 10 exponent.natAbs
  let zeros := List.replicate (width - digits.length) '0'
  String.ofList ('e' :: (if exponent < 0 then '-' else '+') :: zeros ++ digits)

/-- The texts of infinite and undefined values; others get their sign and `text` of the value. -/
def textOf (text : Nat → Int → String) : Exact → String
  | .undefined => "nan"
  | .infinite negative => signText negative ++ "inf"
  | .finite negative mantissa exponent => signText negative ++ text mantissa exponent

namespace Digits

/-- The digits before and behind the decimal point, with at least one before it. -/
def split (d : Digits) : List Char × List Char :=
  let chars := d.chars
  match d.exponent with
  | .ofNat e => (if d.coefficient = 0 then ['0'] else chars ++ List.replicate e '0', [])
  | .negSucc e =>
    let places := e + 1
    if places < chars.length then
      (chars.take (chars.length - places), chars.drop (chars.length - places))
    else (['0'], List.replicate (places - chars.length) '0' ++ chars)

/-- The digits around a point, which is left out if nothing stands behind it. -/
def positional (d : Digits) : String :=
  match d.split with
  | (whole, []) => String.ofList whole
  | (whole, fraction) => String.ofList whole ++ "." ++ String.ofList fraction

/-- The digits around a point that has at least one digit behind it. -/
def pointed (d : Digits) : String :=
  match d.split with
  | (whole, []) => String.ofList whole ++ ".0"
  | (whole, fraction) => String.ofList whole ++ "." ++ String.ofList fraction

/-- One digit before the point, the others behind it, and the power of ten. -/
def scientific (d : Digits) : String :=
  let mantissa := match d.chars with
    | [] => ""
    | [c] => String.singleton c
    | c :: rest => String.singleton c ++ "." ++ String.ofList rest
  mantissa ++ exponentText 2 d.leadingPlace

end Digits

/-- Zero with the given number of places behind the point. -/
def zeroDigits (places : Nat) : String :=
  if places = 0 then "0" else "0." ++ String.ofList (List.replicate places '0')

/-- Scientific text with the given number of places behind the point. -/
def exponential (places : Nat) (x : Float) : String :=
  textOf (fun mantissa exponent ↦
    if mantissa = 0 then zeroDigits places ++ exponentText 2 0
    else (Digits.significant (.ofBinary mantissa exponent) (places + 1)).scientific)
    (.ofFloat x)

/-- Text of at most the given number of significant digits, at least one, without zeros at the
end. It is positional as long as the first digit stands at the fourth place behind the point or
before it, and the last of the allowed digits not before the point. -/
def general (precision : Nat) (x : Float) : String :=
  textOf (fun mantissa exponent ↦
    if mantissa = 0 then "0"
    else
      let d := Digits.significant (.ofBinary mantissa exponent) precision
      if -4 ≤ d.leadingPlace ∧ d.leadingPlace < precision then d.trim.positional
      else d.trim.scientific)
    (.ofFloat x)

/-- The shortest text that reads back, with a point or a power of ten in it. -/
def roundTrip (x : Float) : String :=
  textOf (fun mantissa exponent ↦
    if mantissa = 0 then "0.0"
    else
      let d := Digits.shortest .toEven mantissa exponent
      if -4 ≤ d.leadingPlace ∧ d.leadingPlace < 16 then d.pointed else d.scientific)
    (.ofFloat x)

/-- The shortest text that reads back, without a power of ten. -/
def plain (x : Float) : String :=
  textOf (fun mantissa exponent ↦
    if mantissa = 0 then "0.0" else (Digits.shortest .away mantissa exponent).pointed)
    (.ofFloat x)

end DampedLeastSquares.Decimal
