import DampedLeastSquares.Decimal.Layout

/-!
# Vectors in one line

A vector is shown between brackets, its elements aligned by a common width. All elements share one
notation. It is scientific if some nonzero element is at least `10 ^ 8` or below `10 ^ -4`, or more
than a thousand times as large as another, and positional otherwise. Each element is shown with the
fewest digits that read back, but no more than eight behind the point.

Positional elements keep their own number of digits and are padded with blanks on both sides so
that the points align; a point is written even if no digit follows. Scientific elements all get as
many digits as the longest of them. For most floats the additional digits are zeros, but for very
small ones, of which few digits read back, they are those of the exact value. Lines hold 75
characters, and further lines are indented by one.

Of a vector with more than a thousand elements only the first three and the last three are shown,
with dots between them, and the elements that are not shown have no say in the notation.
-/

namespace DampedLeastSquares.Decimal

/-- The most digits behind the point. -/
def vectorPlaces : Nat := 8

/-- The most characters of a line of a vector. -/
def vectorLineWidth : Nat := 75

/-- The most elements of a vector that is shown as a whole. -/
def vectorThreshold : Nat := 1000

/-- The number of elements that are shown at either end of a longer vector. -/
def vectorEdge : Nat := 3

namespace Digits

/-- The shortest decimal of a positive float, or the nearest with eight places if that has more. -/
def inPlaces (mantissa : Nat) (exponent : Int) : Digits :=
  let d := shortest .toEven mantissa exponent
  if -(vectorPlaces : Int) ≤ d.exponent then d
  else (atPlace (.ofBinary mantissa exponent) (-(vectorPlaces : Int))).trim

/-- The shortest decimal of a positive float, or the nearest of `count` digits if that has more. -/
def inSignificant (count mantissa : Nat) (exponent : Int) : Digits :=
  let d := shortest .toEven mantissa exponent
  if d.chars.length ≤ count then d else (significant (.ofBinary mantissa exponent) count).trim

end Digits

/-- The parts of an element on either side of the point, the sign being part of the left one, and
the power of ten of a scientific element. -/
structure ElementParts where
  /-- What stands before the point. -/
  left : String
  /-- The digits behind the point. -/
  right : String
  /-- The power of ten. -/
  power : Int

/-- The parts of a finite element in positional notation. -/
def positionalParts (negative : Bool) (mantissa : Nat) (exponent : Int) : ElementParts :=
  if mantissa = 0 then ⟨signText negative ++ "0", "", 0⟩
  else
    let (whole, fraction) := (Digits.inPlaces mantissa exponent).split
    ⟨signText negative ++ String.ofList whole, String.ofList fraction, 0⟩

/-- The parts of a finite element in scientific notation, with digits chosen by `digits`. -/
def scientificParts (digits : Nat → Int → Digits) (negative : Bool) (mantissa : Nat)
    (exponent : Int) : ElementParts :=
  if mantissa = 0 then ⟨signText negative ++ "0", "", 0⟩
  else
    let d := digits mantissa exponent
    ⟨signText negative ++ String.ofList (d.chars.take 1), String.ofList (d.chars.drop 1),
      d.leadingPlace⟩

/-- The parts of an element by which the number of digits of all is chosen. -/
def shortParts : Bool → Nat → Int → ElementParts :=
  scientificParts (Digits.inSignificant (vectorPlaces + 1))

/-- The parts of an element with `places` digits behind the point. -/
def evenParts (places : Nat) : Bool → Nat → Int → ElementParts :=
  scientificParts fun mantissa exponent ↦
    Digits.significant (.ofBinary mantissa exponent) (places + 1)

/-- The greatest of some lengths. -/
def longest (lengths : List Nat) : Nat := lengths.foldl max 0

/-- Whether the elements are shown in scientific notation. -/
def needsPower (elements : List Float) : Bool :=
  let sizes := (elements.filter fun x ↦ x.isFinite && x != 0).map Float.abs
  match sizes with
  | [] => false
  | size :: sizes =>
    let greatest := sizes.foldl (fun a b ↦ if a < b then b else a) size
    let least := sizes.foldl (fun a b ↦ if b < a then b else a) size
    1e8 ≤ greatest || least < 1e-4 || 1000 < greatest / least

/-- The finite elements, given to `parts`. -/
def finiteParts (parts : Bool → Nat → Int → ElementParts) (elements : List Float) :
    List ElementParts :=
  elements.filterMap fun x ↦
    match Exact.ofFloat x with
    | .finite negative mantissa exponent => some (parts negative mantissa exponent)
    | _ => none

/-- The width of an element without a finite value, less the point and the width behind it. -/
def specialWidth (elements : List Float) (right : Nat) : Nat :=
  if elements.all Float.isFinite then 0
  else (if elements.any (· == -1 / 0) then 4 else 3) - (right + 1)

/-- The texts of the elements, all of one width. -/
def elementTexts (elements : List Float) : List String :=
  if needsPower elements then
    let first := finiteParts shortParts elements
    let places := longest (first.map (·.right.length))
    let digits := longest (first.map fun p ↦ max 2 (Nat.toDigits 10 p.power.natAbs).length)
    let right := digits + 2 + places
    let left := max (longest (first.map (·.left.length))) (specialWidth elements right)
    elements.map fun x ↦
      match Exact.ofFloat x with
      | .finite negative mantissa exponent =>
        let p := evenParts places negative mantissa exponent
        let zeros := String.ofList (List.replicate (places - p.right.length) '0')
        padLeft left p.left ++ "." ++ p.right ++ zeros ++ exponentText digits p.power
      | special => padLeft (left + 1 + right) (textOf (fun _ _ ↦ "") special)
  else
    let all := finiteParts positionalParts elements
    let right := longest (all.map (·.right.length))
    let left := max (longest (all.map (·.left.length))) (specialWidth elements right)
    elements.map fun x ↦
      match Exact.ofFloat x with
      | .finite negative mantissa exponent =>
        let p := positionalParts negative mantissa exponent
        padLeft left p.left ++ "." ++ padRight right p.right
      | special => padLeft (left + 1 + right) (textOf (fun _ _ ↦ "") special)

/-- A text without blanks at its end. -/
def dropBlanksAtEnd (text : String) : String :=
  String.ofList ((text.toList.reverse.dropWhile (· = ' ')).reverse)

/-- Fills lines with words. `line` is the line begun, which ends in a blank; one character is kept
free for the bracket. -/
def fillLines : String → List String → String
  | line, [] => line
  | line, word :: words =>
    let after := if words.isEmpty then "" else " "
    if vectorLineWidth < line.length + word.length + 1 ∧ 1 < line.length then
      dropBlanksAtEnd line ++ "\n" ++ fillLines (" " ++ word ++ after) words
    else fillLines (line ++ word ++ after) words

/-- The words between the brackets: the texts of the elements, or of those at the ends with dots
between them. -/
def vectorWords (elements : List Float) : List String :=
  if elements.length ≤ vectorThreshold then elementTexts elements
  else
    let ends := elements.take vectorEdge ++ elements.drop (elements.length - vectorEdge)
    let texts := elementTexts ends
    texts.take vectorEdge ++ "..." :: texts.drop vectorEdge

/-- The text of a vector. -/
def vectorText (elements : List Float) : String :=
  "[" ++ String.ofList ((fillLines " " (vectorWords elements)).toList.drop 1) ++ "]"

end DampedLeastSquares.Decimal
