import DampedLeastSquares.Decimal.Reading
import DampedLeastSquares.Toml.Value

/-!
# Literals without quotes

Numbers, truth values, dates and times are runs of characters without blanks. Which of these a run
is follows from the run alone, so it is cut out first and classified afterwards. The one exception
is a date followed by a single blank and a time, which together are one value.
-/

namespace DampedLeastSquares.Toml

/-- Characters that end a literal without quotes. -/
def endsLiteral (c : Char) : Bool :=
  c = ' ' || c = '\t' || c = '\n' || c = ',' || c = ']' || c = '\x7d' || c = '#'

/-- Digits of some base with single underscores between them, the underscores removed. -/
def groupedDigits? (isDigit : Char → Bool) : List Char → Option (List Char)
  | [] => none
  | [c] => if isDigit c then some [c] else none
  | c :: '_' :: rest => if isDigit c then (groupedDigits? isDigit rest).map (c :: ·) else none
  | c :: rest => if isDigit c then (groupedDigits? isDigit rest).map (c :: ·) else none

/-- Splits a sign off. -/
def splitSign : List Char → Bool × List Char
  | '-' :: rest => (true, rest)
  | '+' :: rest => (false, rest)
  | cs => (false, cs)

/-- The digits of a decimal numeral, which starts with zero only if it is zero. -/
def decimalDigits? (cs : List Char) : Option (List Char) :=
  match groupedDigits? Char.isDigit cs with
  | some ('0' :: _ :: _) => none
  | digits => digits

/-- A whole number in decimal notation. -/
def decimalInteger? (cs : List Char) : Option Int := do
  let (negative, rest) := splitSign cs
  let digits ← decimalDigits? rest
  let n := Decimal.readNat 10 digits
  some (if negative then -(n : Int) else n)

/-- Whether a character is a hexadecimal digit. -/
def isHexDigit (c : Char) : Bool :=
  c.isDigit || ('a' ≤ c && c ≤ 'f') || ('A' ≤ c && c ≤ 'F')

/-- A whole number of any size. -/
def unboundedInteger? : List Char → Option Int
  | '0' :: 'x' :: rest =>
    (groupedDigits? isHexDigit rest).map fun ds ↦ (Decimal.readNat 16 ds : Int)
  | '0' :: 'o' :: rest =>
    (groupedDigits? (fun c ↦ '0' ≤ c && c ≤ '7') rest).map fun ds ↦ (Decimal.readNat 8 ds : Int)
  | '0' :: 'b' :: rest =>
    (groupedDigits? (fun c ↦ c = '0' || c = '1') rest).map fun ds ↦ (Decimal.readNat 2 ds : Int)
  | cs => decimalInteger? cs

/-- The least whole number of a document: the least of 128 bits with a sign. -/
def leastInteger : Int := -0x80000000000000000000000000000000

/-- The greatest whole number of a document: the greatest of 128 bits without a sign. -/
def greatestInteger : Int := 0xffffffffffffffffffffffffffffffff

/-- A whole number. One that needs more than 128 bits is refused. -/
def integer? (cs : List Char) : Option Int := do
  let n ← unboundedInteger? cs
  if leastInteger ≤ n ∧ n ≤ greatestInteger then some n else none

/-- The power of ten at the end of a float, without the letter before it. -/
def power? (cs : List Char) : Option Int := do
  let (negative, rest) := splitSign cs
  let digits ← groupedDigits? Char.isDigit rest
  let n := Decimal.readNat 10 digits
  some (if negative then -(n : Int) else n)

/-- The parts of a float: digits, then a point with digits, a power of ten, or both. -/
def numeral? (cs : List Char) : Option Decimal.Numeral := do
  let isMark := fun c ↦ c = '.' || c = 'e' || c = 'E'
  let isPower := fun c ↦ c = 'e' || c = 'E'
  let whole ← decimalDigits? (cs.takeWhile (!isMark ·))
  match cs.dropWhile (!isMark ·) with
  | '.' :: rest =>
    let fraction ← groupedDigits? Char.isDigit (rest.takeWhile (!isPower ·))
    match rest.dropWhile (!isPower ·) with
    | [] => some ⟨whole, fraction, 0⟩
    | _ :: power => (power? power).map fun p ↦ ⟨whole, fraction, p⟩
  | _ :: power => (power? power).map fun p ↦ ⟨whole, [], p⟩
  | [] => none

/-- A float. Infinite and undefined values have words of their own, and a numeral too large for a
float is refused. -/
def float? (cs : List Char) : Option Float :=
  let (negative, rest) := splitSign cs
  match rest with
  | ['i', 'n', 'f'] => some (if negative then -1 / 0 else 1 / 0)
  | ['n', 'a', 'n'] => some (0 / 0)
  | rest => do
    let numeral ← numeral? rest
    let x := numeral.toFloat negative
    if x.isFinite then some x else none

/-- Two digits below a bound, and the rest. -/
def twoDigits? (bound : Nat) : List Char → Option (Nat × List Char)
  | a :: b :: rest =>
    let n := Decimal.readNat 10 [a, b]
    if a.isDigit && b.isDigit && n < bound then some (n, rest) else none
  | _ => none

/-- The number of days of a month. -/
def daysOfMonth (year month : Nat) : Nat :=
  if month = 2 then
    if year % 4 = 0 ∧ (year % 100 ≠ 0 ∨ year % 400 = 0) then 29 else 28
  else if month = 4 ∨ month = 6 ∨ month = 9 ∨ month = 11 then 30 else 31

/-- A day of the calendar, and the rest. -/
def date? : List Char → Option (List Char)
  | a :: b :: c :: d :: '-' :: rest => do
    if !([a, b, c, d].all Char.isDigit) then none
    let year := Decimal.readNat 10 [a, b, c, d]
    match ← twoDigits? 13 rest with
    | (month, '-' :: rest) =>
      let (day, rest) ← twoDigits? 32 rest
      if 1 ≤ year ∧ 1 ≤ month ∧ 1 ≤ day ∧ day ≤ daysOfMonth year month then some rest else none
    | _ => none
  | _ => none

/-- The seconds of a time of day, which may be missing, and the rest. -/
def seconds? : List Char → Option (List Char)
  | ':' :: rest => do
    match ← twoDigits? 60 rest with
    | (_, '.' :: rest) =>
      if rest.head?.any Char.isDigit then some (rest.dropWhile Char.isDigit) else none
    | (_, rest) => some rest
  | rest => some rest

/-- A time of day, and the rest. -/
def time? (cs : List Char) : Option (List Char) := do
  match ← twoDigits? 24 cs with
  | (_, ':' :: rest) =>
    let (_, rest) ← twoDigits? 60 rest
    seconds? rest
  | _ => none

/-- Whether the characters are nothing or a distance from universal time. -/
def isOffset : List Char → Bool
  | [] => true
  | [c] => c = 'Z' || c = 'z'
  | sign :: rest =>
    (sign = '+' || sign = '-') &&
      match twoDigits? 24 rest with
      | some (_, ':' :: rest) => (twoDigits? 60 rest).any fun (_, rest) ↦ rest.isEmpty
      | _ => false

/-- A date, a time, or both. -/
def moment? (cs : List Char) : Option Value :=
  match date? cs with
  | some [] => some .date
  | some (c :: rest) =>
    if c = 'T' ∨ c = 't' ∨ c = ' ' then
      match time? rest with
      | some rest => if isOffset rest then some .dateTime else none
      | none => none
    else none
  | none => if time? cs = some [] then some .time else none

/-- The value of a run of characters. -/
def literal? (cs : List Char) : Option Value :=
  if cs = ['t', 'r', 'u', 'e'] then some (.boolean true)
  else if cs = ['f', 'a', 'l', 's', 'e'] then some (.boolean false)
  else
    match integer? cs with
    | some n => some (.integer n)
    | none =>
      match float? cs with
      | some x => some (.float x)
      | none => moment? cs

/-- The run of characters at the start of the input, and the rest. A date takes a blank and a time
behind it along. -/
def cutLiteral (cs : List Char) : List Char × List Char :=
  let run := cs.takeWhile (!endsLiteral ·)
  match cs.dropWhile (!endsLiteral ·) with
  | ' ' :: rest =>
    let next := rest.takeWhile (!endsLiteral ·)
    if date? run = some [] ∧ next.head?.any Char.isDigit then
      (run ++ ' ' :: next, rest.dropWhile (!endsLiteral ·))
    else (run, ' ' :: rest)
  | rest => (run, rest)

end DampedLeastSquares.Toml
