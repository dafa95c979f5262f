import DampedLeastSquares.Decimal.Reading

/-!
# Numerals in free text

A text is accepted as a number when, apart from blanks at its ends, it is a numeral: a sign, digits
with single underscores between them, and for a float a point, a power of ten, or a word for an
infinite or undefined value. Digits of every script count, and so does every kind of blank beyond
the first 128 characters; among these, the four information separators are no blanks.
-/

namespace DampedLeastSquares.Text

/-- The zeros of all scripts with decimal digits. Each is followed by the nine other digits. -/
def decimalZeros : List Nat :=
  [0x30, 0x660, 0x6f0, 0x7c0, 0x966, 0x9e6, 0xa66, 0xae6, 0xb66, 0xbe6, 0xc66, 0xce6, 0xd66,
   0xde6, 0xe50, 0xed0, 0xf20, 0x1040, 0x1090, 0x17e0, 0x1810, 0x1946, 0x19d0, 0x1a80, 0x1a90,
   0x1b50, 0x1bb0, 0x1c40, 0x1c50, 0xa620, 0xa8d0, 0xa900, 0xa9d0, 0xa9f0, 0xaa50, 0xabf0,
   0xff10, 0x104a0, 0x10d30, 0x11066, 0x110f0, 0x11136, 0x111d0, 0x112f0, 0x11450, 0x114d0,
   0x11650, 0x116c0, 0x11730, 0x118e0, 0x11950, 0x11c50, 0x11d50, 0x11da0, 0x16a60, 0x16ac0,
   0x16b50, 0x1d7ce, 0x1d7d8, 0x1d7e2, 0x1d7ec, 0x1d7f6, 0x1e140, 0x1e2f0, 0x1e950, 0x1fbf0]

/-- Blank characters beyond the first 128. -/
def wideBlanks : List Nat :=
  [0x85, 0xa0, 0x1680, 0x2000, 0x2001, 0x2002, 0x2003, 0x2004, 0x2005, 0x2006, 0x2007, 0x2008,
   0x2009, 0x200a, 0x2028, 0x2029, 0x202f, 0x205f, 0x3000]

/-- Blank characters that are blank in every text. -/
def isPlainBlank (c : Char) : Bool := c = ' ' || ('\t' ≤ c && c ≤ '\r')

/-- Brings a character into the first 128: a digit of any script becomes the digit of that value, a
blank becomes a blank, and anything else a character that no numeral contains. -/
def narrow (c : Char) : Char :=
  if c.toNat < 0x7f then c
  else if wideBlanks.contains c.toNat then ' '
  else
    match decimalZeros.find? fun first ↦ first ≤ c.toNat && c.toNat < first + 10 with
    | some first => Char.ofNat ('0'.toNat + (c.toNat - first))
    | none => '?'

/-- The characters of a numeral: narrowed if the text needs it, and without blanks at the ends. -/
def numeralChars (text : List Char) : List Char :=
  let narrowed := if text.all fun c ↦ c.toNat < 0x80 then text else text.map narrow
  ((narrowed.dropWhile isPlainBlank).reverse.dropWhile isPlainBlank).reverse

/-- Splits a sign off. -/
def splitSign : List Char → Bool × List Char
  | '-' :: rest => (true, rest)
  | '+' :: rest => (false, rest)
  | cs => (false, cs)

/-- Removes underscores, if each stands between two digits. -/
def dropUnderscores : Option Char → List Char → Option (List Char)
  | _, [] => some []
  | before, '_' :: rest =>
    if before.any Char.isDigit && rest.head?.any Char.isDigit then dropUnderscores none rest
    else none
  | _, c :: rest => (dropUnderscores (some c) rest).map (c :: ·)

/-- Why a text is not read as an integer. -/
inductive IntegerFault
  /-- The text is no numeral of an integer. -/
  | malformed
  /-- The numeral has more digits than are read. -/
  | tooManyDigits (count : Nat)
  deriving DecidableEq, Repr

/-- The most digits of an integer that is read. -/
def integerDigits : Nat := 4300

/-- The integer that a text writes. What follows the digits is looked at last, so that a text of too
many digits is called so even if it goes on. -/
def readInt (text : List Char) : Except IntegerFault Int :=
  let isPart := fun (c : Char) ↦ c.isDigit || c = '_'
  let (negative, rest) := splitSign (numeralChars text)
  match dropUnderscores none (rest.takeWhile isPart) with
  | none | some [] => .error .malformed
  | some digits =>
    if integerDigits < digits.length then .error (.tooManyDigits digits.length)
    else if !(rest.dropWhile isPart).isEmpty then .error .malformed
    else
      let n := Decimal.readNat 10 digits
      .ok (if negative then -(n : Int) else n)

/-- The power of ten at the end of a numeral, which is zero if nothing is left. -/
def readPower? : List Char → Option Int
  | [] => some 0
  | c :: rest =>
    if c = 'e' || c = 'E' then
      let (negative, digits) := splitSign rest
      if digits.isEmpty || !digits.all Char.isDigit then none
      else
        let n := Decimal.readNat 10 digits
        some (if negative then -(n : Int) else n)
    else none

/-- The parts of a decimal numeral without sign. At least one digit stands before or behind the
point. -/
def readNumeral? (cs : List Char) : Option Decimal.Numeral := do
  let whole := cs.takeWhile Char.isDigit
  let rest := cs.dropWhile Char.isDigit
  let (fraction, rest) := match rest with
    | '.' :: rest => (rest.takeWhile Char.isDigit, rest.dropWhile Char.isDigit)
    | rest => ([], rest)
  if whole.isEmpty && fraction.isEmpty then none
  else
    let power ← readPower? rest
    some ⟨whole, fraction, power⟩

/-- The float that a text writes. -/
def readFloat? (text : List Char) : Option Float := do
  let cs ← dropUnderscores none (numeralChars text)
  let (negative, rest) := splitSign cs
  let word := String.ofList (rest.map Char.toLower)
  if word = "inf" || word = "infinity" then some (if negative then -1 / 0 else 1 / 0)
  else if word = "nan" then some (0 / 0)
  else
    let numeral ← readNumeral? rest
    some (numeral.toFloat negative)

end DampedLeastSquares.Text
