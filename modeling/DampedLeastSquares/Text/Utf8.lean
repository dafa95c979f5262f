/-!
# Strict reading of UTF-8

Octets are read one character at a time. The first octet of a character tells how many octets
follow and which values the first of these may take: this is where overlong forms, surrogates and
numbers beyond the last code point are refused. A fault names the octets of the character up to
the one that cannot continue it.
-/

namespace DampedLeastSquares.Text

/-- Why octets are no text. -/
inductive EncodingReason
  /-- No character starts with this octet. -/
  | start
  /-- A character is not continued as its first octet announces. -/
  | continuation
  /-- The text ends inside a character. -/
  | truncated
  deriving DecidableEq, Repr

/-- Where octets stop being text: the place of the character, its first octet, and how many octets
of it there are. -/
structure EncodingFault where
  /-- The number of octets before the character. -/
  position : Nat
  /-- The first octet of the character. -/
  lead : UInt8
  /-- The number of octets that are refused together. -/
  count : Nat
  /-- What is wrong with them. -/
  reason : EncodingReason
  deriving DecidableEq, Repr

/-- The range of an octet. -/
structure OctetRange where
  /-- The least octet. -/
  low : UInt8
  /-- The greatest octet. -/
  high : UInt8

/-- Whether an octet lies in a range. -/
def OctetRange.contains (r : OctetRange) (b : UInt8) : Bool := r.low ≤ b && b ≤ r.high

/-- The octets that continue a character without further condition. -/
def anyTail : OctetRange := ⟨0x80, 0xbf⟩

/-- What the first octet of a character announces: the bits it contributes, and the ranges of the
octets that have to follow. -/
def announce (b : UInt8) : Option (Nat × List OctetRange) :=
  if b < 0x80 then some (b.toNat, [])
  else if b < 0xc2 then none
  else if b < 0xe0 then some (b.toNat % 32, [anyTail])
  else if b < 0xf0 then
    let first := if b = 0xe0 then ⟨0xa0, 0xbf⟩ else if b = 0xed then ⟨0x80, 0x9f⟩ else anyTail
    some (b.toNat % 16, [first, anyTail])
  else if b < 0xf5 then
    let first := if b = 0xf0 then ⟨0x90, 0xbf⟩ else if b = 0xf4 then ⟨0x80, 0x8f⟩ else anyTail
    some (b.toNat % 8, [first, anyTail, anyTail])
  else none

/-- Reads the octets that have to follow, each adding six bits to `value`. The fault holds the
number of octets that did fit and what ended them. -/
def readTail : List OctetRange → Nat → Nat → List UInt8 →
    Except (Nat × EncodingReason) (Nat × List UInt8)
  | [], _, value, rest => .ok (value, rest)
  | _ :: _, seen, _, [] => .error (seen, .truncated)
  | range :: ranges, seen, value, b :: rest =>
    if range.contains b then readTail ranges (seen + 1) (value * 64 + b.toNat % 64) rest
    else .error (seen, .continuation)

/-- Reads one character, which starts `position` octets into the text. -/
def readChar (position : Nat) (lead : UInt8) (rest : List UInt8) :
    Except EncodingFault (Char × List UInt8) :=
  match announce lead with
  | none => .error ⟨position, lead, 1, .start⟩
  | some (value, ranges) =>
    match readTail ranges 1 value rest with
    | .error (count, reason) => .error ⟨position, lead, count, reason⟩
    | .ok (code, rest) => .ok (Char.ofNat code, rest)

/-- Reads at most `fuel` characters. -/
def decodeFrom : Nat → Nat → List UInt8 → Except EncodingFault (List Char)
  | _, _, [] => .ok []
  | 0, _, _ :: _ => .ok []
  | fuel + 1, position, lead :: rest => do
    let (c, rest') ← readChar position lead rest
    let chars ← decodeFrom fuel (position + 1 + (rest.length - rest'.length)) rest'
    return c :: chars

/-- The text of the octets. A character takes at least one octet, so there are at most as many
characters as octets. -/
def decodeUtf8 (octets : List UInt8) : Except EncodingFault (List Char) :=
  decodeFrom octets.length 0 octets

/-- At least `width` lower-case hexadecimal digits. -/
def hexText (width n : Nat) : String :=
  let digits := Nat.toDigits 16 n
  String.ofList (List.replicate (width - digits.length) '0' ++ digits)

namespace EncodingFault

/-- The words for a reason. -/
def reasonText : EncodingReason → String
  | .start => "invalid start byte"
  | .continuation => "invalid continuation byte"
  | .truncated => "unexpected end of data"

/-- The wording of a fault: one octet is shown, several are named by their places. -/
def message (f : EncodingFault) : String :=
  if f.count = 1 then
    "'utf-8' codec can't decode byte 0x" ++ hexText 2 f.lead.toNat ++
      s!" in position {f.position}: " ++ reasonText f.reason
  else
    s!"'utf-8' codec can't decode bytes in position {f.position}-{f.position + f.count - 1}: " ++
      reasonText f.reason

end EncodingFault

/-- Replaces each carriage return, together with a line feed behind it, by one line feed. -/
def unifyNewlines : List Char → List Char
  | '\r' :: '\n' :: rest => '\n' :: unifyNewlines rest
  | '\r' :: rest => '\n' :: unifyNewlines rest
  | c :: rest => c :: unifyNewlines rest
  | [] => []

end DampedLeastSquares.Text
