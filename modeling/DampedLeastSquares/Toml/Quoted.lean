import DampedLeastSquares.Decimal.Reading
import DampedLeastSquares.Toml.Literal

/-!
# Texts between quotes

Four forms: double quotes with escapes or single quotes without, on one line or, with the quote
three times, on several. No form contains control characters other than the tab, and the forms on
several lines contain line feeds too; a line feed right behind the opening quotes is dropped. The
closing quotes of these may be preceded by up to two quotes that belong to the text.

The readers take as fuel the length of the input, of which each step uses up at least one
character.
-/

namespace DampedLeastSquares.Toml

/-- Control characters that no text or comment contains. -/
def isForbidden (c : Char) : Bool := (c.toNat < 0x20 && c != '\t') || c.toNat = 0x7f

/-- The character with the given code point, if it is one. -/
def charOfCode? (n : Nat) : Option Char := if n.isValidChar then some (Char.ofNat n) else none

/-- The character of an escape, whose backslash is gone, and the rest. -/
def escape? : List Char → Option (Char × List Char)
  | 'b' :: rest => some ('\x08', rest)
  | 't' :: rest => some ('\t', rest)
  | 'n' :: rest => some ('\n', rest)
  | 'f' :: rest => some ('\x0c', rest)
  | 'r' :: rest => some ('\r', rest)
  | 'e' :: rest => some ('\x1b', rest)
  | '"' :: rest => some ('"', rest)
  | '\\' :: rest => some ('\\', rest)
  | 'x' :: rest => ofHex 2 rest
  | 'u' :: rest => ofHex 4 rest
  | 'U' :: rest => ofHex 8 rest
  | _ => none
where
  /-- The character whose code point the next digits write. -/
  ofHex (count : Nat) (rest : List Char) : Option (Char × List Char) :=
    let digits := rest.take count
    if digits.length = count && digits.all isHexDigit then
      (charOfCode? (Decimal.readNat 16 digits)).map fun c ↦ (c, rest.drop count)
    else none

/-- The text up to a closing double quote. -/
def basicLine : Nat → List Char → Option (List Char × List Char)
  | 0, _ => none
  | _, [] => none
  | fuel + 1, c :: rest =>
    if c = '"' then some ([], rest)
    else if c = '\\' then do
      let (e, rest) ← escape? rest
      let (text, rest) ← basicLine fuel rest
      some (e :: text, rest)
    else if isForbidden c then none
    else do
      let (text, rest) ← basicLine fuel rest
      some (c :: text, rest)

/-- The text up to a closing single quote. -/
def literalLine (cs : List Char) : Option (List Char × List Char) :=
  let text := cs.takeWhile (· != '\'')
  match cs.dropWhile (· != '\'') with
  | _ :: rest => if text.any isForbidden then none else some (text, rest)
  | [] => none

/-- The quotes at the end of a text on several lines: the number that belong to the text, and the
rest behind the closing three. -/
def closingQuotes (quote : Char) (cs : List Char) : Option (Nat × List Char) :=
  let count := (cs.takeWhile (· = quote)).length
  if 3 ≤ count then
    let inner := min (count - 3) 2
    some (inner, cs.drop (inner + 3))
  else none

/-- Whether a blank or a line feed. -/
def isBlankOrNewline (c : Char) : Bool := c = ' ' || c = '\t' || c = '\n'

/-- What follows a backslash at the end of a line, if only blanks stand between: all blanks and line
feeds are skipped. -/
def continuedLine? (cs : List Char) : Option (List Char) :=
  match cs.dropWhile fun c ↦ c = ' ' || c = '\t' with
  | '\n' :: rest => some (rest.dropWhile isBlankOrNewline)
  | _ => none

/-- The text up to three closing double quotes. -/
def basicLines : Nat → List Char → Option (List Char × List Char)
  | 0, _ => none
  | _, [] => none
  | fuel + 1, c :: rest =>
    match closingQuotes '"' (c :: rest) with
    | some (inner, rest) => some (List.replicate inner '"', rest)
    | none =>
      if c = '\\' then
        match continuedLine? rest with
        | some rest => basicLines fuel rest
        | none => do
          let (e, rest) ← escape? rest
          let (text, rest) ← basicLines fuel rest
          some (e :: text, rest)
      else if isForbidden c && c != '\n' then none
      else do
        let (text, rest) ← basicLines fuel rest
        some (c :: text, rest)

/-- The text up to three closing single quotes. -/
def literalLines : Nat → List Char → Option (List Char × List Char)
  | 0, _ => none
  | _, [] => none
  | fuel + 1, c :: rest =>
    match closingQuotes '\'' (c :: rest) with
    | some (inner, rest) => some (List.replicate inner '\'', rest)
    | none =>
      if isForbidden c && c != '\n' then none
      else do
        let (text, rest) ← literalLines fuel rest
        some (c :: text, rest)

/-- Drops a line feed right behind the opening quotes. -/
def dropNewline : List Char → List Char
  | '\n' :: rest => rest
  | cs => cs

/-- A text between quotes at the start of the input, and the rest. -/
def quoted? (cs : List Char) : Option (List Char × List Char) :=
  match cs with
  | '"' :: '"' :: '"' :: rest => basicLines (cs.length + 1) (dropNewline rest)
  | '\'' :: '\'' :: '\'' :: rest => literalLines (cs.length + 1) (dropNewline rest)
  | '"' :: rest => basicLine (cs.length + 1) rest
  | '\'' :: rest => literalLine rest
  | _ => none

/-- A text between quotes on one line at the start of the input, and the rest. -/
def quotedKey? (cs : List Char) : Option (List Char × List Char) :=
  match cs with
  | '"' :: rest => basicLine (cs.length + 1) rest
  | '\'' :: rest => literalLine rest
  | _ => none

end DampedLeastSquares.Toml
