import DampedLeastSquares.Text.Printable
import DampedLeastSquares.Text.Utf8

/-!
# Quoted text

A text inside a message is put between single quotes, or between double quotes if it contains a
single quote and no double one. The quote itself, the backslash and every character that is not
printable are written as escapes, so that the quoted text is one line and shows where it ends.
-/

namespace DampedLeastSquares.Text

/-- The quote that a text is put between. -/
def quoteFor (text : List Char) : Char :=
  if text.contains '\'' && !text.contains '"' then '"' else '\''

/-- One character between the given quotes. -/
def escapeChar (quote c : Char) : List Char :=
  if c = quote ∨ c = '\\' then ['\\', c]
  else if c = '\n' then ['\\', 'n']
  else if c = '\r' then ['\\', 'r']
  else if c = '\t' then ['\\', 't']
  else if isPrintable c then [c]
  else if c.toNat < 0x100 then '\\' :: 'x' :: (hexText 2 c.toNat).toList
  else if c.toNat < 0x10000 then '\\' :: 'u' :: (hexText 4 c.toNat).toList
  else '\\' :: 'U' :: (hexText 8 c.toNat).toList

/-- The text between quotes. -/
def quoted (text : List Char) : List Char :=
  let quote := quoteFor text
  quote :: text.flatMap (escapeChar quote) ++ [quote]

end DampedLeastSquares.Text
