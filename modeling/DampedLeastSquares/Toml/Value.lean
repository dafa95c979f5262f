/-!
# Values of a TOML document

A document is a table of values under keys. Dates and times are kept apart by kind only, since no
setting is a date: what matters of them is that they are no numbers.
-/

namespace DampedLeastSquares.Toml

/-- A value. Tables keep their entries in the order of the document. -/
inductive Value
  /-- A text. -/
  | text (chars : List Char)
  /-- A whole number. -/
  | integer (value : Int)
  /-- A float. -/
  | float (value : Float)
  /-- A truth value. -/
  | boolean (value : Bool)
  /-- A day without time. -/
  | date
  /-- A time without day. -/
  | time
  /-- A day with time. -/
  | dateTime
  /-- A list. -/
  | array (items : List Value)
  /-- A table. -/
  | table (entries : List (List Char × Value))

/-- The entries of a table. -/
abbrev Entries := List (List Char × Value)

/-- The value under a key. -/
def Entries.get? (entries : Entries) (key : String) : Option Value := entries.lookup key.toList

end DampedLeastSquares.Toml
