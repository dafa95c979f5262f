import DampedLeastSquares.Toml.Document
import DampedLeastSquares.Toml.Quoted

/-!
# Reading a TOML document

A document is a sequence of lines, each a statement, a comment, or nothing, except that a text, a
list or a table between braces may run over several lines. Reading goes along the characters: every
reader takes what it is for from the front and returns the rest. Values nest only so deep, and the
reader of values recurs on how much deeper they may still go. Readers of sequences take as fuel the
length of the input, of which each step uses up at least one character.

Readers say only whether they succeed. Lines are separated by single line feeds.
-/

namespace DampedLeastSquares.Toml

/-- Skips blanks. -/
def skipBlanks (cs : List Char) : List Char := cs.dropWhile fun c ↦ c = ' ' || c = '\t'

/-- Skips a comment, if there is one, up to the end of the line. -/
def skipComment? : List Char → Option (List Char)
  | '#' :: rest =>
    if (rest.takeWhile (· != '\n')).any isForbidden then none
    else some (rest.dropWhile (· != '\n'))
  | cs => some cs

/-- Skips what may stand behind a statement: blanks, a comment, and the end of the line. -/
def endLine? (cs : List Char) : Option (List Char) := do
  match ← skipComment? (skipBlanks cs) with
  | [] => some []
  | '\n' :: rest => some rest
  | _ => none

/-- Skips blanks, comments and ends of lines, at most `fuel` lines. -/
def skipLines? : Nat → List Char → Option (List Char)
  | 0, cs => some cs
  | fuel + 1, cs => do
    match ← skipComment? (skipBlanks cs) with
    | '\n' :: rest => skipLines? fuel rest
    | rest => some rest

/-- Skips blanks, comments and ends of lines, as many as there are. -/
def skipAllLines? (cs : List Char) : Option (List Char) := skipLines? (cs.length + 1) cs

/-- Characters of a key without quotes. -/
def isBareKeyChar (c : Char) : Bool :=
  c.isDigit || ('a' ≤ c && c ≤ 'z') || ('A' ≤ c && c ≤ 'Z') || c = '_' || c = '-'

/-- A key without dots, and the rest. -/
def simpleKey? (cs : List Char) : Option (List Char × List Char) :=
  match cs with
  | '"' :: _ | '\'' :: _ => quotedKey? cs
  | _ =>
    let key := cs.takeWhile isBareKeyChar
    if key.isEmpty then none else some (key, cs.dropWhile isBareKeyChar)

/-- How deep values may nest, and how many keys may be joined. -/
def nestingLimit : Nat := 80

/-- At most so many keys joined by dots, with blanks around them skipped, and the rest. -/
def keys? : Nat → List Char → Option (List (List Char) × List Char)
  | 0, _ => none
  | limit + 1, cs => do
    let (key, rest) ← simpleKey? (skipBlanks cs)
    match skipBlanks rest with
    | '.' :: rest => do
      let (keys, rest) ← keys? limit rest
      some (key :: keys, rest)
    | rest => some ([key], rest)

/-- A path of keys at the start of the input, and the rest. -/
def path? (cs : List Char) : Option (List (List Char) × List Char) := keys? nestingLimit cs

/-- Items up to a closing mark, at most `fuel` of them, and the rest. Lines may end between them, a
comma separates them, and the last one may be followed by a comma. -/
def items? {α : Type} (close : Char) (item? : List Char → Option (α × List Char)) :
    Nat → List Char → Option (List α × List Char)
  | 0, _ => none
  | fuel + 1, cs => do
    match ← skipAllLines? cs with
    | [] => none
    | c :: rest =>
      if c = close then some ([], rest)
      else do
        let (item, rest) ← item? (c :: rest)
        match ← skipAllLines? rest with
        | [] => none
        | c :: rest =>
          if c = close then some ([item], rest)
          else if c = ',' then do
            let (items, rest) ← items? close item? fuel rest
            some (item :: items, rest)
          else none

/-- A path of keys with its value at the start of the input, and the rest. The value is read by
`value?`, and `skip?` skips what may stand on either side of the sign between them. -/
def definition? (skip? : List Char → Option (List Char))
    (value? : List Char → Option (Value × List Char)) (cs : List Char) :
    Option ((List (List Char) × Value) × List Char) := do
  let (path, rest) ← path? cs
  match ← skip? rest with
  | '=' :: rest => do
    let (value, rest) ← value? (← skip? rest)
    some ((path, value), rest)
  | _ => none

/-- A value at the start of the input that nests at most so deep, and the rest. -/
def valueWithin? : Nat → List Char → Option (Value × List Char)
  | depth, '[' :: rest =>
    match depth with
    | 0 => none
    | depth + 1 => do
      let (items, rest) ← items? ']' (valueWithin? depth) (rest.length + 1) rest
      some (.array items, rest)
  | depth, '\x7b' :: rest =>
    match depth with
    | 0 => none
    | depth + 1 => do
      let (definitions, rest) ←
        items? '\x7d' (definition? skipAllLines? (valueWithin? depth)) (rest.length + 1) rest
      let table ← inlineTable? definitions
      some (table, rest)
  | _, cs =>
    match quoted? cs with
    | some (text, rest) => some (.text text, rest)
    | none =>
      let (run, rest) := cutLiteral cs
      (literal? run).map fun v ↦ (v, rest)

/-- A value at the start of the input, and the rest. -/
def value? (cs : List Char) : Option (Value × List Char) := valueWithin? nestingLimit cs

/-- A statement at the start of the input, and the rest. -/
def statement? (cs : List Char) : Option (Statement × List Char) :=
  match cs with
  | '[' :: '[' :: rest => do
    let (path, rest) ← path? rest
    match rest with
    | ']' :: ']' :: rest => some (.listed path, rest)
    | _ => none
  | '[' :: rest => do
    let (path, rest) ← path? rest
    match rest with
    | ']' :: rest => some (.table path, rest)
    | _ => none
  | _ => do
    let ((path, value), rest) ← definition? (fun cs ↦ some (skipBlanks cs)) value? cs
    some (.define path value, rest)

/-- Reads statements to the end of the input, at most `fuel` of them. -/
def statements? : Nat → Draft → List Char → Option Draft
  | 0, _, _ => none
  | fuel + 1, draft, cs => do
    match ← skipAllLines? cs with
    | [] => some draft
    | start => do
      let (statement, rest) ← statement? start
      let draft ← draft.add statement
      let rest ← endLine? rest
      statements? fuel draft rest

/-- Drops the mark that may open a text to show its encoding. -/
def dropMark : List Char → List Char
  | '\uFEFF' :: rest => rest
  | cs => cs

/-- The document that a text writes. -/
def parse? (text : List Char) : Option Entries :=
  let cs := dropMark text
  (statements? (cs.length + 1) {} cs).map Draft.entries

end DampedLeastSquares.Toml
