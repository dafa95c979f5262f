import DampedLeastSquares.Toml.Value

/-!
# Building a document

Statements of a document define values and tables piece by piece, and each piece may be defined
once. To tell a repetition from an addition, a table under construction remembers how it came to
be: named by a header, passed over by a longer header, or opened by a key with dots. A table of the
first kind cannot be extended by a key with dots. One of the second kind can, and belongs to the
third kind from then on; only until then can it be named later by a header of its own.

In a list of tables every path leads through the last one. It has been named by a header, so a key
with dots may lead further through it, but cannot add to it.
-/

namespace DampedLeastSquares.Toml

/-- How a table under construction came to be. -/
inductive Origin
  /-- A header names it. -/
  | header
  /-- A header names a table inside it. -/
  | passed
  /-- A key with dots leads through it. -/
  | dotted
  deriving DecidableEq

/-- A piece of a document under construction. -/
inductive Node
  /-- A value, which is complete. -/
  | value (v : Value)
  /-- A table that may grow. -/
  | table (origin : Origin) (entries : List (List Char × Node))
  /-- Tables that one header names again and again, the last one first. -/
  | tables (last : List (List Char × Node)) (earlier : List (List (List Char × Node)))

/-- The entries of a table under construction. -/
abbrev Nodes := List (List Char × Node)

namespace Nodes

/-- Puts a node under a key, in place of the one that is there or behind all others. -/
def put (key : List Char) (node : Node) : Nodes → Nodes
  | [] => [(key, node)]
  | (k, n) :: rest => if k = key then (k, node) :: rest else (k, n) :: put key node rest

/-- Defines a value under a path of keys. Tables on the way are opened, unless they are there and no
header has named them. -/
def define (nodes : Nodes) : List (List Char) → Value → Option Nodes
  | [], _ => none
  | [key], v =>
    match nodes.lookup key with
    | none => some (nodes.put key (.value v))
    | some _ => none
  | key :: next :: path, v =>
    match nodes.lookup key with
    | none => do
      let inner ← define [] (next :: path) v
      some (nodes.put key (.table .dotted inner))
    | some (.table .header _) => none
    | some (.table _ inner) => do
      let inner ← define inner (next :: path) v
      some (nodes.put key (.table .dotted inner))
    | some (.tables last earlier) =>
      if path.isEmpty then none
      else do
        let last ← define last (next :: path) v
        some (nodes.put key (.tables last earlier))
    | some (.value _) => none

/-- Changes the table at the end of a path by `change`, passing over the tables on the way. -/
def within (change : Nodes → Option Nodes) (nodes : Nodes) : List (List Char) → Option Nodes
  | [] => change nodes
  | key :: path =>
    match nodes.lookup key with
    | none => do
      let inner ← within change [] path
      some (nodes.put key (.table .passed inner))
    | some (.table origin inner) => do
      let inner ← within change inner path
      some (nodes.put key (.table origin inner))
    | some (.tables last earlier) => do
      let last ← within change last path
      some (nodes.put key (.tables last earlier))
    | some (.value _) => none

/-- Names a table by a header. -/
def openTable (key : List Char) (nodes : Nodes) : Option Nodes :=
  match nodes.lookup key with
  | none => some (nodes.put key (.table .header []))
  | some (.table .passed inner) => some (nodes.put key (.table .header inner))
  | some _ => none

/-- Names one more table of a list of tables by a header. -/
def openListed (key : List Char) (nodes : Nodes) : Option Nodes :=
  match nodes.lookup key with
  | none => some (nodes.put key (.tables [] []))
  | some (.tables last earlier) => some (nodes.put key (.tables [] (last :: earlier)))
  | some _ => none

end Nodes

mutual

/-- The value that a node has become. -/
def Node.toValue : Node → Value
  | .value v => v
  | .table _ entries => .table (entriesToValues entries)
  | .tables last earlier =>
    .array ((.table (entriesToValues last) :: listedToValues earlier).reverse)

/-- The entries that nodes have become. -/
def entriesToValues : List (List Char × Node) → Entries
  | [] => []
  | (key, node) :: rest => (key, node.toValue) :: entriesToValues rest

/-- The tables that lists of nodes have become. -/
def listedToValues : List (List (List Char × Node)) → List Value
  | [] => []
  | entries :: rest => .table (entriesToValues entries) :: listedToValues rest

end

/-- A statement of a document. -/
inductive Statement
  /-- A value under a path of keys. -/
  | define (path : List (List Char)) (value : Value)
  /-- A header that names a table. -/
  | table (path : List (List Char))
  /-- A header that names one more table of a list. -/
  | listed (path : List (List Char))

/-- A document under construction, and the path of the table that the last header named. -/
structure Draft where
  /-- The document so far. -/
  nodes : Nodes := []
  /-- The table that values go into. -/
  place : List (List Char) := []

namespace Draft

/-- Adds a statement, unless it repeats what is there. -/
def add (d : Draft) : Statement → Option Draft
  | .define path value => do
    let nodes ← d.nodes.within (fun nodes ↦ nodes.define path value) d.place
    some { d with nodes }
  | .table path => do
    let key ← path.getLast?
    let nodes ← d.nodes.within (Nodes.openTable key) path.dropLast
    some ⟨nodes, path⟩
  | .listed path => do
    let key ← path.getLast?
    let nodes ← d.nodes.within (Nodes.openListed key) path.dropLast
    some ⟨nodes, path⟩

/-- The finished document. -/
def entries (d : Draft) : Entries := entriesToValues d.nodes

end Draft

/-- The table of definitions between braces. -/
def inlineTable? (definitions : List (List (List Char) × Value)) : Option Value := do
  let nodes ← definitions.foldlM (fun (nodes : Nodes) (path, value) ↦ nodes.define path value) []
  some (.table (entriesToValues nodes))

end DampedLeastSquares.Toml
