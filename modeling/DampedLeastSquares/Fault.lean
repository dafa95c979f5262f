import DampedLeastSquares.Word

/-!
# Causes of failure

A computation that cannot go on says why as a value. The wording is in one place, `Fault.message`,
and so is the sort of mistake a fault belongs to, `Fault.kind`. Everything else in the library
speaks of causes.
-/

namespace DampedLeastSquares

/-- The sorts of mistake that callers tell apart. -/
inductive FaultKind
  /-- A value that is not allowed. -/
  | value
  /-- A position that does not exist. -/
  | index
  /-- A key that is not in a map. -/
  | key
  /-- A value of a type that cannot be used. -/
  | type
  /-- A member that values of this type do not have. -/
  | attribute
  /-- A number that is too large for its destination. -/
  | overflow
  /-- A broken promise of the caller. -/
  | assertion
  /-- A failure that a model reports about itself. -/
  | runtime
  /-- An input that projective geometry has no meaning for. -/
  | geometry
  /-- Octets that are no text. -/
  | encoding
  /-- A text that is no document. -/
  | document
  /-- A value that no document can hold. -/
  | serialization
  /-- A file that is not there. -/
  | missingFile
  deriving DecidableEq, Repr

/-- The text of a shape: extents between parentheses, with a comma behind a lone one. -/
def shapeText (separator : String) : List Nat → String
  | [n] => "(" ++ toString n ++ ",)"
  | shape => "(" ++ separator.intercalate (shape.map toString) ++ ")"

/-- What can go wrong while residuals are evaluated, differentiated and minimised. -/
inductive Fault
  /-- The residual function reports a failure of its own. -/
  | raised (kind : FaultKind) (text : String)
  /-- An axis of the given extent has no such position. -/
  | indexOutOfBounds (index : Int) (axis size : Nat)
  /-- An index is too large for a word with a sign. -/
  | indexTooWide
  /-- An index is too large for a word of any kind, so that it does not even count as one. -/
  | noIndex
  /-- More indices are given than there are axes. -/
  | tooManyIndices (rank given : Nat)
  /-- A Jacobian needs at least one worker, and not as many as the given number. -/
  | noWorkers (given : String)
  /-- A Jacobian needs workers, and nothing says how many. -/
  | workersMissing
  /-- Workers are counted in whole numbers. -/
  | fractionalWorkers
  /-- The residual at a perturbed point has another shape than at the point itself. -/
  | shapeChanged (var : Int) (actual expected : List Nat)
  /-- A column and its mask have lengths that do not fit together. -/
  | maskMismatch (mask : List Nat) (column : Nat)
  /-- Values of one shape do not fill a place of another. -/
  | cannotFill (source target : List Nat)
  /-- The residual has another number of conditions than the problem. -/
  | wrongConditions (actual : Nat) (expected : Int)
  /-- A sparsity pattern has another shape than the Jacobian. -/
  | patternShape (actual : List Nat) (conditions dimension : Int)
  /-- Rows of different shapes make no array. Only the given axes are common to them. -/
  | unevenRows (shared : List Nat)
  /-- An array is nested too deep. -/
  | tooManyAxes
  /-- A vector has another size than announced. -/
  | sizeMismatch (expected : Int) (actual : Nat)
  /-- Neither the values of a vector nor its size are known. -/
  | sizeMissing
  /-- An update has more entries than the point it is added to. -/
  | updateTooLong
  /-- An undefined number has no integer part. -/
  | undefinedIndex
  /-- An infinite number has no integer part. -/
  | infiniteIndex
  /-- A whole number is too large to be read as a scalar. -/
  | wholeTooLarge
  /-- A whole number is too large for the words in which it would be looked at. -/
  | wholeTooWide
  /-- There is no word for a number in the given format. -/
  | beyondWords (number : Int) (format : WordFormat)
  /-- A camera is named that is not in the map. -/
  | unknownCamera (label : Int)
  /-- An entry of a sparsity pattern lies outside its columns. -/
  | columnOutOfBounds (column : Int)
  /-- Index lists of different lengths are used side by side. -/
  | indexListMismatch (first second : Nat)
  /-- Vectors of different rank are joined. -/
  | rankMismatch (first second : Nat)
  /-- Entries do not divide into rows of the given shape. -/
  | cannotReshape (size : Nat) (shape : List Nat)
  /-- A mask selects from an axis of another extent. -/
  | maskLength (size mask : Nat)
  /-- A rotation, camera matrix or distortion has a form without meaning. -/
  | malformedGeometry
  /-- An entry of an empty history is asked for. -/
  | emptyHistory
  deriving DecidableEq, Repr

namespace Fault

/-- The sort of mistake behind a fault. -/
def kind : Fault → FaultKind
  | raised kind _ => kind
  | indexOutOfBounds .. | noIndex | tooManyIndices .. | columnOutOfBounds .. | maskLength ..
  | indexListMismatch .. | emptyHistory => .index
  | noWorkers .. | shapeChanged .. | maskMismatch .. | cannotFill .. | wrongConditions ..
  | patternShape .. | unevenRows .. | tooManyAxes | sizeMismatch .. | sizeMissing | undefinedIndex
  | rankMismatch .. | cannotReshape .. => .value
  | infiniteIndex | wholeTooLarge | indexTooWide | beyondWords .. => .overflow
  | workersMissing | fractionalWorkers | wholeTooWide => .type
  | updateTooLong => .assertion
  | unknownCamera .. => .key
  | malformedGeometry => .geometry

/-- The wording of a fault. -/
def message : Fault → String
  | raised _ text => text
  | indexOutOfBounds index axis size =>
    s!"index {index} is out of bounds for axis {axis} with size {size}"
  | indexTooWide => "Python int too large to convert to C long"
  | noIndex =>
    "only integers, slices (`:`), ellipsis (`...`), numpy.newaxis (`None`) and integer or " ++
      "boolean arrays are valid indices"
  | tooManyIndices rank given =>
    s!"too many indices for array: array is {rank}-dimensional, but {given} were indexed"
  | noWorkers given => "n_threads must be positive, got " ++ given
  | workersMissing => "'<' not supported between instances of 'NoneType' and 'int'"
  | fractionalWorkers => "'float' object cannot be interpreted as an integer"
  | shapeChanged var actual expected =>
    s!"residual at perturbed variable {var} has shape " ++ shapeText ", " actual ++
      ", expected " ++ shapeText ", " expected
  | maskMismatch mask column =>
    "operands could not be broadcast together with shapes " ++ shapeText "," mask ++ " " ++
      shapeText "," [column] ++ " () "
  | cannotFill source target =>
    "could not broadcast input array from shape " ++ shapeText "," source ++ " into shape " ++
      shapeText "," target
  | wrongConditions actual expected =>
    s!"residual has {actual} conditions, expected {expected}"
  | patternShape actual conditions dimension =>
    "Jacobian pattern shape " ++ shapeText ", " actual ++ s!" != ({conditions}, {dimension})"
  | unevenRows shared =>
    "setting an array element with a sequence. The requested array has an inhomogeneous shape " ++
      s!"after {shared.length} dimensions. The detected shape was " ++ shapeText ", " shared ++
      " + inhomogeneous part."
  | tooManyAxes =>
    "setting an array element with a sequence. The requested array would exceed the maximum " ++
      "number of dimension of 64."
  | sizeMismatch expected actual => s!"expected {expected} values, got {actual}"
  | sizeMissing => "either values or size is required"
  | updateTooLong => ""
  | undefinedIndex => "cannot convert float NaN to integer"
  | infiniteIndex => "cannot convert float infinity to integer"
  | wholeTooLarge => "int too large to convert to float"
  | wholeTooWide =>
    "ufunc 'isfinite' not supported for the input types, and the inputs could not be safely " ++
      "coerced to any supported types according to the casting rule ''safe''"
  | beyondWords number format => s!"Python integer {number} out of bounds for {format.name}"
  | unknownCamera label => toString label
  | columnOutOfBounds column => s!"column index ({column}) out of bounds"
  | indexListMismatch first second =>
    "shape mismatch: indexing arrays could not be broadcast together with shapes " ++
      shapeText "," [first] ++ " " ++ shapeText "," [second]
  | rankMismatch first second =>
    "all the input arrays must have same number of dimensions, but the array at index 0 has " ++
      s!"{first} dimension(s) and the array at index 1 has {second} dimension(s)"
  | cannotReshape size shape =>
    s!"cannot reshape array of size {size} into shape (" ++
      ",".intercalate (shape.map toString) ++ ")"
  | maskLength size mask =>
    "boolean index did not match indexed array along axis 0; size of axis is " ++
      s!"{size} but size of corresponding boolean axis is {mask}"
  | malformedGeometry => ""
  | emptyHistory => "list index out of range"

end Fault

end DampedLeastSquares
