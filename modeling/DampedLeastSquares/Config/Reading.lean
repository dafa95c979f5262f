import DampedLeastSquares.Config.Basic
import DampedLeastSquares.Text.Numeral
import DampedLeastSquares.Text.Quoted
import DampedLeastSquares.Toml.Parser

/-!
# Reading settings from a document

Seven keys in two tables give the settings, and each missing key gives its default. A value of
another type than the setting is converted if it can be: whole numbers, floats, truth values and
numerals in texts into each other. The conversions and the checks are made in a fixed order, the
first table being complete before the second is looked into, so that of several faults the same
one is always reported.
-/

namespace DampedLeastSquares

open Toml (Value Entries)

/-- Why settings could not be read or saved. -/
inductive ConfigFault
  /-- There is no such file. -/
  | missingFile
  /-- The octets of the file are no text. -/
  | encoding (fault : Text.EncodingFault)
  /-- The text is no document. -/
  | document
  /-- A setting has no text in a document. -/
  | unwritable
  /-- A section is no table but a value of the given type. -/
  | noTable (typeName : String)
  /-- A value of the given type is no whole number. -/
  | notWhole (typeName : String)
  /-- A value of the given type is no number. -/
  | notNumber (typeName : String)
  /-- A text is no numeral of a whole number. -/
  | wholeText (text : List Char)
  /-- A text is a numeral of a whole number with too many digits. -/
  | wholeDigits (count : Nat)
  /-- A text is no numeral. -/
  | numberText (text : List Char)
  /-- A number has no whole part. -/
  | noWholePart (fault : Fault)
  /-- A whole number is too large for a float. -/
  | tooLarge
  /-- A text in place of the first damping is not the word for the automatic choice. -/
  | lambdaText (text : List Char)
  /-- A setting is not allowed. -/
  | setting (fault : SettingFault)

namespace ConfigFault

/-- The sort of mistake behind a fault. -/
def kind : ConfigFault → FaultKind
  | missingFile => .missingFile
  | encoding _ => .encoding
  | document => .document
  | unwritable => .serialization
  | noTable _ => .attribute
  | notWhole _ | notNumber _ => .type
  | wholeText _ | wholeDigits _ | numberText _ | lambdaText _ => .value
  | setting fault => fault.kind
  | noWholePart fault => fault.kind
  | tooLarge => .overflow

/-- The wording of a fault. Only the first 200 characters of a text that is no whole number are
shown. -/
def message : ConfigFault → String
  | missingFile | document | unwritable => ""
  | encoding fault => fault.message
  | noTable typeName => "'" ++ typeName ++ "' object has no attribute 'get'"
  | notWhole typeName =>
    "int() argument must be a string, a bytes-like object or a real number, not '" ++ typeName ++
      "'"
  | notNumber typeName =>
    "float() argument must be a string or a real number, not '" ++ typeName ++ "'"
  | wholeText text =>
    "invalid literal for int() with base 10: " ++ String.ofList ((Text.quoted text).take 200)
  | wholeDigits count =>
    s!"Exceeds the limit ({Text.integerDigits} digits) for integer string conversion: value has " ++
      s!"{count} digits; use sys.set_int_max_str_digits() to increase the limit"
  | numberText text => "could not convert string to float: " ++ String.ofList (Text.quoted text)
  | noWholePart fault => fault.message
  | tooLarge => "int too large to convert to float"
  | lambdaText text =>
    "lambda must be a number or 'auto', got " ++ String.ofList (Text.quoted text)
  | setting fault => fault.message

end ConfigFault

namespace Config

/-- The name of the type of a value in messages. -/
def typeName : Value → String
  | .text _ => "str"
  | .integer _ => "int"
  | .float _ => "float"
  | .boolean _ => "bool"
  | .date => "datetime.date"
  | .time => "datetime.time"
  | .dateTime => "datetime.datetime"
  | .array _ => "list"
  | .table _ => "dict"

/-- The whole number that a value stands for. -/
def toWhole : Value → Except ConfigFault Int
  | .integer n => .ok n
  | .boolean b => .ok (if b then 1 else 0)
  | .float x => (Number.real x).truncate.mapError .noWholePart
  | .text chars =>
    match Text.readInt chars with
    | .ok n => .ok n
    | .error .malformed => .error (.wholeText chars)
    | .error (.tooManyDigits count) => .error (.wholeDigits count)
  | v => .error (.notWhole (typeName v))

/-- The float that a value stands for. -/
def toReal : Value → Except ConfigFault Float
  | .integer n =>
    let x := Decimal.ofInt n
    if x.isFinite then .ok x else .error .tooLarge
  | .boolean b => .ok (if b then 1 else 0)
  | .float x => .ok x
  | .text chars =>
    match Text.readFloat? chars with
    | some x => .ok x
    | none => .error (.numberText chars)
  | v => .error (.notNumber (typeName v))

/-- The truth value that a value stands for: false for zero and for what is empty. -/
def toTruth : Value → Bool
  | .integer n => n != 0
  | .boolean b => b
  | .float x => x != 0
  | .text chars => !chars.isEmpty
  | .array items => !items.isEmpty
  | .table entries => !entries.isEmpty
  | .date | .time | .dateTime => true

/-- The word that asks for the automatic choice of the first damping, in any case. Outside ASCII no
letter has one of its letters as lower case. -/
def autoWord : List Char := ['a', 'u', 't', 'o']

/-- The first damping, where nothing stands for the automatic choice. -/
def toLambda : Value → Except ConfigFault (Option Number)
  | .text chars =>
    if chars.map Char.toLower = autoWord then .ok none else .error (.lambdaText chars)
  | v => (toReal v).map fun x ↦ some (.real x)

/-- The entries of a section, which is empty if it is missing. -/
def section? (entries : Entries) (name : String) : Except ConfigFault Entries :=
  match entries.get? name with
  | none => .ok []
  | some (.table entries) => .ok entries
  | some v => .error (.noTable (typeName v))

/-- The value of a key after conversion, or the default if the key is missing. -/
def read {α : Type} (entries : Entries) (key : String) (convert : Value → Except ConfigFault α)
    (default : α) : Except ConfigFault α :=
  match entries.get? key with
  | none => .ok default
  | some v => convert v

/-- The settings of a document. -/
def ofEntries (document : Entries) : Except ConfigFault Config := do
  let solver ← section? document "solver"
  let maxCount ← read solver "max_iterations" toWhole 100
  let epsilon ← read solver "epsilon" toReal 1e-6
  let stopping ← (Stopping.make (some (.int maxCount)) (some (.real epsilon))).mapError .setting
  let lambda ← read solver "lambda" toLambda none
  let eta ← read solver "eta" toReal 10
  let verbose ← read solver "verbose" (fun v ↦ .ok (toTruth v)) false
  let damping ← (Damping.make stopping lambda (some (.real eta)) (some (.truth verbose))).mapError
    .setting
  let jacobian ← section? document "jacobian"
  let threads ← read jacobian "threads" toWhole 0
  let diffStep ← read jacobian "diff_step" toReal 1e-3
  let workers := if threads = 0 then none else some (Number.int threads)
  let differencing ← (Differencing.make (some (.real diffStep)) workers).mapError .setting
  return ⟨damping, differencing⟩

/-- The settings of a document in octets. -/
def ofOctets (octets : List UInt8) : Except ConfigFault Config :=
  match Text.decodeUtf8 octets with
  | .error fault => .error (.encoding fault)
  | .ok text =>
    match Toml.parse? (Text.unifyNewlines text) with
    | none => .error .document
    | some document => ofEntries document

end Config

end DampedLeastSquares
