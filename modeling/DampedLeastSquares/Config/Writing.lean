import DampedLeastSquares.Config.Basic

/-!
# Writing settings as a document

The file has one section per table, one line per setting, in a fixed order, and an empty line
between the sections. Whole numbers stay whole; floats are written positionally with the fewest
digits that read back; the automatic choices are written as a word and as zero.

A document holds whole numbers of at most 128 bits with a sign. Settings with a greater one have no
text.
-/

namespace DampedLeastSquares

namespace Config

/-- The text of a number in a document. -/
def numberText : Number → String
  | .int n => toString n
  | .real x => Decimal.plain x
  | .truth b => if b then "true" else "false"

/-- The text of the first damping in a document. -/
def lambdaText : Option Number → String
  | none => "\"auto\""
  | some lambda => numberText lambda

/-- The text of the report of progress in a document, which has no empty value but can say so in a
text. -/
def verboseText : Option Number → String
  | none => "\"null\""
  | some verbose => numberText verbose

/-- The text of the number of workers in a document. -/
def threadsText : Option Number → String
  | none => "0"
  | some n => if n.isTrue then numberText n else "0"

/-- A line that gives a key its value. -/
def line (key value : String) : String := key ++ " = " ++ value ++ "\n"

/-- Whether a document can hold a number. -/
def isWritable : Number → Bool
  | .int n => -0x80000000000000000000000000000000 ≤ n && n < 0x80000000000000000000000000000000
  | .real _ | .truth _ => true

/-- The numbers of the settings. -/
def numbers (c : Config) : List Number :=
  [c.damping.stopping.maxCount, c.damping.stopping.epsilon] ++ c.damping.initialLambda.toList ++
    [c.damping.eta] ++ c.damping.verbose.toList ++ [c.differencing.diffStep] ++
    c.differencing.threads.toList

/-- The text of the settings. -/
def render (c : Config) : String :=
  "[solver]\n" ++
  line "max_iterations" (numberText c.damping.stopping.maxCount) ++
  line "epsilon" (numberText c.damping.stopping.epsilon) ++
  line "lambda" (lambdaText c.damping.initialLambda) ++
  line "eta" (numberText c.damping.eta) ++
  line "verbose" (verboseText c.damping.verbose) ++
  "\n[jacobian]\n" ++
  line "diff_step" (numberText c.differencing.diffStep) ++
  line "threads" (threadsText c.differencing.threads)

/-- The text of the settings, if a document can hold them all. -/
def render? (c : Config) : Option String :=
  if c.numbers.all isWritable then some c.render else none

end Config

end DampedLeastSquares
