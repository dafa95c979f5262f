import DampedLeastSquares.Decimal.VectorText
import DampedLeastSquares.Solve.Trace

/-!
# The wording of records

Progress is reported as a table with columns of fixed width: a count of accepted steps, then error,
damping and the two ratios with six significant digits each.
-/

namespace DampedLeastSquares.Record

open Decimal (padLeft general)

/-- A number in a column of the given width. -/
def cell (width : Nat) (x : Float) : String := padLeft width (general 6 x)

/-- A ratio, which is infinite if it is missing. -/
def ratioCell (width : Nat) : Option Float → String
  | none => padLeft width "inf"
  | some x => cell width x

/-- The wording of a record. -/
def message : Record Float → String
  | noGuess => "vectorisation of the initial guess failed"
  | nothingActive => "no active variables, nothing to optimise"
  | caught _ => "exception caught in optimisation loop"
  | refused point => "error setting solution, x_best = " ++ Decimal.vectorText point
  | rule => String.ofList (List.replicate 80 '=')
  | heading =>
    padLeft 6 "Update" ++ padLeft 12 "RMSE" ++ padLeft 16 "lambda" ++
      padLeft 16 "Rel. Step Size" ++ padLeft 16 "Rel. Error Drop"
  | start error damping =>
    padLeft 6 "0" ++ cell 12 error ++
      padLeft 16 (match damping with | none => "auto" | some l => general 6 l)
  | row updates error damping stepRatio gainRatio =>
    padLeft 6 (toString updates) ++ cell 12 error ++ cell 16 damping ++ ratioCell 16 stepRatio ++
      cell 16 gainRatio
  | unresponsive var => s!"change of parameter {var} not responsive"
  | illPosed => "problem ill-posed"
  | differentiated conditions columns workers =>
    s!"Jacobian ({conditions}, {columns}) computed on {workers} threads"
  | noVector => "vectorisation failed"
  | adjustmentFailed status => "bundle adjustment failed: " ++ status.word
  | adjusted before after updates =>
    "bundle adjustment: rmse " ++ general 4 before ++ " -> " ++ general 4 after ++
      s!" after {updates} updates"

end DampedLeastSquares.Record
