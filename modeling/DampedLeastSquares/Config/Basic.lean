import DampedLeastSquares.Config.Number

/-!
# Settings of a solve

Three groups of settings: when to stop, how to damp, and how to differentiate. Each group carries
the proof that its values are allowed, so a group that exists is one that has been accepted. The
checks are made in a fixed order and the first that fails gives the fault.

The bound on the number of updates is refused when it is below one, and every other setting is
refused unless it is in its range. The two forms differ on an undefined number, which lies neither
below one nor in any range.

A caller may leave a setting empty. For the first damping, the workers and the report of progress
that means something. Every other setting has to be a number, and that it is none shows when it is
compared.
-/

namespace DampedLeastSquares

/-- A setting that is not allowed. -/
inductive SettingFault
  /-- The bound on updates has to be at least one. -/
  | maxCount (given : Number)
  /-- The ratio at which progress is too small must not be negative. -/
  | epsilon (given : Number)
  /-- Damping has to grow by a factor above one. -/
  | eta (given : Number)
  /-- The first damping must not be negative. -/
  | initialLambda (given : Number)
  /-- The step of a difference quotient has to be positive. -/
  | diffStep (given : Number)
  /-- The number of workers must not be negative. -/
  | threads (given : Number)
  /-- The bound on updates is empty. -/
  | noMaxCount
  /-- The ratio at which progress is too small is empty. -/
  | noEpsilon
  /-- The factor by which damping grows is empty. -/
  | noEta
  /-- The step of a difference quotient is empty. -/
  | noDiffStep

namespace SettingFault

/-- The sort of mistake behind a refusal. -/
def kind : SettingFault → FaultKind
  | maxCount _ | epsilon _ | eta _ | initialLambda _ | diffStep _ | threads _ => .value
  | noMaxCount | noEpsilon | noEta | noDiffStep => .type

/-- The wording where nothing is compared with a number. -/
def incomparable (relation typeName : String) : String :=
  "'" ++ relation ++ "' not supported between instances of 'NoneType' and '" ++ typeName ++ "'"

/-- The wording of a refusal. -/
def message : SettingFault → String
  | maxCount n => "max_count must be positive, got " ++ n.text
  | epsilon n => "epsilon must be non-negative, got " ++ n.text
  | eta n => "eta must be greater than 1, got " ++ n.text
  | initialLambda n => "initial_lambda must be non-negative or None, got " ++ n.text
  | diffStep n => "diff_step must be positive, got " ++ n.text
  | threads n => "threads must be non-negative, got " ++ n.text
  | noMaxCount => incomparable "<" "int"
  | noEpsilon => incomparable ">=" "int"
  | noEta => incomparable ">" "float"
  | noDiffStep => incomparable ">" "int"

end SettingFault

/-- When to stop. -/
structure Stopping where
  /-- The most accepted updates, and the most trials between two Jacobians. -/
  maxCount : Number := .int 100
  /-- Below this ratio of improvements, or of step to position, progress is too small. -/
  epsilon : Number := .real 1e-6
  /-- The bound is not below one. -/
  maxCount_ok : maxCount.isBelow 1 = false := by decide
  /-- The ratio is zero or more. -/
  epsilon_ok : epsilon.isAtLeast 0 = true := by decide

/-- How to damp, and when to stop. -/
structure Damping where
  /-- When to stop. -/
  stopping : Stopping := {}
  /-- The first damping. Without it, the mean of the diagonal of the first system is taken. -/
  initialLambda : Option Number := none
  /-- The factor by which damping grows and shrinks. -/
  eta : Number := .real 10
  /-- Whether progress is reported, as a number that is zero if not. If it is empty, progress is not
  reported either. -/
  verbose : Option Number := some (.truth false)
  /-- The factor is above one. -/
  eta_ok : eta.isAbove 1 = true := by decide
  /-- The first damping, if given, is zero or more. -/
  initialLambda_ok : initialLambda.all (·.isAtLeast 0) = true := by decide

/-- How to differentiate. -/
structure Differencing where
  /-- The step of the difference quotient. -/
  diffStep : Number := .real 1e-3
  /-- The number of workers. Without it, or if it is zero, the host decides. -/
  threads : Option Number := none
  /-- The step is positive. -/
  diffStep_ok : diffStep.isAbove 0 = true := by decide
  /-- The number of workers, if given, is not negative. -/
  threads_ok : threads.all (fun n ↦ !n.isBelow 0) = true := by decide

/-- All settings together. -/
structure Config where
  /-- How to damp, and when to stop. -/
  damping : Damping := {}
  /-- How to differentiate. -/
  differencing : Differencing := {}

/-- The settings for stopping, if they are allowed. -/
def Stopping.make : Option Number → Option Number → Except SettingFault Stopping
  | none, _ => .error .noMaxCount
  | some maxCount, epsilon =>
    if hm : maxCount.isBelow 1 = false then
      match epsilon with
      | none => .error .noEpsilon
      | some epsilon =>
        if he : epsilon.isAtLeast 0 = true then .ok ⟨maxCount, epsilon, hm, he⟩
        else .error (.epsilon epsilon)
    else .error (.maxCount maxCount)

/-- The settings for damping, if they are allowed. -/
def Damping.make (stopping : Stopping) (initialLambda : Option Number) :
    Option Number → Option Number → Except SettingFault Damping
  | none, _ => .error .noEta
  | some eta, verbose =>
    if he : eta.isAbove 1 = true then
      match initialLambda with
      | none => .ok ⟨stopping, none, eta, verbose, he, rfl⟩
      | some lambda =>
        if hl : (some lambda).all (·.isAtLeast 0) = true then
          .ok ⟨stopping, some lambda, eta, verbose, he, hl⟩
        else .error (.initialLambda lambda)
    else .error (.eta eta)

/-- The settings for differencing, if they are allowed. -/
def Differencing.make : Option Number → Option Number → Except SettingFault Differencing
  | none, _ => .error .noDiffStep
  | some diffStep, threads =>
    if hd : diffStep.isAbove 0 = true then
      match threads with
      | none => .ok ⟨diffStep, none, hd, rfl⟩
      | some n =>
        if hn : (some n).all (fun n ↦ !n.isBelow 0) = true then .ok ⟨diffStep, some n, hd, hn⟩
        else .error (.threads n)
    else .error (.diffStep diffStep)

namespace Config

/-- Whether two optional numbers are both absent or have the same value. -/
def sameOptional : Option Number → Option Number → Bool
  | none, none => true
  | some a, some b => a.sameValue b
  | _, _ => false

/-- Whether two configurations hold the same values, however these are written. -/
def sameValues (a b : Config) : Bool :=
  a.damping.stopping.maxCount.sameValue b.damping.stopping.maxCount &&
  a.damping.stopping.epsilon.sameValue b.damping.stopping.epsilon &&
  sameOptional a.damping.initialLambda b.damping.initialLambda &&
  a.damping.eta.sameValue b.damping.eta &&
  sameOptional a.damping.verbose b.damping.verbose &&
  a.differencing.diffStep.sameValue b.differencing.diffStep &&
  sameOptional a.differencing.threads b.differencing.threads

end Config

end DampedLeastSquares
