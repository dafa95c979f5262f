import DampedLeastSquares.Solve.Iteration

/-!
# What a step can do

Whatever the iteration keeps is kept by each of its steps. A step, though, is a cascade of
computations any of which may fail, and an invariant should not have to climb down that cascade
again. It is taken apart here, once: a step from a state is one of the four moves of `Move`, and a
move says which state it leads to and under which circumstances.

Three of the moves leave the best point and the course alone. The fourth is a trial, and what that
changes is said by `State.after`.
-/

namespace DampedLeastSquares

section

variable {R : Type}

/-- The state that a step has led to, whether or not the iteration goes on from there. -/
def Progress.state : Progress R → State R
  | .running s => s
  | .ended _ s => s

@[simp] theorem Progress.state_running (s : State R) : (Progress.running s).state = s := rfl

@[simp] theorem Progress.state_ended (e : Ending) (s : State R) :
    (Progress.ended e s).state = s := rfl

end

variable {R : Type} [Scalar R]

/-! ## Decisions -/

/-- A decision in full: acceptance is the sign of the reduction, an accepted step shrinks the
damping and a rejected one lets it grow unless that would overflow. -/
theorem decideTrial_eq_ok {eta damping : Amount R} {equations : NormalEquations R} {reduction : R}
    {d : Decision R} (h : decideTrial eta equations damping reduction = .ok d) :
    (0 < reduction ∧ ∃ shrunk, damping.div eta = .ok shrunk ∧ d = ⟨damping, true, false, shrunk⟩) ∨
    (¬0 < reduction ∧ ∃ grown stalled, damping.mul eta = .ok grown ∧
      equations.overflows grown = .ok stalled ∧
      d = ⟨damping, false, stalled, if stalled then damping else grown⟩) := by
  rw [decideTrial] at h
  by_cases hpos : 0 < reduction
  · rw [if_pos hpos] at h
    cases hdiv : damping.div eta with
    | error fault => simp [hdiv, bind, Except.bind] at h
    | ok shrunk =>
      simp only [hdiv, bind, Except.bind, pure, Except.pure, Except.ok.injEq] at h
      exact Or.inl ⟨hpos, shrunk, rfl, h.symm⟩
  · rw [if_neg hpos] at h
    cases hmul : damping.mul eta with
    | error fault => simp [hmul, bind, Except.bind] at h
    | ok grown =>
      cases hover : equations.overflows grown with
      | error fault => simp [hmul, hover, bind, Except.bind] at h
      | ok stalled =>
        simp only [hmul, hover, bind, Except.bind, pure, Except.pure, Except.ok.injEq] at h
        exact Or.inr ⟨hpos, grown, stalled, rfl, hover, h.symm⟩

theorem accepted_iff_of_decideTrial {eta damping : Amount R} {equations : NormalEquations R}
    {reduction : R} {d : Decision R} (h : decideTrial eta equations damping reduction = .ok d) :
    d.accepted = true ↔ 0 < reduction := by
  rcases decideTrial_eq_ok h with ⟨hpos, _, -, rfl⟩ | ⟨hneg, _, _, -, -, rfl⟩
  · exact iff_of_true rfl hpos
  · exact iff_of_false Bool.false_ne_true hneg

theorem damping_of_decideTrial {eta damping : Amount R} {equations : NormalEquations R}
    {reduction : R} {d : Decision R} (h : decideTrial eta equations damping reduction = .ok d) :
    d.damping = damping := by
  rcases decideTrial_eq_ok h with ⟨-, _, -, rfl⟩ | ⟨-, _, _, -, -, rfl⟩ <;> rfl

/-! ## Trials -/

namespace State

@[simp] theorem state_conclude (settings : Settings R) (s : State R)
    (equations : NormalEquations R) (d : Decision R) (tried : Nat) (step : List R)
    (reached : Visited R) :
    (s.conclude settings equations d tried step reached).state
      = s.after settings equations d tried step reached := by
  rw [conclude]
  split <;> rfl

/-- The trial that a decision on a step adds to the course. -/
def newTrial (s : State R) (d : Decision R) (reached : Visited R) : Trial R :=
  ⟨s.trace.updates, d.damping, reached.error, d.accepted, d.dampingAfter⟩

section after

variable {settings : Settings R} {s : State R} {equations : NormalEquations R} {d : Decision R}
  {tried : Nat} {step : List R} {reached : Visited R}

@[simp] theorem trials_after : (s.after settings equations d tried step reached).trace.trials
    = s.trace.trials ++ [s.newTrial d reached] := rfl

@[simp] theorem interactions_after :
    (s.after settings equations d tried step reached).interactions = s.interactions := rfl

theorem best_after_of_accepted (h : d.accepted = true) :
    (s.after settings equations d tried step reached).best = reached := if_pos h

theorem best_after_of_rejected (h : d.accepted = false) :
    (s.after settings equations d tried step reached).best = s.best :=
  if_neg (Bool.not_eq_true _ ▸ h)

theorem phase_after_of_accepted (h : d.accepted = true) :
    (s.after settings equations d tried step reached).phase = .linearise (some d.dampingAfter) :=
  if_pos h

theorem phase_after_of_rejected (h : d.accepted = false) :
    (s.after settings equations d tried step reached).phase
      = .attempt equations d.dampingAfter (tried + 1) :=
  if_neg (Bool.not_eq_true _ ▸ h)

theorem errors_after_of_accepted (h : d.accepted = true) :
    (s.after settings equations d tried step reached).trace.errors
      = s.trace.errors ++ [reached.error] := if_pos h

theorem errors_after_of_rejected (h : d.accepted = false) :
    (s.after settings equations d tried step reached).trace.errors = s.trace.errors :=
  if_neg (Bool.not_eq_true _ ▸ h)

theorem updates_after_of_accepted (h : d.accepted = true) :
    (s.after settings equations d tried step reached).trace.updates = s.trace.updates + 1 :=
  if_pos h

theorem updates_after_of_rejected (h : d.accepted = false) :
    (s.after settings equations d tried step reached).trace.updates = s.trace.updates :=
  if_neg (Bool.not_eq_true _ ▸ h)

end after

/-- A state in which `step` is about to be tried. -/
structure Poised (s : State R) (equations : NormalEquations R) (damping : Amount R) (tried : Nat)
    (step : List R) : Prop where
  /-- A Jacobian is at hand, and `tried` steps have been tried with it. -/
  phase : s.phase = .attempt equations damping tried
  /-- The residuals respond to every active variable. -/
  responsive : equations.unresponsive = []
  /-- The step solves the damped equations. -/
  solves : ∃ a, damping.read = .ok a ∧ equations.step? a = some step

/-- A trial in the state `s`: the step that was tried, and where it led. -/
structure Tried (p : Problem R) (s : State R) (equations : NormalEquations R) (damping : Amount R)
    (tried : Nat) (step : List R) (reached : Visited R) : Prop
    extends s.Poised equations damping tried step where
  /-- The step leads there. -/
  moved : p.applyUpdate s.best.point step = .ok reached.point
  /-- The residuals there are known. -/
  evaluated : p.residual (callCount s.interactions) reached.point = .ok reached.residuals
  /-- The error there is theirs. -/
  error : reached.error = Linear.rms reached.residuals

/-- How a step can fail in the state `s`: the fault, and the use it made of the problem before. -/
inductive Failure (p : Problem R) (settings : Settings R) (s : State R) :
    Fault → List (Interaction R) → Prop
  /-- The Jacobian could not be computed. -/
  | jacobian {damping fault points} (phase : s.phase = .linearise damping)
      (called : p.jacobianFrom (callCount s.interactions) s.best.point
        (Tensor.ofList s.best.residuals) = ⟨points, .error fault⟩) :
      Failure p settings s fault [.differentiate s.best.point s.best.residuals points]
  /-- The damping is too large to be used. -/
  | damping {equations damping tried fault} (phase : s.phase = .attempt equations damping tried)
      (read : damping.read = .error fault) : Failure p settings s fault []
  /-- The best point could not be moved by the step. -/
  | update {equations damping tried step fault} (poised : s.Poised equations damping tried step)
      (moved : p.applyUpdate s.best.point step = .error fault) : Failure p settings s fault []
  /-- There are no residuals where the step leads. -/
  | residual {equations damping tried step point fault}
      (poised : s.Poised equations damping tried step)
      (moved : p.applyUpdate s.best.point step = .ok point)
      (evaluated : p.residual (callCount s.interactions) point = .error fault) :
      Failure p settings s fault [.evaluate point]
  /-- The next damping could not be computed. -/
  | decision {equations damping tried step reached fault}
      (trial : s.Tried p equations damping tried step reached)
      (decided : decideTrial settings.eta equations damping (s.best.error - reached.error)
        = .error fault) : Failure p settings s fault [.evaluate reached.point]

/-- The four things that a step from the state `s` can do. -/
inductive Move (p : Problem R) (settings : Settings R) (s : State R) : Progress R → Prop
  /-- A Jacobian is computed at the best point. -/
  | linearised {damping jacobian points} (phase : s.phase = .linearise damping)
      (called : p.jacobianFrom (callCount s.interactions) s.best.point
        (Tensor.ofList s.best.residuals) = ⟨points, .ok jacobian⟩) :
      Move p settings s (.running { s with
        interactions := s.interactions ++
          [.differentiate s.best.point s.best.residuals points]
        phase := .attempt (jacobian.normalEquations s.best.residuals)
          (damping.getD (.scalar (jacobian.normalEquations s.best.residuals).initialDamping)) 0
        records := s.records ++ p.reportJacobian jacobian })
  /-- The equations have no usable solution. -/
  | stuck {equations damping tried a} (phase : s.phase = .attempt equations damping tried)
      (read : damping.read = .ok a)
      (singular : equations.unresponsive ≠ [] ∨ equations.step? a = none) :
      Move p settings s (.ended .illPosed { s with
        records := s.records ++
          equations.unresponsive.map (fun i ↦ Record.unresponsive (p.active.getD i 0)) ++
          [.illPosed] })
  /-- Something fails. -/
  | failed {fault more} (failure : s.Failure p settings fault more) :
      Move p settings s (.ended (.failed fault) { s with interactions := s.interactions ++ more })
  /-- A step is tried and decided on. -/
  | tried {equations damping tried step reached d}
      (trial : s.Tried p equations damping tried step reached)
      (decided : decideTrial settings.eta equations damping (s.best.error - reached.error)
        = .ok d) :
      Move p settings s
        ({ s with interactions := s.interactions ++ [Interaction.evaluate reached.point] }.conclude
          settings equations d tried step reached)

variable {p : Problem R} {settings : Settings R} {s : State R}

theorem Failure.move {fault : Fault} (h : s.Failure p settings fault []) :
    Move p settings s (.ended (.failed fault) s) := by
  have hmove := Move.failed h
  rwa [List.append_nil] at hmove

theorem move_linearise {damping : Option (Amount R)} (hphase : s.phase = .linearise damping) :
    Move p settings s (s.linearise p damping) := by
  rw [linearise]
  rcases hcalled : p.jacobianFrom (callCount s.interactions) s.best.point
    (Tensor.ofList s.best.residuals) with ⟨points, outcome⟩
  cases outcome with
  | error fault => exact .failed (.jacobian hphase hcalled)
  | ok jacobian => exact .linearised hphase hcalled

theorem move_judge {equations : NormalEquations R} {damping : Amount R} {tried : Nat}
    {step : List R} {reached : Visited R}
    (htrial : s.Tried p equations damping tried step reached) :
    Move p settings s
      ({ s with interactions := s.interactions ++ [Interaction.evaluate reached.point] }.judge
        settings equations damping tried step reached) := by
  rw [judge]
  cases hdecided : decideTrial settings.eta equations damping (s.best.error - reached.error) with
  | error fault => exact .failed (.decision htrial hdecided)
  | ok d => exact .tried htrial hdecided

theorem move_attempt {equations : NormalEquations R} {damping : Amount R} {tried : Nat}
    (hphase : s.phase = .attempt equations damping tried) :
    Move p settings s (s.attempt p settings equations damping tried) := by
  rw [attempt]
  cases hread : damping.read with
  | error fault => exact (Failure.damping hphase hread).move
  | ok a =>
    dsimp only
    split
    next step hresponsive hstep =>
      have hpoised : s.Poised equations damping tried step :=
        ⟨hphase, hresponsive, a, hread, hstep⟩
      cases hmoved : p.applyUpdate s.best.point step with
      | error fault => exact (Failure.update hpoised hmoved).move
      | ok point =>
        dsimp only
        cases hevaluated : p.residual (callCount s.interactions) point with
        | error fault => exact .failed (.residual hpoised hmoved hevaluated)
        | ok residuals =>
          have htrial : s.Tried p equations damping tried step (.ofResiduals point residuals) :=
            ⟨hpoised, hmoved, hevaluated, rfl⟩
          exact move_judge htrial
    next still step hsingular =>
      -- The match fell through, either because some variable has no effect or for want of a step.
      refine .stuck hphase hread ?_
      by_cases hresponsive : equations.unresponsive = []
      · exact Or.inr (Option.eq_none_iff_forall_ne_some.mpr fun found ↦
          hsingular found hresponsive)
      · exact Or.inl hresponsive

/-- **Every step is a move.** -/
theorem move_step (p : Problem R) (settings : Settings R) (s : State R) :
    Move p settings s (s.step p settings) := by
  rw [step]
  cases hphase : s.phase with
  | linearise damping => exact move_linearise hphase
  | attempt equations damping tried => exact move_attempt hphase

end State

end DampedLeastSquares
