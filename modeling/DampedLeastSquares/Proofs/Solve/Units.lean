import DampedLeastSquares.Proofs.Solve.Relisting
import DampedLeastSquares.Proofs.Solve.Scaling

/-!
# The unit of the residuals has no bearing on a solve

Two solves run side by side, one for a residual function and one for a constant times the same
function. They begin with the same damping, which has to be given: a damping that is taken from the
first equations would be in their unit. From then on every decision is on a ratio of errors, on the
sign of a reduction, on the length of a step or on a damping, and none of these has a unit. So the
states of the one iteration are those of the other with errors and residuals multiplied, step after
step, and one of them ends exactly if the other one does.
-/

namespace DampedLeastSquares

/-! ## The state in other units -/

section

variable (c : ℝ)

/-- A visited point in other units. -/
noncomputable def Visited.scale (v : Visited ℝ) : Visited ℝ :=
  ⟨v.point, Linear.scale c v.residuals, |c| * v.error⟩

/-- What is to be done next, in other units. A damping has none. -/
noncomputable def Phase.scale : Phase ℝ → Phase ℝ
  | .linearise damping => .linearise damping
  | .attempt equations damping tried => .attempt (equations.scale (c * c)) damping tried

/-- The course in other units. -/
noncomputable def Trace.scale (t : Trace ℝ) : Trace ℝ where
  errors := Linear.scale |c| t.errors
  improvements := Linear.scale |c| t.improvements
  trials := t.trials.map fun trial ↦ { trial with error := |c| * trial.error }
  updates := t.updates

/-- An interaction in other units. -/
noncomputable def Interaction.scale : Interaction ℝ → Interaction ℝ
  | .differentiate point baseline points => .differentiate point (Linear.scale c baseline) points
  | interaction => interaction

/-- A record in other units. -/
noncomputable def Record.scale : Record ℝ → Record ℝ
  | .start error damping => .start (|c| * error) damping
  | .row updates error damping stepRatio gainRatio =>
    .row updates (|c| * error) damping stepRatio gainRatio
  | .adjusted before after updates => .adjusted (|c| * before) (|c| * after) updates
  | record => record

/-- The state in other units. -/
noncomputable def State.scale (s : State ℝ) : State ℝ where
  best := s.best.scale c
  phase := s.phase.scale c
  trace := s.trace.scale c
  interactions := s.interactions.map (Interaction.scale c)
  records := s.records.map (Record.scale c)

/-- The outcome in other units. -/
noncomputable def Outcome.scale (o : Outcome ℝ) : Outcome ℝ where
  status := o.status
  point := o.point
  trace := o.trace.scale c
  interactions := o.interactions.map (Interaction.scale c)
  records := o.records.map (Record.scale c)

end

/-! ## Calls -/

section

variable (c : ℝ)

@[simp] theorem Interaction.calls_scale (i : Interaction ℝ) : (i.scale c).calls = i.calls := by
  cases i <;> rfl

@[simp] theorem callCount_scale (interactions : List (Interaction ℝ)) :
    callCount (interactions.map (Interaction.scale c)) = callCount interactions := by
  rw [callCount, callCount, List.flatMap_map]
  simp only [Interaction.calls_scale]

theorem Problem.reportJacobian_scale (p : Problem ℝ) (j : Jacobian ℝ) :
    (p.scale c).reportJacobian (j.scale c) = (p.reportJacobian j).map (Record.scale c) := by
  have hcolumns : (j.scale c).columns.length = j.columns.length := List.length_map _
  have hworkers : (p.scale c).workers = p.workers := rfl
  rw [reportJacobian, reportJacobian, hcolumns, hworkers]
  cases p.workers with
  | error fault => rfl
  | ok workers =>
    dsimp only
    split <;> rfl

end

/-! ## Decisions -/

section

variable {c : ℝ} (hc : c ≠ 0)

include hc

/-- Whether a step is accepted depends on the sign of the reduction, and nothing overflows. -/
theorem decideTrial_scale (eta : Amount ℝ) (equations equations' : NormalEquations ℝ)
    (damping : Amount ℝ) (reduction : ℝ) :
    decideTrial eta equations' damping (|c| * reduction)
      = decideTrial eta equations damping reduction := by
  have hpos : 0 < |c| * reduction ↔ 0 < reduction := mul_pos_iff_of_pos_left (abs_pos.mpr hc)
  rw [decideTrial_eq eta equations' equations, decideTrial, decideTrial]
  by_cases h : 0 < reduction
  · rw [if_pos h, if_pos (hpos.mpr h)]
  · rw [if_neg h, if_neg (mt hpos.mp h)]

theorem gainRatio_scale (improvements : List ℝ) :
    gainRatio (Linear.scale |c| improvements) = gainRatio improvements := by
  rw [gainRatio, gainRatio, Linear.scale, ← List.map_reverse]
  rcases improvements.reverse with _ | ⟨last, _ | ⟨previous, _⟩⟩
  · rfl
  · rfl
  · exact mul_div_mul_left last previous (abs_ne_zero.mpr hc)

theorem isFinal_scale (settings : Settings ℝ) (d : Decision ℝ) (updates tried : Nat)
    (improvements : List ℝ) (ratio : Option ℝ) :
    isFinal settings d updates tried (Linear.scale |c| improvements) ratio
      = isFinal settings d updates tried improvements ratio := by
  rw [isFinal, isFinal, gainRatio_scale hc]

end

section

variable (c : ℝ)

theorem Trace.record_scale (t : Trace ℝ) (d : Decision ℝ) (error reduction : ℝ) :
    (t.scale c).record d (|c| * error) (|c| * reduction)
      = (t.record d error reduction).scale c := by
  have happend (v : List ℝ) (a : ℝ) :
      (if d.accepted = true then Linear.scale |c| v ++ [|c| * a] else Linear.scale |c| v)
        = Linear.scale |c| (if d.accepted = true then v ++ [a] else v) := by
    split
    · rw [Linear.scale, Linear.scale, List.map_append]
      rfl
    · rfl
  simp only [record, scale, happend, List.map_append, List.map_cons, List.map_nil]

theorem Visited.ofResiduals_scale (point residuals : List ℝ) :
    Visited.ofResiduals point (Linear.scale c residuals)
      = (Visited.ofResiduals point residuals).scale c := by
  rw [ofResiduals, Linear.rms_scale]
  rfl

namespace State

variable (s : State ℝ) (d : Decision ℝ) (reached : Visited ℝ)

theorem reduction_scale : (s.scale c).best.error - (reached.scale c).error
    = |c| * (s.best.error - reached.error) := (mul_sub ..).symm

theorem traceAfter_scale :
    (s.scale c).traceAfter d (reached.scale c) = (s.traceAfter d reached).scale c := by
  rw [traceAfter, reduction_scale]
  exact Trace.record_scale c s.trace d reached.error _

theorem bestAfter_scale :
    (s.scale c).bestAfter d (reached.scale c) = (s.bestAfter d reached).scale c := by
  rw [bestAfter, bestAfter]
  split <;> rfl

variable {c} (hc : c ≠ 0) (settings : Settings ℝ) (equations : NormalEquations ℝ) (tried : Nat)
  (step : List ℝ)

include hc

theorem finalAfter_scale : (s.scale c).finalAfter settings d tried step (reached.scale c)
    = s.finalAfter settings d tried step reached := by
  rw [finalAfter, finalAfter, traceAfter_scale, bestAfter_scale]
  exact isFinal_scale hc settings d _ _ _ _

theorem recordsAfter_scale : (s.scale c).recordsAfter settings d tried step (reached.scale c)
    = (s.recordsAfter settings d tried step reached).map (Record.scale c) := by
  have hgain : gainRatio ((s.traceAfter d reached).scale c).improvements
      = gainRatio (s.traceAfter d reached).improvements := gainRatio_scale hc _
  rw [recordsAfter, recordsAfter, finalAfter_scale s d reached hc, traceAfter_scale,
    bestAfter_scale, hgain]
  split
  · rw [List.map_append]
    rfl
  · rfl

theorem after_scale :
    (s.scale c).after settings (equations.scale (c * c)) d tried step (reached.scale c)
      = (s.after settings equations d tried step reached).scale c := by
  have hphase : (if d.accepted = true then .linearise (some d.dampingAfter)
        else .attempt (equations.scale (c * c)) d.dampingAfter (tried + 1) : Phase ℝ)
      = (if d.accepted = true then .linearise (some d.dampingAfter)
        else .attempt equations d.dampingAfter (tried + 1) : Phase ℝ).scale c := by
    split <;> rfl
  rw [after, after, recordsAfter_scale s d reached hc, traceAfter_scale, bestAfter_scale, hphase]
  rfl

theorem conclude_scale :
    (s.scale c).conclude settings (equations.scale (c * c)) d tried step (reached.scale c)
      = (s.conclude settings equations d tried step reached).map (State.scale c) := by
  rw [conclude, conclude, after_scale s d reached hc, finalAfter_scale s d reached hc]
  split <;> rfl

theorem judge_scale (damping : Amount ℝ) :
    (s.scale c).judge settings (equations.scale (c * c)) damping tried step (reached.scale c)
      = (s.judge settings equations damping tried step reached).map (State.scale c) := by
  rw [judge, judge, reduction_scale, decideTrial_scale hc settings.eta equations]
  cases decideTrial settings.eta equations damping (s.best.error - reached.error) with
  | error fault => rfl
  | ok d => exact conclude_scale s d reached hc settings equations tried step

end State

end

/-! ## Steps -/

namespace State

/-- The next step has a damping, and as many equations as unknowns. -/
def Determined (s : State ℝ) : Prop :=
  match s.phase with
  | .linearise damping => damping ≠ none
  | .attempt equations _ _ => equations.IsSquare

variable {s : State ℝ}

theorem Determined.of_phase_eq {s' : State ℝ} (hs : s.Determined) (h : s'.phase = s.phase) :
    s'.Determined := by
  rwa [Determined, h]

/-- The equations that a Jacobian gives are as many as the unknowns, and a decision on a step gives
the next damping. -/
theorem Determined.step (p : Problem ℝ) (settings : Settings ℝ) (hs : s.Determined) :
    (s.step p settings).state.Determined := by
  have hmove := move_step p settings s
  generalize s.step p settings = a at hmove ⊢
  cases hmove with
  | linearised hphase hcalled => exact Jacobian.isSquare_normalEquations _ _
  | stuck => exact hs.of_phase_eq rfl
  | failed => exact hs.of_phase_eq rfl
  | @tried equations damping tried step reached d htrial hdecided =>
    rw [state_conclude]
    cases haccepted : d.accepted with
    | true =>
      rw [Determined, phase_after_of_accepted haccepted]
      exact Option.some_ne_none _
    | false =>
      rw [Determined, htrial.phase] at hs
      rw [Determined, phase_after_of_rejected haccepted]
      exact hs

variable {c : ℝ}

theorem linearise_scale (c : ℝ) (p : Problem ℝ) (s : State ℝ) (damping : Amount ℝ) :
    (s.scale c).linearise (p.scale c) (some damping)
      = (s.linearise p (some damping)).map (State.scale c) := by
  have hcalled : (p.scale c).jacobianFrom (callCount (s.scale c).interactions)
        (s.scale c).best.point (Tensor.ofList (s.scale c).best.residuals)
      = (p.jacobianFrom (callCount s.interactions) s.best.point
        (Tensor.ofList s.best.residuals)).map (Jacobian.scale c) := by
    rw [← Problem.jacobianFrom_scale, ← callCount_scale c s.interactions]
    rfl
  rw [linearise, linearise, hcalled]
  cases p.jacobianFrom (callCount s.interactions) s.best.point
      (Tensor.ofList s.best.residuals) with
  | mk points outcome =>
    have hinteractions : (s.scale c).interactions ++
          [Interaction.differentiate (s.scale c).best.point (s.scale c).best.residuals points]
        = (s.interactions ++ [Interaction.differentiate s.best.point s.best.residuals points]).map
          (Interaction.scale c) := by
      rw [List.map_append]
      rfl
    cases outcome with
    | error fault =>
      dsimp only [Called.map]
      rw [hinteractions]
      rfl
    | ok jacobian =>
      have hequations : (jacobian.scale c).normalEquations (s.scale c).best.residuals
          = (jacobian.normalEquations s.best.residuals).scale (c * c) :=
        Jacobian.normalEquations_scale c jacobian s.best.residuals
      have hrecords : (s.scale c).records ++ (p.scale c).reportJacobian (jacobian.scale c)
          = (s.records ++ p.reportJacobian jacobian).map (Record.scale c) := by
        rw [List.map_append, ← Problem.reportJacobian_scale]
        rfl
      dsimp only [Called.map, Except.map]
      rw [hinteractions, hequations, hrecords]
      rfl

theorem attempt_scale (hc : c ≠ 0) {equations : NormalEquations ℝ} (hsquare : equations.IsSquare)
    (p : Problem ℝ) (settings : Settings ℝ) (s : State ℝ) (damping : Amount ℝ) (tried : Nat) :
    (s.scale c).attempt (p.scale c) settings (equations.scale (c * c)) damping tried
      = (s.attempt p settings equations damping tried).map (State.scale c) := by
  have hcc : c * c ≠ 0 := mul_self_ne_zero.mpr hc
  rw [attempt, attempt, Amount.read_eq]
  dsimp only
  rw [NormalEquations.unresponsive_scale equations hcc, hsquare.step?_scale hcc]
  split
  next step hresponsive hstep =>
    have hmoved : (p.scale c).applyUpdate (s.scale c).best.point step
        = p.applyUpdate s.best.point step := rfl
    rw [hmoved]
    cases p.applyUpdate s.best.point step with
    | error fault => rfl
    | ok point =>
      have hinteractions : (s.scale c).interactions ++ [Interaction.evaluate point]
          = (s.interactions ++ [Interaction.evaluate point]).map (Interaction.scale c) := by
        rw [List.map_append]
        rfl
      have hevaluated : (p.scale c).residual (callCount (s.scale c).interactions) point
          = (p.residual (callCount s.interactions) point).map (Linear.scale c) := by
        rw [← callCount_scale c s.interactions]
        rfl
      dsimp only
      rw [hinteractions, hevaluated]
      cases p.residual (callCount s.interactions) point with
      | error fault => rfl
      | ok residuals =>
        dsimp only [Except.map]
        rw [Visited.ofResiduals_scale]
        exact judge_scale { s with interactions := s.interactions ++ [Interaction.evaluate point] }
          _ hc settings equations tried step damping
  next =>
    rw [Progress.map, scale, scale, List.map_append, List.map_append, List.map_map]
    rfl

/-- **Steps in other units are the same steps.** -/
theorem step_scale (p : Problem ℝ) (settings : Settings ℝ) (hc : c ≠ 0) (hs : s.Determined) :
    (s.scale c).step (p.scale c) settings = (s.step p settings).map (State.scale c) := by
  have hphase : (s.scale c).phase = s.phase.scale c := rfl
  rw [Determined] at hs
  rw [step, step, hphase]
  cases hcases : s.phase with
  | linearise damping =>
    rw [hcases] at hs
    obtain ⟨a, rfl⟩ := Option.ne_none_iff_exists'.mp hs
    exact linearise_scale c p s a
  | attempt equations damping tried =>
    rw [hcases] at hs
    exact attempt_scale hc hs p settings s damping tried

theorem begin_scale (c : ℝ) (settings : Settings ℝ) (start : Visited ℝ) :
    State.begin settings (start.scale c) = (State.begin settings start).map (State.scale c) := by
  rw [State.begin, State.begin]
  split
  · dsimp only
    split <;> rfl
  · rfl

theorem determined_begin {settings : Settings ℝ} {damping : Amount ℝ}
    (h : settings.initialDamping = some damping) (start : Visited ℝ) :
    (State.begin settings start).state.Determined := by
  rw [Determined, phase_begin, h]
  exact Option.some_ne_none damping

end State

/-! ## Solves -/

@[simp] theorem Outcome.committed_scale (c : ℝ) (o : Outcome ℝ) :
    (o.scale c).committed = o.committed := by
  rw [committed, committed, scale, List.getLast?_map]
  cases o.interactions.getLast? with
  | none => rfl
  | some i => cases i <;> rfl

namespace Problem

variable {settings : Settings ℝ} {damping : Amount ℝ} {c : ℝ}

theorem commit_scale (c : ℝ) (p : Problem ℝ) (x : List ℝ) (trace : Trace ℝ)
    (interactions : List (Interaction ℝ)) (records : List (Record ℝ)) :
    (p.scale c).commit x (trace.scale c) (interactions.map (Interaction.scale c))
        (records.map (Record.scale c))
      = (p.commit x trace interactions records).scale c := by
  have haccepts : (p.scale c).accepts = p.accepts := rfl
  rw [commit, commit, haccepts]
  split
  · rw [Outcome.scale, List.map_append]
    rfl
  · rw [Outcome.scale, List.map_append, List.map_append]
    rfl

theorem outcome_scale (c : ℝ) (p : Problem ℝ) (start : List ℝ) (e : Ending) (s : State ℝ) :
    (p.scale c).outcome start e (s.scale c) = (p.outcome start e s).scale c := by
  cases e with
  | finished => exact commit_scale c p s.best.point s.trace s.interactions s.records
  | illPosed => rfl
  | failed fault =>
    rw [outcome, outcome, Outcome.scale, List.map_append]
    rfl

/-- **A solve in other units is the same solve.** One goes on for ever exactly if the other one
does. -/
theorem solve_scale (p : Problem ℝ) (hc : c ≠ 0) (hdamping : settings.initialDamping = some damping)
    (start : Option (List ℝ)) :
    (p.scale c).solve settings start = (p.solve settings start).map (Outcome.scale c) := by
  cases start with
  | none => rfl
  | some start =>
    have hactive : (p.scale c).active = p.active := rfl
    rw [solve, solve, hactive]
    split
    · exact congrArg some (commit_scale c p start {} [] [.nothingActive])
    · have hresidual : (p.scale c).residual 0 start
          = (p.residual 0 start).map (Linear.scale c) := rfl
      rw [iterate, iterate, hresidual]
      cases p.residual 0 start with
      | error fault => rfl
      | ok residuals =>
        have hfinish := Progress.finish_map State.Determined (fun s hs ↦ hs.step p settings)
          (fun s hs ↦ State.step_scale p settings hc hs)
          (State.determined_begin hdamping (.ofResiduals start residuals))
        dsimp only [Except.map]
        rw [Visited.ofResiduals_scale, State.begin_scale, hfinish, Option.map_map, Option.map_map]
        refine congrArg (Option.map · _) (funext fun r ↦ ?_)
        exact outcome_scale c p start r.1 r.2

theorem stateAfter_scale (p : Problem ℝ) (hc : c ≠ 0)
    (hdamping : settings.initialDamping = some damping) (start residuals : List ℝ) (n : Nat) :
    (p.scale c).stateAfter settings start (Linear.scale c residuals) n
      = (p.stateAfter settings start residuals n).scale c := by
  have hiterate := Progress.iterate_next_map State.Determined (fun s hs ↦ hs.step p settings)
    (fun s hs ↦ State.step_scale p settings hc hs)
    (State.determined_begin hdamping (.ofResiduals start residuals)) n
  rw [stateAfter, Visited.ofResiduals_scale, State.begin_scale, hiterate]
  exact Progress.state_map _ _

/-- **The unit of the residuals has no bearing on the decisions.** With a given first damping, the
solves of a problem and of the same problem with all residuals multiplied by `c ≠ 0` try the same
steps with the same dampings, accept the same ones, and end alike with the same point. The errors
and improvements of the second are `|c|` times those of the first. The same is true of the course of
an iteration that has not ended yet, or never will. -/
theorem decisions_have_no_unit (p : Problem ℝ) (hc : c ≠ 0)
    (hdamping : settings.initialDamping = some damping) :
    (∀ start o, p.solve settings start = some o →
      ∃ o', (p.scale c).solve settings start = some o' ∧ o'.status = o.status ∧
        o'.point = o.point ∧ o'.committed = o.committed ∧ o'.trace.updates = o.trace.updates ∧
        o'.trace.trials = o.trace.trials.map (fun t ↦ { t with error := |c| * t.error }) ∧
        o'.trace.errors = o.trace.errors.map (|c| * ·) ∧
        o'.trace.improvements = o.trace.improvements.map (|c| * ·)) ∧
    (∀ start, (p.scale c).solve settings start = none ↔ p.solve settings start = none) ∧
    ∀ start residuals, p.residual 0 start = .ok residuals → ∀ n,
      ((p.scale c).stateAfter settings start (residuals.map (c * ·)) n).trace
          = (p.stateAfter settings start residuals n).trace.scale c ∧
        ((p.scale c).stateAfter settings start (residuals.map (c * ·)) n).best.point
          = (p.stateAfter settings start residuals n).best.point := by
  have hsolve := p.solve_scale hc hdamping
  refine ⟨fun start o ho ↦ ?_, fun start ↦ ?_, fun start residuals _ n ↦ ?_⟩
  · refine ⟨o.scale c, ?_, rfl, rfl, o.committed_scale c, rfl, rfl, rfl, rfl⟩
    rw [hsolve, ho, Option.map_some]
  · rw [hsolve, Option.map_eq_none_iff]
  · have hstate := p.stateAfter_scale hc hdamping start residuals n
    exact ⟨congrArg State.trace hstate, congrArg (·.best.point) hstate⟩

/-- The problem whose only residual is its only variable. -/
noncomputable def ruler : Problem ℝ := inOneVariable (fun _ x ↦ .ok x) (.scalar 1)

theorem exists_solve_ruler : ∃ o, ruler.solve blindSettings (some [1]) = some o ∧
    o.status = .converged ∧ o.point = some [1 / 2] ∧ o.trace.errors = [1, 1 / 2] := by
  let j : Jacobian ℝ := ⟨1, [[(1 + 1 - 1) / 1]]⟩
  let start : State ℝ := State.initial blindSettings (.ofResiduals [1] [1])
  let poised : State ℝ := { start with
    interactions := start.interactions ++ [.differentiate [1] [1] [[1 + 1]]]
    phase := .attempt (j.normalEquations [1]) (.whole 1) 0
    records := [.differentiated 1 1 1] }
  have hpoised : start.step ruler blindSettings = .running poised := rfl
  have hresponsive : (j.normalEquations [1]).unresponsive = [] := by
    simp [NormalEquations.unresponsive, NormalEquations.diagonal, Jacobian.normalEquations, j,
      Scalar.isZero]
  have hsolved : (j.normalEquations [1]).step? 1 = some [-1 / 2] := by
    rw [NormalEquations.step?_eq]
    norm_num [NormalEquations.damped, Jacobian.normalEquations, j, Linear.solve?, Scalar.isZero]
  have herror (a : ℝ) (ha : 0 ≤ a) : Linear.rms [a] = a := by
    rw [Linear.rms_of_ne_nil (List.cons_ne_nil a [])]
    simp [ha]
  let reached : Visited ℝ := .ofResiduals [1 + -1 / 2] [1 + -1 / 2]
  let d : Decision ℝ := ⟨.whole 1, true, false, .scalar (Amount.quotient 1 8)⟩
  let tried : State ℝ :=
    { poised with interactions := poised.interactions ++ [.evaluate reached.point] }
  have hdecided : decideTrial blindSettings.eta (j.normalEquations [1]) (.whole 1)
      (tried.best.error - reached.error) = .ok d := by
    change decideTrial (.whole 8) _ _ (Linear.rms [1] - Linear.rms [1 + -1 / 2]) = _
    rw [herror 1 zero_le_one, herror _ (by norm_num), decideTrial, if_pos (by norm_num)]
    rfl
  have hended : poised.step ruler blindSettings = .ended .finished
      (tried.after blindSettings (j.normalEquations [1]) d 0 [-1 / 2] reached) := by
    change poised.attempt ruler blindSettings (j.normalEquations [1]) (.whole 1) 0 = _
    rw [State.attempt, Amount.read_eq, Amount.toScalar, Amount.ofWhole_eq, Int.cast_one]
    dsimp only
    rw [hresponsive, hsolved]
    change tried.judge _ _ _ _ _ reached = _
    rw [State.judge, hdecided]
    rfl
  have hrun : start.run ruler blindSettings = some (.finished,
      tried.after blindSettings (j.normalEquations [1]) d 0 [-1 / 2] reached) := by
    rw [State.run_eq_finish, hpoised, Progress.finish, State.run_eq_finish, hended]
    rfl
  refine ⟨_, congrArg (Option.map _) hrun, rfl, ?_, ?_⟩
  · change some [1 + -1 / 2] = _
    norm_num
  · change [Linear.rms [1], Linear.rms [1 + -1 / 2]] = _
    rw [herror 1 zero_le_one, herror _ (by norm_num)]
    norm_num

/-- With all residuals multiplied by `-2` the same step is taken, and the errors are twice as large.
-/
theorem decisions_have_no_unit_ruler : ∃ o o',
    ruler.solve blindSettings (some [1]) = some o ∧
    (ruler.scale (-2)).solve blindSettings (some [1]) = some o' ∧
    o'.status = .converged ∧ o'.point = some [1 / 2] ∧
    o.trace.errors = [1, 1 / 2] ∧ o'.trace.errors = [2, 1] := by
  obtain ⟨o, ho, hconverged, hpoint, herrors⟩ := exists_solve_ruler
  have hc : (-2 : ℝ) ≠ 0 := by norm_num
  obtain ⟨hsolve, -⟩ := decisions_have_no_unit ruler hc
    (rfl : blindSettings.initialDamping = some (.whole 1))
  obtain ⟨o', ho', hstatus, hpoint', -, -, -, herrors', -⟩ := hsolve _ o ho
  refine ⟨o, o', ho, ho', hstatus.trans hconverged, hpoint'.trans hpoint, herrors, ?_⟩
  rw [herrors', herrors]
  norm_num

end Problem

end DampedLeastSquares
