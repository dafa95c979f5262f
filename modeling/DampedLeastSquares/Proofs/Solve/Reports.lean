import DampedLeastSquares.Proofs.Solve.Commit

/-!
# Reports change nothing

A solve that reports its progress does what it would do in silence. Reports are only ever written:
the table of progress can be erased from a state at any time, and the iteration goes on as if it had
never been there. To erase it commutes with every step, hence with whole runs, and the silent solve
is the reporting one without its table.

At one place the table is more than written. Its first row shows the first damping, and a whole
number that is too large for a scalar cannot be shown. It cannot be used either, so that a silent
solve fails as well, a Jacobian later. What the solve comes to is the same even then.
-/

namespace DampedLeastSquares

variable {R : Type}

/-! ## Erasing the table -/

/-- Whether a record belongs to the table of progress. -/
def Record.isProgress (r : Record R) : Bool := r.level = .info

/-- Records without the table of progress. -/
def withoutTable (records : List (Record R)) : List (Record R) :=
  records.filter fun r ↦ !r.isProgress

/-- The state without the table of progress. -/
def State.withoutTable (s : State R) : State R :=
  { s with records := DampedLeastSquares.withoutTable s.records }

/-- The outcome without the table of progress. -/
def Outcome.withoutTable (o : Outcome R) : Outcome R :=
  { o with records := DampedLeastSquares.withoutTable o.records }

/-- The settings with progress reported or not. -/
def Settings.reporting (settings : Settings R) (verbose : Bool) : Settings R :=
  { settings with verbose }

theorem withoutTable_append (records more : List (Record R)) :
    withoutTable (records ++ more) = withoutTable records ++ withoutTable more :=
  List.filter_append records more

theorem withoutTable_eq_self {records : List (Record R)} (h : ∀ r ∈ records, r.isProgress = false) :
    withoutTable records = records :=
  List.filter_eq_self.mpr fun r hr ↦ by rw [h r hr]; rfl

theorem withoutTable_append_of_isProgress (records : List (Record R)) {more : List (Record R)}
    (h : ∀ r ∈ more, r.isProgress = false) :
    withoutTable (records ++ more) = withoutTable records ++ more := by
  rw [withoutTable_append, withoutTable_eq_self h]

theorem isProgress_of_mem_reportJacobian {p : Problem R} {j : Jacobian R} {r : Record R}
    (hr : r ∈ p.reportJacobian j) : r.isProgress = false := by
  rw [Problem.reportJacobian] at hr
  cases hworkers : p.workers with
  | error fault =>
    rw [hworkers] at hr
    exact nomatch hr
  | ok w =>
    simp only [hworkers] at hr
    split at hr
    · exact nomatch hr
    · rw [List.mem_singleton.mp hr]
      rfl

theorem isProgress_of_mem_illPosed {still : List Nat} {var : Nat → Nat} {r : Record R}
    (hr : r ∈ still.map (fun i ↦ Record.unresponsive (var i)) ++ [.illPosed]) :
    r.isProgress = false := by
  rcases List.mem_append.mp hr with hr | hr
  · obtain ⟨i, -, rfl⟩ := List.mem_map.mp hr
    rfl
  · rw [List.mem_singleton.mp hr]
    rfl

theorem withoutTable_illPosed (records : List (Record R)) (still : List Nat) (var : Nat → Nat) :
    withoutTable (records ++ still.map (fun i ↦ Record.unresponsive (var i)) ++ [.illPosed])
      = withoutTable records ++ still.map (fun i ↦ Record.unresponsive (var i)) ++ [.illPosed] := by
  rw [List.append_assoc, List.append_assoc]
  exact withoutTable_append_of_isProgress records fun _ ↦ isProgress_of_mem_illPosed

namespace State

variable (s : State R)

@[simp] theorem best_withoutTable : s.withoutTable.best = s.best := rfl

@[simp] theorem phase_withoutTable : s.withoutTable.phase = s.phase := rfl

@[simp] theorem interactions_withoutTable : s.withoutTable.interactions = s.interactions := rfl

end State

variable [Scalar R] {p : Problem R} {settings : Settings R}

/-! ## Steps -/

namespace State

variable (s : State R)

theorem linearise_withoutTable (damping : Option (Amount R)) :
    s.withoutTable.linearise p damping = (s.linearise p damping).map withoutTable := by
  simp only [linearise, best_withoutTable, interactions_withoutTable]
  cases (p.jacobianFrom (callCount s.interactions) s.best.point
    (Tensor.ofList s.best.residuals)).outcome with
  | error fault => rfl
  | ok j =>
    have hreport := withoutTable_append_of_isProgress s.records fun r
      (hr : r ∈ p.reportJacobian j) ↦ isProgress_of_mem_reportJacobian hr
    simp only [Progress.map, withoutTable, hreport]

variable (equations : NormalEquations R) (d : Decision R) (damping : Amount R) (tried : Nat)
  (step : List R) (reached : Visited R)

theorem withoutTable_recordsAfter :
    DampedLeastSquares.withoutTable (s.recordsAfter settings d tried step reached)
      = DampedLeastSquares.withoutTable s.records := by
  rw [recordsAfter]
  split
  · exact (withoutTable_append _ _).trans (List.append_nil _)
  · rfl

theorem after_withoutTable :
    s.withoutTable.after (settings.reporting false) equations d tried step reached
      = (s.after settings equations d tried step reached).withoutTable := by
  rw [after, after, withoutTable, withoutTable, withoutTable_recordsAfter]
  rfl

theorem conclude_withoutTable :
    s.withoutTable.conclude (settings.reporting false) equations d tried step reached
      = (s.conclude settings equations d tried step reached).map withoutTable := by
  -- Whether the trial is final has nothing to do with the records.
  have hfinal : s.withoutTable.finalAfter (settings.reporting false) d tried step reached
      = s.finalAfter settings d tried step reached := rfl
  rw [conclude, conclude, hfinal, after_withoutTable]
  split <;> rfl

theorem judge_withoutTable :
    s.withoutTable.judge (settings.reporting false) equations damping tried step reached
      = (s.judge settings equations damping tried step reached).map withoutTable := by
  simp only [judge, best_withoutTable, Settings.reporting]
  cases decideTrial settings.eta equations damping (s.best.error - reached.error) with
  | error fault => rfl
  | ok d => exact s.conclude_withoutTable equations d tried step reached

theorem attempt_withoutTable :
    s.withoutTable.attempt p (settings.reporting false) equations damping tried
      = (s.attempt p settings equations damping tried).map withoutTable := by
  simp only [attempt, best_withoutTable, interactions_withoutTable]
  cases damping.read with
  | error fault => rfl
  | ok a =>
    dsimp only
    split
    next step _ _ =>
      cases p.applyUpdate s.best.point step with
      | error fault => rfl
      | ok point =>
        dsimp only
        cases p.residual (callCount s.interactions) point with
        | error fault => rfl
        | ok residuals =>
          exact State.judge_withoutTable
            { s with interactions := s.interactions ++ [.evaluate point] } equations damping tried
            step (.ofResiduals point residuals)
    · simp only [Progress.map, withoutTable, withoutTable_illPosed]

/-- **To erase the table commutes with steps.** -/
theorem step_withoutTable :
    s.withoutTable.step p (settings.reporting false)
      = (s.step p settings).map withoutTable := by
  simp only [State.step, phase_withoutTable]
  cases s.phase with
  | linearise damping => exact s.linearise_withoutTable damping
  | attempt equations damping tried => exact s.attempt_withoutTable equations damping tried

end State

/-! ## The start -/

/-- The first damping as the table shows it, which is a scalar. None is shown if it is left to the
first Jacobian, and a whole number may be too large to be shown. -/
def Settings.shownDamping (settings : Settings R) : Except Fault (Option R) :=
  settings.initialDamping.mapM Amount.read

theorem Settings.exists_of_shownDamping {fault : Fault}
    (h : settings.shownDamping = .error fault) :
    ∃ damping, settings.initialDamping = some damping ∧ damping.read = .error fault := by
  rw [shownDamping] at h
  cases hfirst : settings.initialDamping with
  | none =>
    rw [hfirst] at h
    exact nomatch h
  | some damping =>
    cases hread : damping.read with
    | ok a =>
      rw [hfirst, Option.mapM_some, hread] at h
      exact nomatch h
    | error fault' =>
      rw [hfirst, Option.mapM_some, hread] at h
      obtain rfl := Except.error.inj h
      exact ⟨damping, rfl, hread⟩

namespace State

variable {start : Visited R}

theorem begin_of_silent (hverbose : settings.verbose = false) :
    State.begin settings start = .running (State.initial settings start) := by
  rw [State.begin, if_neg (by rw [hverbose]; exact Bool.false_ne_true)]

theorem begin_of_shownDamping {damping : Option R} (hverbose : settings.verbose = true)
    (hshown : settings.shownDamping = .ok damping) :
    State.begin settings start = .running { State.initial settings start with
      records := [.rule, .heading, .rule, .start start.error damping] } := by
  rw [Settings.shownDamping] at hshown
  rw [State.begin, if_pos hverbose, hshown]
  rfl

theorem begin_of_unshown {fault : Fault} (hverbose : settings.verbose = true)
    (hunshown : settings.shownDamping = .error fault) :
    State.begin settings start = .ended (.failed fault)
      { State.initial settings start with records := [.rule, .heading, .rule] } := by
  rw [Settings.shownDamping] at hunshown
  rw [State.begin, if_pos hverbose, hunshown]

theorem begin_withoutTable {damping : Option R} (hshown : settings.shownDamping = .ok damping) :
    State.begin (settings.reporting false) start
      = (State.begin settings start).map withoutTable := by
  rw [begin_of_silent rfl]
  cases hverbose : settings.verbose with
  | false => rw [begin_of_silent hverbose]; rfl
  | true => rw [begin_of_shownDamping hverbose hshown]; rfl

theorem exists_run_of_unreadable {s : State R} {damping : Amount R} {fault : Fault}
    (hphase : s.phase = .linearise (some damping)) (hread : damping.read = .error fault) :
    ∃ fault' s', s.run p settings = some (.failed fault', s') ∧ s'.trace = s.trace := by
  have hmove := move_step p settings s
  rw [run_eq_finish]
  generalize s.step p settings = a at hmove ⊢
  cases hmove with
  | stuck hphase' => exact nomatch hphase.symm.trans hphase'
  | tried htrial => exact nomatch hphase.symm.trans htrial.phase
  | failed => exact ⟨_, _, rfl, rfl⟩
  | linearised hphase' hcalled =>
    -- The damping is read when the first step is tried.
    obtain rfl := Phase.linearise.inj (hphase.symm.trans hphase')
    rw [Progress.finish, run_eq_finish, State.step]
    simp only [attempt, Option.getD_some, hread]
    exact ⟨_, _, rfl, rfl⟩

end State

/-! ## Solves -/

/-- What a solve comes to, without the way in which it came to it. -/
structure Result (R : Type) where
  /-- How the solve ended. -/
  status : Status
  /-- The point it ended with, if there was any. -/
  point : Option (List R)
  /-- Its course. -/
  trace : Trace R
  /-- The point that was committed, if one was. -/
  committed : Option (List R)

/-- What a solve comes to. -/
def Outcome.result (o : Outcome R) : Result R := ⟨o.status, o.point, o.trace, o.committed⟩

namespace Problem

section

omit [Scalar R]

theorem commit_withoutTable (p : Problem R) (x : List R) (trace : Trace R)
    (interactions : List (Interaction R)) (records : List (Record R)) :
    p.commit x trace interactions (withoutTable records)
      = (p.commit x trace interactions records).withoutTable := by
  rw [commit, commit]
  cases p.accepts x with
  | true => rfl
  | false =>
    rw [if_neg Bool.false_ne_true, if_neg Bool.false_ne_true, Outcome.withoutTable,
      withoutTable_append]
    rfl

theorem outcome_withoutTable (p : Problem R) (start : List R) (e : Ending) (s : State R) :
    p.outcome start e s.withoutTable = (p.outcome start e s).withoutTable := by
  cases e with
  | finished => exact p.commit_withoutTable _ _ _ _
  | illPosed => rfl
  | failed fault => simp only [outcome, Outcome.withoutTable, withoutTable_append]; rfl

end

/-- **The silent solve is the reporting one without its table**, if the table can show the first
damping. One of them goes on for ever exactly if the other one does. -/
theorem solve_silent {damping : Option R} (hshown : settings.shownDamping = .ok damping)
    (p : Problem R) (start : Option (List R)) :
    p.solve (settings.reporting false) start
      = (p.solve settings start).map Outcome.withoutTable := by
  cases start with
  | none => rfl
  | some start =>
    rw [solve, solve]
    split
    · exact congrArg some (p.commit_withoutTable start {} [] [.nothingActive])
    · rw [iterate, iterate]
      cases p.residual 0 start with
      | error fault => rfl
      | ok residuals =>
        dsimp only
        rw [State.begin_withoutTable hshown, Progress.finish_map (fun _ ↦ True) (fun _ _ ↦ trivial)
          (fun s _ ↦ s.step_withoutTable) trivial, Option.map_map, Option.map_map]
        refine congrArg (Option.map · _) (funext fun ended ↦ ?_)
        exact p.outcome_withoutTable start ended.1 ended.2

/-- If the table cannot show the first damping, then an iteration fails before it has tried
anything, whether or not progress is reported. -/
theorem exists_solve_of_unshown {fault : Fault} (hunshown : settings.shownDamping = .error fault)
    {start residuals : List R} (hactive : p.active ≠ [])
    (hevaluated : p.residual 0 start = .ok residuals) :
    ∃ o, p.solve settings (some start) = some o ∧
      o.result = ⟨.evaluationError, some start, { errors := [Linear.rms residuals] }, none⟩ := by
  obtain ⟨damping, hfirst, hread⟩ := Settings.exists_of_shownDamping hunshown
  obtain ⟨fault', s, hfinish, htrace⟩ : ∃ fault' s,
      (State.begin settings (.ofResiduals start residuals)).finish p settings
        = some (.failed fault', s) ∧ s.trace = { errors := [Linear.rms residuals] } := by
    cases hverbose : settings.verbose with
    | true =>
      rw [State.begin_of_unshown hverbose hunshown]
      exact ⟨fault, _, rfl, rfl⟩
    | false =>
      rw [State.begin_of_silent hverbose]
      exact State.exists_run_of_unreadable (congrArg Phase.linearise hfirst) hread
  have hsolve : p.solve settings (some start) = some (p.outcome start (.failed fault') s) := by
    rw [solve, if_neg (by rwa [List.isEmpty_iff]), iterate, hevaluated]
    simp only [hfinish, Option.map_some]
  have hcommitted := (commits_of_solve hsolve).committed_of_not_converged
    (Status.noConfusion : Status.evaluationError ≠ .converged)
  refine ⟨p.outcome start (.failed fault') s, hsolve, ?_⟩
  rw [Outcome.result, hcommitted, trace_outcome, htrace]
  rfl

/-- **Whether progress is reported has no bearing on what a solve comes to.** -/
theorem map_result_solve (p : Problem R) (settings : Settings R) (verbose : Bool)
    (start : Option (List R)) :
    (p.solve (settings.reporting verbose) start).map Outcome.result
      = (p.solve settings start).map Outcome.result := by
  cases hshown : settings.shownDamping with
  | ok damping =>
    -- Both are compared with the silent solve.
    have hsilent : ∀ settings' : Settings R, settings'.shownDamping = .ok damping →
        (p.solve (settings'.reporting false) start).map Outcome.result
          = (p.solve settings' start).map Outcome.result := by
      intro settings' hshown'
      rw [solve_silent hshown', Option.map_map]
      rfl
    rw [← hsilent settings hshown, ← hsilent (settings.reporting verbose) hshown]
    rfl
  | error fault =>
    cases start with
    | none => rfl
    | some start =>
      by_cases hactive : p.active = []
      · rw [solve, solve, hactive, List.isEmpty_nil, if_pos rfl, if_pos rfl]
      · cases hevaluated : p.residual 0 start with
        | error fault => rw [solve, solve, iterate, iterate, hevaluated]
        | ok residuals =>
          have hunshown : (settings.reporting verbose).shownDamping = .error fault := hshown
          obtain ⟨o, ho, hresult⟩ := exists_solve_of_unshown hunshown hactive hevaluated
          obtain ⟨o', ho', hresult'⟩ := exists_solve_of_unshown hshown hactive hevaluated
          rw [ho, ho', Option.map_some, Option.map_some, hresult, hresult']

end Problem

/-! ## Models and adjustments -/

omit [Scalar R] in
private theorem map_congr_result {α : Type} {a b : Option (Outcome R)} {f : Outcome R → α}
    (h : a.map Outcome.result = b.map Outcome.result)
    (hf : ∀ o o' : Outcome R, o.committed = o'.committed → f o = f o') :
    a.map (fun o ↦ (o.result, f o)) = b.map (fun o ↦ (o.result, f o)) := by
  cases a with
  | none =>
    obtain rfl := Option.map_eq_none_iff.mp h.symm
    rfl
  | some o =>
    obtain ⟨o', rfl, hresult⟩ := Option.map_eq_some_iff.mp h.symm
    rw [Option.map_some, Option.map_some, hresult, hf o o' (congrArg Result.committed hresult.symm)]

theorem FunctionModel.map_result_solve (m : FunctionModel R) (settings : Settings R)
    (verbose : Bool) (start : Option (Tensor R)) :
    (m.solve (settings.reporting verbose) start).map (Prod.map Outcome.result id)
      = (m.solve settings start).map (Prod.map Outcome.result id) := by
  rw [solve, solve, Option.map_map, Option.map_map]
  refine map_congr_result (m.problem.map_result_solve settings verbose _) fun o o' h ↦ ?_
  rw [id, id, afterSolve, afterSolve, h]

theorem Adjustment.map_result_solve {S : Type} [CircularScalar S] (a : Adjustment S)
    (settings : Settings S) (verbose : Bool) (start : Option (List S)) :
    (a.solve (settings.reporting verbose) start).map (Option.map (Prod.map Outcome.result id))
      = (a.solve settings start).map (Option.map (Prod.map Outcome.result id)) := by
  have hsolve : ∀ start', ((a.problem.solve (settings.reporting verbose) start').map
      fun o ↦ (o, a.afterSolve o)).map (Prod.map Outcome.result id)
        = ((a.problem.solve settings start').map fun o ↦ (o, a.afterSolve o)).map
          (Prod.map Outcome.result id) := by
    intro start'
    rw [Option.map_map, Option.map_map]
    refine map_congr_result (a.problem.map_result_solve settings verbose start') fun o o' h ↦ ?_
    rw [id, id, afterSolve, afterSolve, h]
  simp only [solve, bind, Except.bind, pure, Except.pure]
  cases start with
  | some x => exact congrArg Except.ok (hsolve (some x))
  | none =>
    cases a.bundle.store with
    | error fault => rfl
    | ok start' => exact congrArg Except.ok (hsolve start')

end DampedLeastSquares
