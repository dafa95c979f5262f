import DampedLeastSquares.Proofs.Solve.Coherence
import DampedLeastSquares.Proofs.Solve.Purity

/-!
# The best point

Three things are kept of the best point: where it is, which residuals it has, and which error. They
change together, or they stop being about one point. If the residual function is pure, that they do
can be seen from outside: the course of a solve can be retraced from the start without a run, and it
leads to the point that is returned.

A solve that fails is the exception. It returns its start, however far it got.
-/

namespace DampedLeastSquares

variable {R : Type} [Scalar R] {p : Problem R} {settings : Settings R}

/-! ## Retracing a course -/

theorem forall_of_append_singleton {α : Type} {P : List α → α → Prop} {items : List α} {a : α}
    (h : ∀ before b after, items = before ++ b :: after → P before b) (ha : P items a) :
    ∀ before b after, items ++ [a] = before ++ b :: after → P before b := by
  intro before b after heq
  rcases List.eq_nil_or_concat after with rfl | ⟨after', last, rfl⟩
  · obtain ⟨rfl, hlast⟩ := List.append_inj' heq rfl
    obtain rfl := List.cons.inj hlast |>.1
    exact ha
  · rw [List.concat_eq_append, ← List.cons_append, ← List.append_assoc] at heq
    exact h before b after' (List.append_inj_left' heq rfl)

namespace Problem

/-- The error of each trial is found where its step leads from the point that the trials before it
lead to. -/
def Explains (p : Problem R) (start : List R) (trials : List (Trial R)) : Prop :=
  ∀ before t after, trials = before ++ t :: after → ∃ x y, p.retrace? start before = some x ∧
    p.follow? x t = some y ∧ p.errorAt? y = some t.error

/-- Each Jacobian was computed at a point that some of the trials lead to, with the residuals
there. -/
def Grounds (p : Problem R) (start : List R) (trials : List (Trial R))
    (interactions : List (Interaction R)) : Prop :=
  ∀ x baseline points, .differentiate x baseline points ∈ interactions →
    p.residual 0 x = .ok baseline ∧ ∃ before, before <+: trials ∧ p.retrace? start before = some x

variable {start : List R} {trials : List (Trial R)} {interactions more : List (Interaction R)}

theorem Explains.append {t : Trial R} {x y : List R} (h : p.Explains start trials)
    (hx : p.retrace? start trials = some x) (hy : p.follow? x t = some y)
    (herror : p.errorAt? y = some t.error) : p.Explains start (trials ++ [t]) :=
  forall_of_append_singleton h ⟨x, y, hx, hy, herror⟩

theorem Grounds.append {x baseline : List R} (h : p.Grounds start trials interactions)
    (hx : p.retrace? start trials = some x) (hbaseline : p.residual 0 x = .ok baseline)
    (hmore : ∀ x' baseline' points, .differentiate x' baseline' points ∈ more →
      x' = x ∧ baseline' = baseline) : p.Grounds start trials (interactions ++ more) := by
  intro x' baseline' points hmem
  rcases List.mem_append.mp hmem with hmem | hmem
  · exact h x' baseline' points hmem
  · obtain ⟨rfl, rfl⟩ := hmore x' baseline' points hmem
    exact ⟨hbaseline, trials, List.prefix_refl _, hx⟩

theorem Grounds.mono {t : Trial R} (h : p.Grounds start trials interactions) :
    p.Grounds start (trials ++ [t]) interactions := by
  intro x baseline points hmem
  obtain ⟨hbaseline, before, hbefore, hx⟩ := h x baseline points hmem
  exact ⟨hbaseline, before, hbefore.trans (List.prefix_append _ _), hx⟩

end Problem

namespace State

/-- What a state holds of its best point is what the problem says of it, and the course leads
there. -/
structure Retraced (p : Problem R) (start : List R) (s : State R) : Prop where
  /-- The residuals are those of the best point. -/
  residuals : p.residual 0 s.best.point = .ok s.best.residuals
  /-- The error is that of the residuals. -/
  error : s.best.error = Linear.rms s.best.residuals
  /-- The equations are those of the best point. -/
  equations : ∀ equations damping tried, s.phase = .attempt equations damping tried →
    p.equationsAt? s.best.point = some equations
  /-- The accepted trials lead to the best point. -/
  best : p.retrace? start s.trace.trials = some s.best.point
  /-- Every trial can be explained. -/
  trials : p.Explains start s.trace.trials
  /-- No Jacobian was computed with stale residuals. -/
  baselines : p.Grounds start s.trace.trials s.interactions

variable {s : State R} {start : List R}

theorem retraced_begin {residuals : List R} (h : p.residual 0 start = .ok residuals) :
    (State.begin settings (.ofResiduals start residuals)).state.Retraced p start where
  residuals := by rwa [best_begin]
  error := by rw [best_begin]; rfl
  equations _ _ _ hphase := by rw [phase_begin] at hphase; exact nomatch hphase
  best := by rw [trace_begin, best_begin]; rfl
  trials before t after heq := by rw [trace_begin] at heq; simp at heq
  baselines x baseline points hmem := by rw [interactions_begin] at hmem; simp at hmem

/-- The Jacobian of a failed step is computed at the best point. -/
theorem Failure.eq_best {fault : Fault} {more : List (Interaction R)}
    (h : s.Failure p settings fault more) (x baseline : List R) (points : List (List R))
    (hmem : .differentiate x baseline points ∈ more) :
    x = s.best.point ∧ baseline = s.best.residuals := by
  cases h with
  | damping | update => exact nomatch hmem
  | residual | decision => exact nomatch List.mem_singleton.mp hmem
  | jacobian phase called =>
    obtain ⟨rfl, rfl, -⟩ := Interaction.differentiate.inj (List.mem_singleton.mp hmem)
    exact ⟨rfl, rfl⟩

/-- A step that does not move the best point keeps what is known of it. -/
theorem Retraced.append {more : List (Interaction R)} {s' : State R} (h : s.Retraced p start)
    (hbest : s'.best = s.best) (htrace : s'.trace = s.trace)
    (hinteractions : s'.interactions = s.interactions ++ more)
    (hmore : ∀ x baseline points, .differentiate x baseline points ∈ more →
      x = s.best.point ∧ baseline = s.best.residuals)
    (hequations : ∀ equations damping tried, s'.phase = .attempt equations damping tried →
      p.equationsAt? s.best.point = some equations) : s'.Retraced p start where
  residuals := by rw [hbest]; exact h.residuals
  error := by rw [hbest]; exact h.error
  equations := by rwa [hbest]
  best := by rw [hbest, htrace]; exact h.best
  trials := by rw [htrace]; exact h.trials
  baselines := by
    rw [htrace, hinteractions]
    exact h.baselines.append h.best h.residuals hmore

theorem Retraced.follow?_of_tried {equations : NormalEquations R} {damping : Amount R}
    {tried : Nat} {step : List R} {reached : Visited R} (h : s.Retraced p start)
    (htrial : s.Tried p equations damping tried step reached) {t : Trial R}
    (ht : t.damping = damping) : p.follow? s.best.point t = some reached.point := by
  obtain ⟨a, hread, hstep⟩ := htrial.solves
  rw [← ht] at hread
  exact Problem.follow?_of_step (h.equations _ _ _ htrial.phase) hread hstep htrial.moved

theorem Tried.residual_zero (hp : p.IsPure) {equations : NormalEquations R}
    {damping : Amount R} {tried : Nat} {step : List R} {reached : Visited R}
    (htrial : s.Tried p equations damping tried step reached) :
    p.residual 0 reached.point = .ok reached.residuals := by
  rw [← hp]
  exact htrial.evaluated

theorem Retraced.explains_newTrial (hp : p.IsPure) {equations : NormalEquations R}
    {damping : Amount R} {tried : Nat} {step : List R} {reached : Visited R} {d : Decision R}
    (h : s.Retraced p start) (htrial : s.Tried p equations damping tried step reached)
    (hd : d.damping = damping) :
    p.Explains start (s.trace.trials ++ [s.newTrial d reached]) := by
  refine h.trials.append h.best (h.follow?_of_tried htrial hd) ?_
  rw [Problem.errorAt?_of_residual (htrial.residual_zero hp), ← htrial.error]
  rfl

theorem Retraced.after (hp : p.IsPure) {equations : NormalEquations R} {damping : Amount R}
    {tried : Nat} {step : List R} {reached : Visited R} {d : Decision R}
    (h : s.Retraced p start) (htrial : s.Tried p equations damping tried step reached)
    (hd : d.damping = damping) :
    ({ s with interactions := s.interactions ++ [Interaction.evaluate reached.point] }.after
      settings equations d tried step reached).Retraced p start := by
  have hexplains := h.explains_newTrial hp htrial hd
  have hgrounds : p.Grounds start (s.trace.trials ++ [s.newTrial d reached])
      (s.interactions ++ [.evaluate reached.point]) := by
    refine (h.baselines.append h.best h.residuals ?_).mono
    intro x baseline points hmem
    exact nomatch List.mem_singleton.mp hmem
  cases haccepted : d.accepted with
  | false =>
    -- Nothing moves, so the next step is found from the same residuals and the same equations.
    refine ⟨?_, ?_, ?_, ?_, hexplains, hgrounds⟩
    · rw [best_after_of_rejected haccepted]
      exact h.residuals
    · rw [best_after_of_rejected haccepted]
      exact h.error
    · intro equations' damping' tried' hphase
      rw [phase_after_of_rejected haccepted] at hphase
      obtain ⟨rfl, -, -⟩ := Phase.attempt.inj hphase
      rw [best_after_of_rejected haccepted]
      exact h.equations _ _ _ htrial.phase
    · rw [best_after_of_rejected haccepted, trials_after]
      exact (Problem.retrace?_append_of_rejected haccepted).trans h.best
  | true =>
    -- Point, residuals and error move together; the equations are gone until the next Jacobian.
    refine ⟨?_, ?_, ?_, ?_, hexplains, hgrounds⟩
    · rw [best_after_of_accepted haccepted]
      exact htrial.residual_zero hp
    · rw [best_after_of_accepted haccepted]
      exact htrial.error
    · intro equations' damping' tried' hphase
      rw [phase_after_of_accepted haccepted] at hphase
      exact nomatch hphase
    · rw [best_after_of_accepted haccepted, trials_after]
      refine (Problem.retrace?_append_of_accepted haccepted).trans ?_
      rw [h.best]
      exact h.follow?_of_tried htrial hd

theorem Retraced.step (hp : p.IsPure) (h : s.Retraced p start) :
    (s.step p settings).state.Retraced p start := by
  have hmove := move_step p settings s
  generalize s.step p settings = a at hmove ⊢
  cases hmove with
  | @linearised damping jacobian points hphase hcalled =>
    refine h.append rfl rfl rfl ?_ ?_
    · intro x baseline points' hmem
      obtain ⟨rfl, rfl, -⟩ := Interaction.differentiate.inj (List.mem_singleton.mp hmem)
      exact ⟨rfl, rfl⟩
    · intro equations damping' tried hattempt
      obtain ⟨rfl, -, -⟩ := Phase.attempt.inj hattempt
      rw [hp.jacobianFrom] at hcalled
      exact Problem.equationsAt?_of_jacobianFrom h.residuals hcalled
  | stuck => exact h.append rfl rfl (List.append_nil _).symm nofun h.equations
  | failed hfailure => exact h.append rfl rfl rfl hfailure.eq_best h.equations
  | tried htrial hdecided =>
    rw [state_conclude]
    exact h.after hp htrial (damping_of_decideTrial hdecided)

/-! ## Nothing seen is better -/

/-- Nothing seen so far is better than the best point, nothing undefined was accepted, and the first
error is `first`. -/
structure Least (first : R) (s : State R) : Prop where
  /-- The first error. -/
  head : s.trace.errors.head? = some first
  /-- The first error is not below that of the best point. -/
  head_not_lt : ¬first < s.best.error
  /-- The error of no trial is below that of the best point. -/
  trial_not_lt : ∀ t ∈ s.trace.trials, ¬t.error < s.best.error
  /-- Whatever was accepted is defined. -/
  defined : ∀ t ∈ s.trace.trials, t.accepted = true → t.error ≤ t.error

variable [LawfulOrder R] {first : R}

theorem least_begin (settings : Settings R) (start : Visited R) :
    (State.begin settings start).state.Least start.error where
  head := by rw [trace_begin]; rfl
  head_not_lt := by rw [best_begin]; exact LawfulOrder.lt_irrefl _
  trial_not_lt t ht := by rw [trace_begin] at ht; exact absurd ht List.not_mem_nil
  defined t ht := by rw [trace_begin] at ht; exact absurd ht List.not_mem_nil

/-- A decision that follows the sign of the reduction keeps the best point best. -/
theorem Least.after (h : s.Least first) {equations : NormalEquations R} {d : Decision R}
    {tried : Nat} {step : List R} {reached : Visited R}
    (hd : d.accepted = true ↔ 0 < s.best.error - reached.error) :
    (s.after settings equations d tried step reached).Least first := by
  rw [LawfulOrder.sub_pos_iff] at hd
  cases haccepted : d.accepted with
  | false =>
    have hnot : ¬reached.error < s.best.error := fun hlt ↦
      Bool.false_ne_true (haccepted.symm.trans (hd.mpr hlt))
    refine ⟨?_, ?_, ?_, ?_⟩
    · rw [errors_after_of_rejected haccepted]
      exact h.head
    · rw [best_after_of_rejected haccepted]
      exact h.head_not_lt
    · rw [best_after_of_rejected haccepted, trials_after, List.forall_mem_append,
        List.forall_mem_singleton]
      exact ⟨h.trial_not_lt, hnot⟩
    · rw [trials_after, List.forall_mem_append, List.forall_mem_singleton]
      exact ⟨h.defined, fun htrue ↦ absurd (haccepted.symm.trans htrue) Bool.false_ne_true⟩
  | true =>
    have hlt := hd.mp haccepted
    refine ⟨?_, ?_, ?_, ?_⟩
    · rw [errors_after_of_accepted haccepted, List.head?_append, h.head]
      rfl
    · rw [best_after_of_accepted haccepted]
      exact LawfulOrder.not_lt_of_lt h.head_not_lt hlt
    · rw [best_after_of_accepted haccepted, trials_after, List.forall_mem_append,
        List.forall_mem_singleton]
      exact ⟨fun t ht ↦ LawfulOrder.not_lt_of_lt (h.trial_not_lt t ht) hlt,
        LawfulOrder.lt_irrefl _⟩
    · rw [trials_after, List.forall_mem_append, List.forall_mem_singleton]
      exact ⟨h.defined, fun _ ↦ (LawfulOrder.defined_of_lt hlt).1⟩

theorem Least.step (h : s.Least first) : (s.step p settings).state.Least first := by
  have hmove := move_step p settings s
  generalize s.step p settings = a at hmove ⊢
  cases hmove with
  | linearised | stuck | failed => exact ⟨h.head, h.head_not_lt, h.trial_not_lt, h.defined⟩
  | @tried _ _ _ _ reached _ _ hdecided =>
    have hs : ({ s with interactions := s.interactions ++ [.evaluate reached.point] } :
        State R).Least first := ⟨h.head, h.head_not_lt, h.trial_not_lt, h.defined⟩
    rw [state_conclude]
    exact hs.after (accepted_iff_of_decideTrial hdecided)

end State

/-! ## Solves -/

namespace Problem

/-- The point `x`, where the error is `e`, is the best of a course from `start`. -/
structure IsBest (p : Problem R) (start : List R) (t : Trace R) (x : List R) (e : R) : Prop where
  /-- The steps of the accepted trials lead there, one after another. -/
  retraced : p.retrace? start t.trials = some x
  /-- There are residuals with that error. -/
  errorAt : p.errorAt? x = some e
  /-- It is the last error. -/
  last_error : t.errors.getLast? = some e
  /-- The first error, which is that at the start, is not below it. -/
  start_not_lt : ∃ first, t.errors.head? = some first ∧ p.errorAt? start = some first ∧ ¬first < e
  /-- The error of no trial is below it. -/
  trial_not_lt : ∀ trial ∈ t.trials, ¬trial.error < e

variable {start : List R} {e : Ending} {s : State R}

theorem retraced_of_ends (hp : p.IsPure) (h : p.Ends settings start e s) : s.Retraced p start := by
  obtain ⟨residuals, hevaluated, hfinish⟩ := h
  exact Progress.invariant_of_finish (State.Retraced p start) (fun _ hs ↦ hs.step hp)
    (State.retraced_begin hevaluated) hfinish

variable [LawfulOrder R]

theorem least_of_ends {residuals : List R} (hevaluated : p.residual 0 start = .ok residuals)
    (h : p.Ends settings start e s) : s.Least (Linear.rms residuals) := by
  obtain ⟨residuals', hevaluated', hfinish⟩ := h
  obtain rfl := Except.ok.inj (hevaluated.symm.trans hevaluated')
  exact Progress.invariant_of_finish (State.Least (Linear.rms residuals)) (fun _ hs ↦ hs.step)
    (State.least_begin settings (.ofResiduals start residuals)) hfinish

theorem isBest_of_ends (hp : p.IsPure) (h : p.Ends settings start e s) :
    p.IsBest start s.trace s.best.point s.best.error := by
  obtain ⟨residuals, hevaluated, -⟩ := id h
  have hretraced := retraced_of_ends hp h
  have hleast := least_of_ends hevaluated h
  have hrecorded := recorded_of_ends (fun _ _ ↦ LawfulOrder.sub_pos_iff.mp) h
  refine ⟨hretraced.best, ?_, ?_, ?_, hleast.trial_not_lt⟩
  · rw [errorAt?_of_residual hretraced.residuals, hretraced.error]
  · rw [hrecorded.coherent.getLast?_errors, hrecorded.last_error]
  · exact ⟨_, hleast.head, errorAt?_of_residual hevaluated, hleast.head_not_lt⟩

omit [Scalar R] [LawfulOrder R] in
theorem differentiate_mem_of_mem_outcome {x baseline : List R} {points : List (List R)}
    (h : .differentiate x baseline points ∈ (p.outcome start e s).interactions) :
    .differentiate x baseline points ∈ s.interactions := by
  cases e with
  | illPosed | failed => exact h
  | finished =>
    rw [outcome, interactions_commit, List.mem_append] at h
    exact h.resolve_right fun hmem ↦ by cases List.mem_singleton.mp hmem

/-- **A solve that does not fail returns its best point.** If the residual function is pure then the
steps of the accepted trials lead from the start to the returned point, the last error is the error
there, and neither the first error nor that of any trial is below it. However the solve ends, every
error can be found again without it, no Jacobian was computed with stale residuals, and no trial
with an undefined error was accepted. -/
theorem best_of_solve (hp : p.IsPure) (hactive : p.active ≠ []) {o : Outcome R}
    (h : p.solve settings (some start) = some o) :
    (o.status = .converged ∨ o.status = .solutionRejected ∨ o.status = .illPosed →
      ∃ x e, o.point = some x ∧ p.IsBest start o.trace x e) ∧
    p.Explains start o.trace.trials ∧ p.Grounds start o.trace.trials o.interactions ∧
    ∀ t ∈ o.trace.trials, Scalar.IsUndefined t.error → t.accepted = false := by
  cases solved_of_solve h with
  | nothingActive hnone => exact absurd hnone hactive
  | unevaluated =>
    refine ⟨by simp, ?_, ?_, nofun⟩
    · intro before t after heq
      simp at heq
    · intro x baseline points hmem
      exact nomatch List.mem_singleton.mp hmem
  | @iterated _ e s _ hends =>
    obtain ⟨residuals, hevaluated, -⟩ := id hends
    have hretraced := retraced_of_ends hp hends
    have hleast := least_of_ends hevaluated hends
    rw [trace_outcome]
    refine ⟨fun hstatus ↦ ⟨s.best.point, s.best.error, ?_, isBest_of_ends hp hends⟩,
      hretraced.trials, fun x baseline points hmem ↦
        hretraced.baselines x baseline points (differentiate_mem_of_mem_outcome hmem), ?_⟩
    · cases e with
      | finished => exact point_commit p _ _ _ _
      | illPosed => rfl
      | failed fault => simp [outcome] at hstatus
    · intro t ht hundefined
      rw [← Bool.not_eq_true]
      exact fun haccepted ↦ hundefined (hleast.defined t ht haccepted)

open PartialRat in
/-- Before an undefined wall one step is accepted. It is the best, though two trials after it and
one before it were beyond the wall, and their errors are undefined. -/
theorem best_of_solve_wall :
    ∃ o, (wall (.ok [⟨none⟩])).solve wallSettings (some [0]) = some o ∧
      o.trace.trials.map Trial.error = [⟨none⟩, ofRat (3 / 2), ⟨none⟩, ⟨none⟩] ∧
      ∃ e, o.point = some [ofRat (3 / 2)] ∧
        (wall (.ok [⟨none⟩])).IsBest [0] o.trace [ofRat (3 / 2)] e := by
  obtain ⟨o, ho, htest⟩ := exists_solve_of_test (wall (.ok [⟨none⟩])) wallSettings [0]
    [ofRat (-3)] 6
    (fun o ↦ decide (o.status = .converged ∧ o.point = some [ofRat (3 / 2)] ∧
      o.trace.trials.map Trial.error = [⟨none⟩, ofRat (3 / 2), ⟨none⟩, ⟨none⟩]))
    (by decide) (by decide +kernel) (by decide +kernel)
  obtain ⟨hstatus, hpoint, herrors⟩ := of_decide_eq_true htest
  have hpure : (wall (.ok [⟨none⟩])).IsPure := fun _ _ ↦ rfl
  obtain ⟨x, e, hx, hbest⟩ := (best_of_solve hpure (by decide) ho).1 (Or.inl hstatus)
  obtain rfl := Option.some.inj (hx.symm.trans hpoint)
  exact ⟨o, ho, herrors, e, hpoint, hbest⟩

/-- **A solve that fails on its way returns its start.** The first error is that of the start, and
it is the last error exactly if no step was accepted. Otherwise the last error is smaller, and, if
the residual function is pure, it is that of a point which the course leads to and which is not
returned. -/
theorem start_of_solve_evaluationError {residuals : List R}
    (hevaluated : p.residual 0 start = .ok residuals) {o : Outcome R}
    (h : p.solve settings (some start) = some o) (hstatus : o.status = .evaluationError) :
    o.point = some start ∧ o.trace.errors.head? = some (Linear.rms residuals) ∧
      (o.trace.errors.getLast? = some (Linear.rms residuals) ↔ o.trace.updates = 0) ∧
      (o.trace.updates ≠ 0 →
        ∀ last, o.trace.errors.getLast? = some last → last < Linear.rms residuals) ∧
      (p.IsPure → ∃ x e, p.IsBest start o.trace x e) := by
  cases solved_of_solve h with
  | nothingActive =>
    rw [status_commit] at hstatus
    split at hstatus <;> cases hstatus
  | unevaluated _ hfault => cases hfault.symm.trans hevaluated
  | @iterated _ e s _ hends =>
    have hhead := (least_of_ends hevaluated hends).head
    have hcoherent := (recorded_of_ends (fun _ _ ↦ LawfulOrder.sub_pos_iff.mp) hends).coherent
    rw [trace_outcome]
    refine ⟨?_, hhead, ?_, fun hupdates last ↦ hcoherent.last_lt_head hupdates hhead,
      fun hp ↦ ⟨_, _, isBest_of_ends hp hends⟩⟩
    · cases e with
      | finished =>
        rw [outcome, status_commit] at hstatus
        split at hstatus <;> cases hstatus
      | illPosed => cases hstatus
      | failed fault => rfl
    · rw [← hhead]
      exact hcoherent.getLast?_eq_head?_iff

open PartialRat in
/-- Before a wall that fails one step is accepted, to half the error. The next one fails, and the
start is returned. -/
theorem start_of_solve_wall :
    ∃ o, (wall (.error (.raised .value "wall"))).solve cautiousSettings (some [0]) = some o ∧
      o.status = .evaluationError ∧ o.trace.errors = [ofRat 3, ofRat (3 / 2)] ∧
      o.trace.updates = 1 ∧ o.point = some [0] := by
  obtain ⟨o, ho, htest⟩ := exists_solve_of_test (wall (.error (.raised .value "wall")))
    cautiousSettings [0] [ofRat (-3)] 4
    (fun o ↦ decide (o.status = .evaluationError ∧ o.trace.errors = [ofRat 3, ofRat (3 / 2)] ∧
      o.trace.updates = 1))
    (by decide) (by decide +kernel) (by decide +kernel)
  obtain ⟨hstatus, herrors, hupdates⟩ := of_decide_eq_true htest
  have hevaluated : (wall (.error (.raised .value "wall"))).residual 0 [0] = .ok [ofRat (-3)] := by
    decide +kernel
  obtain ⟨hpoint, -⟩ := start_of_solve_evaluationError hevaluated ho hstatus
  exact ⟨o, ho, hstatus, herrors, hupdates, hpoint⟩

end Problem

end DampedLeastSquares
