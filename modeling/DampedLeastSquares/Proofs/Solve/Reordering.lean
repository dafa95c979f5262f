import DampedLeastSquares.Proofs.Solve.Relisting

/-!
# Solves with the variables in another order

Two solves of a problem that differ in the order of the active variables only go side by side. Their
equations are those of the same variables, each with its own column, and so both find the same step,
written down in two orders. From there on the order is out of sight: the step leads to the same
point, it has the same length, and what is decided about it is the same.

The order shows where the variables themselves are reported: those without effect are named in the
order of the list. A Jacobian that fails has gone through the variables in that order, so it may
have failed for another one, with another fault and after another number of calls; but it has failed
for both.

All this is about functions that answer by the point alone. One that answers by the number of the
call gives the same answers to whichever variables come first.
-/

namespace DampedLeastSquares

/-! ## States -/

/-- The same is to be done next for two lists of the variables of a point with so many entries. -/
inductive Phase.Relisted (active active' : List Nat) (width : Nat) : Phase ℝ → Phase ℝ → Prop
  /-- Both need a Jacobian. -/
  | linearise (damping : Option (Amount ℝ)) :
      Phase.Relisted active active' width (.linearise damping) (.linearise damping)
  /-- Both try a step, and the point has each variable that the step moves. -/
  | attempt {equations equations'} (relisted : equations.Relisted active active' equations')
      (within : ∀ var ∈ active, var < width) (damping : Amount ℝ) (tried : Nat) :
      Phase.Relisted active active' width (.attempt equations damping tried)
        (.attempt equations' damping tried)

/-- States that differ only in the order of the variables. -/
structure State.Relisted (active active' : List Nat) (s s' : State ℝ) : Prop where
  /-- The best points are the same. -/
  best : s.best = s'.best
  /-- The same is to be done next. -/
  phase : Phase.Relisted active active' s.best.point.length s.phase s'.phase
  /-- The courses are the same. -/
  trace : s.trace = s'.trace
  /-- The problem has been used in the same way. -/
  interactions : List.Forall₂ Interaction.Alike s.interactions s'.interactions
  /-- The same has been reported. -/
  records : s.records = s'.records

/-- Ends of two iterations: the same one, or ill-posed equations with the same variables without
effect, or a Jacobian that could not be computed. -/
inductive Ending.Relisted (active active' : List Nat) : Ending × State ℝ → Ending × State ℝ → Prop
  /-- The iterations have ended in the same way. -/
  | same {e s s'} (relisted : State.Relisted active active' s s') :
      Ending.Relisted active active' (e, s) (e, s')
  /-- The equations could not be used. -/
  | illPosed {s s'} (relisted : State.Relisted active active' s s') {still still' : List Nat}
      (perm : still.Perm still') :
      Ending.Relisted active active'
        (.illPosed, { s with
          records := s.records ++ still.map Record.unresponsive ++ [.illPosed] })
        (.illPosed, { s' with
          records := s'.records ++ still'.map Record.unresponsive ++ [.illPosed] })
  /-- A Jacobian could not be computed. -/
  | jacobian {s s' fault fault' points points'} (relisted : State.Relisted active active' s s') :
      Ending.Relisted active active'
        (.failed fault, { s with interactions :=
          s.interactions ++ [.differentiate s.best.point s.best.residuals points] })
        (.failed fault', { s' with interactions :=
          s'.interactions ++ [.differentiate s'.best.point s'.best.residuals points'] })

/-! ## Steps side by side -/

namespace State.Relisted

variable {p : Problem ℝ} {active : List Nat} {settings : Settings ℝ} {s s' : State ℝ}

section

variable {active' : List Nat}

theorem tell (h : s.Relisted active active' s') {i i' : Interaction ℝ} (hi : i.Alike i') :
    List.Forall₂ Interaction.Alike (s.interactions ++ [i]) (s'.interactions ++ [i']) :=
  List.rel_append h.interactions (.cons hi .nil)

theorem traceAfter (h : s.Relisted active active' s') (d : Decision ℝ) (reached : Visited ℝ) :
    s.traceAfter d reached = s'.traceAfter d reached := by
  rw [State.traceAfter, State.traceAfter, h.best, h.trace]

theorem bestAfter (h : s.Relisted active active' s') (d : Decision ℝ) (reached : Visited ℝ) :
    s.bestAfter d reached = s'.bestAfter d reached := by
  rw [State.bestAfter, State.bestAfter, h.best]

variable {step step' : List ℝ}

theorem finalAfter (h : s.Relisted active active' s') (d : Decision ℝ) (tried : Nat)
    (hsteps : step.Perm step') (reached : Visited ℝ) :
    s.finalAfter settings d tried step reached = s'.finalAfter settings d tried step' reached := by
  simp only [State.finalAfter, h.traceAfter, h.bestAfter, stepRatio_of_perm hsteps]

theorem recordsAfter (h : s.Relisted active active' s') (d : Decision ℝ) (tried : Nat)
    (hsteps : step.Perm step') (reached : Visited ℝ) :
    s.recordsAfter settings d tried step reached
      = s'.recordsAfter settings d tried step' reached := by
  simp only [State.recordsAfter, h.traceAfter, h.bestAfter, h.finalAfter d tried hsteps, h.records,
    stepRatio_of_perm hsteps]

variable {equations equations' : NormalEquations ℝ}

theorem after (h : s.Relisted active active' s')
    (hequations : equations.Relisted active active' equations')
    (hwithin : ∀ var ∈ active, var < s.best.point.length) (d : Decision ℝ) (tried : Nat)
    (hsteps : step.Perm step') (reached : Visited ℝ) :
    (s.after settings equations d tried step reached).Relisted active active'
      (s'.after settings equations' d tried step' reached) := by
  refine ⟨h.bestAfter d reached, ?_, h.traceAfter d reached, h.interactions,
    h.recordsAfter d tried hsteps reached⟩
  simp only [State.after, State.bestAfter]
  cases d.accepted with
  | true => exact .linearise _
  | false => exact .attempt hequations hwithin _ _

theorem conclude (h : s.Relisted active active' s')
    (hequations : equations.Relisted active active' equations')
    (hwithin : ∀ var ∈ active, var < s.best.point.length) (d : Decision ℝ) (tried : Nat)
    (hsteps : step.Perm step') (reached : Visited ℝ) :
    Progress.Related (State.Relisted active active') (Ending.Relisted active active')
      (s.conclude settings equations d tried step reached)
      (s'.conclude settings equations' d tried step' reached) := by
  have hafter : (s.after settings equations d tried step reached).Relisted active active'
      (s'.after settings equations' d tried step' reached) :=
    h.after hequations hwithin d tried hsteps reached
  rw [State.conclude, State.conclude, h.finalAfter d tried hsteps]
  split
  · exact .ended (.same hafter)
  · exact .running hafter

theorem judge (h : s.Relisted active active' s')
    (hequations : equations.Relisted active active' equations')
    (hwithin : ∀ var ∈ active, var < s.best.point.length) (damping : Amount ℝ) (tried : Nat)
    (hsteps : step.Perm step') (reached : Visited ℝ) :
    Progress.Related (State.Relisted active active') (Ending.Relisted active active')
      (s.judge settings equations damping tried step reached)
      (s'.judge settings equations' damping tried step' reached) := by
  rw [State.judge, State.judge, ← h.best, decideTrial_eq settings.eta equations equations']
  split
  · exact .ended (.same h)
  · exact h.conclude hequations hwithin _ tried hsteps reached

end

variable (hperm : active.Perm p.active)

theorem linearise (hp : p.IsPure) (h : s.Relisted p.active active s')
    (damping : Option (Amount ℝ)) :
    Progress.Related (State.Relisted p.active active) (Ending.Relisted p.active active)
      (s.linearise p damping) (s'.linearise (p.relist hperm) damping) := by
  have hcalled : (p.jacobianFrom (callCount s.interactions) s.best.point
      (Tensor.ofList s.best.residuals)).Relisted p.active active
        ((p.relist hperm).jacobianFrom (callCount s'.interactions) s'.best.point
          (Tensor.ofList s'.best.residuals)) := by
    rw [← h.best]
    exact p.jacobianFrom_relisted hperm hp _ _ _ _
  have hwithin : ∀ points j, p.jacobianFrom (callCount s.interactions) s.best.point
      (Tensor.ofList s.best.residuals) = ⟨points, .ok j⟩ →
        ∀ var ∈ p.active, var < s.best.point.length :=
    fun _ _ ↦ hp.lt_length_of_jacobianFrom
  rw [State.linearise, State.linearise]
  generalize p.jacobianFrom _ _ _ = called at hcalled hwithin ⊢
  generalize (p.relist hperm).jacobianFrom _ _ _ = called' at hcalled ⊢
  cases hcalled with
  | error => exact .ended (.jacobian h)
  | @ok conditions points points' column hpoints =>
    have hequations : NormalEquations.Relisted p.active active
        (Jacobian.normalEquations ⟨conditions, p.active.map column⟩ s.best.residuals)
        (Jacobian.normalEquations ⟨conditions, active.map column⟩ s'.best.residuals) := by
      rw [← h.best]
      exact .of_columns conditions column s.best.residuals
    have hinteraction : (Interaction.differentiate s.best.point s.best.residuals points).Alike
        (.differentiate s'.best.point s'.best.residuals points') := by
      rw [← h.best]
      exact .differentiate hpoints
    refine .running ⟨h.best, ?_, h.trace, h.tell hinteraction, ?_⟩
    · dsimp only
      rw [hequations.initialDamping hperm]
      exact .attempt hequations (hwithin _ _ rfl) _ 0
    · dsimp only
      rw [h.records, p.reportJacobian_relist hperm]

theorem stuck (h : s.Relisted p.active active s') {still still' : List Nat}
    (hstill : (still.map (p.active.getD · 0)).Perm (still'.map (active.getD · 0))) :
    Ending.Relisted p.active active
      (.illPosed, { s with
        records := s.records ++ still.map (fun i ↦ Record.unresponsive (p.active.getD i 0)) ++
          [.illPosed] })
      (.illPosed, { s' with
        records := s'.records ++ still'.map (fun i ↦ Record.unresponsive (active.getD i 0)) ++
          [.illPosed] }) := by
  have hended := Ending.Relisted.illPosed h hstill
  rwa [List.map_map, List.map_map] at hended

theorem attempt (hp : p.IsPure) (h : s.Relisted p.active active s')
    {equations equations' : NormalEquations ℝ}
    (hequations : equations.Relisted p.active active equations')
    (hwithin : ∀ var ∈ p.active, var < s.best.point.length) (damping : Amount ℝ) (tried : Nat) :
    Progress.Related (State.Relisted p.active active) (Ending.Relisted p.active active)
      (s.attempt p settings equations damping tried)
      (s'.attempt (p.relist hperm) settings equations' damping tried) := by
  have hstill := hequations.unresponsive hperm
  rw [State.attempt, State.attempt]
  cases damping.read with
  | error fault => exact .ended (.same h)
  | ok a =>
    obtain ⟨hnone, hsome⟩ := hequations.step? hperm p.active_nodup a
    dsimp only
    cases hresponsive : equations.unresponsive with
    | cons i rest =>
      rw [hresponsive] at hstill
      cases hresponsive' : equations'.unresponsive with
      | nil =>
        rw [hresponsive'] at hstill
        cases hstill.length_eq
      | cons i' rest' =>
        rw [hresponsive'] at hstill
        exact .ended (h.stuck hstill)
    | nil =>
      rw [hresponsive] at hstill
      have hresponsive' : equations'.unresponsive = [] :=
        List.map_eq_nil_iff.mp hstill.symm.eq_nil
      rw [hresponsive']
      cases hstep : equations.step? a with
      | none =>
        rw [hnone hstep]
        exact .ended (h.stuck .nil)
      | some step =>
        obtain ⟨d, rfl, hstep'⟩ := hsome step hstep
        have happly : (p.relist hperm).applyUpdate s'.best.point (active.map d)
            = p.applyUpdate s.best.point (p.active.map d) := by
          rw [← h.best]
          exact Problem.applyUpdate_relist hperm hwithin d
        rw [hstep']
        dsimp only
        rw [happly]
        cases p.applyUpdate s.best.point (p.active.map d) with
        | error fault => exact .ended (.same h)
        | ok point =>
          have hresidual : (p.relist hperm).residual (callCount s'.interactions) point
              = p.residual (callCount s.interactions) point :=
            (hp _ point).trans (hp _ point).symm
          have hs : ({ s with interactions := s.interactions ++ [.evaluate point] } :
              State ℝ).Relisted p.active active
                { s' with interactions := s'.interactions ++ [.evaluate point] } :=
            ⟨h.best, h.phase, h.trace, h.tell (.refl _), h.records⟩
          dsimp only
          rw [hresidual]
          cases p.residual (callCount s.interactions) point with
          | error fault => exact .ended (.same hs)
          | ok residuals =>
            exact hs.judge hequations hwithin damping tried (hperm.symm.map d) _

/-- **Steps of solves that differ in the order of the variables have the same result.** -/
theorem step (hp : p.IsPure) (h : s.Relisted p.active active s') :
    Progress.Related (State.Relisted p.active active) (Ending.Relisted p.active active)
      (s.step p settings) (s'.step (p.relist hperm) settings) := by
  obtain ⟨best, phase, trace, interactions, records⟩ := s
  obtain ⟨best', phase', trace', interactions', records'⟩ := s'
  cases h.phase with
  | linearise damping => exact h.linearise hperm hp damping
  | attempt hequations hwithin damping tried =>
    exact h.attempt hperm hp hequations hwithin damping tried

end State.Relisted

/-! ## Solves side by side -/

/-- Outcomes that differ only in what the order of the variables has a bearing on. -/
inductive Outcome.Relisted : Outcome ℝ → Outcome ℝ → Prop
  /-- The same has been told, except for the order of the calls for a Jacobian. -/
  | same {status point trace interactions interactions' records}
      (used : List.Forall₂ Interaction.Alike interactions interactions') :
      Outcome.Relisted ⟨status, point, trace, interactions, records⟩
        ⟨status, point, trace, interactions', records⟩
  /-- Of ill-posed equations the variables without effect are reported in another order. -/
  | illPosed {point trace interactions interactions' records} {still still' : List Nat}
      (used : List.Forall₂ Interaction.Alike interactions interactions')
      (perm : still.Perm still') :
      Outcome.Relisted
        ⟨.illPosed, point, trace, interactions,
          records ++ still.map Record.unresponsive ++ [.illPosed]⟩
        ⟨.illPosed, point, trace, interactions',
          records ++ still'.map Record.unresponsive ++ [.illPosed]⟩
  /-- The same has been told up to a Jacobian that could not be computed. Of this Jacobian the calls
  and the fault may differ. -/
  | jacobian {point trace before before' x baseline points points' records fault fault'}
      (used : List.Forall₂ Interaction.Alike before before') :
      Outcome.Relisted
        ⟨.evaluationError, point, trace, before ++ [.differentiate x baseline points],
          records ++ [.caught fault]⟩
        ⟨.evaluationError, point, trace, before' ++ [.differentiate x baseline points'],
          records ++ [.caught fault']⟩

namespace Outcome.Relisted

variable {o o' : Outcome ℝ}

theorem refl (o : Outcome ℝ) : o.Relisted o := .same (forall₂_alike_refl o.interactions)

theorem status (h : o.Relisted o') : o.status = o'.status := by cases h <;> rfl

theorem point (h : o.Relisted o') : o.point = o'.point := by cases h <;> rfl

theorem trace (h : o.Relisted o') : o.trace = o'.trace := by cases h <;> rfl

theorem committed (h : o.Relisted o') : o.committed = o'.committed := by
  cases h with
  | same hused => exact committed_eq_of_forall₂ hused
  | illPosed hused => exact committed_eq_of_forall₂ hused
  | jacobian =>
    rw [Outcome.committed, Outcome.committed, List.getLast?_concat, List.getLast?_concat]

end Outcome.Relisted

namespace Problem

variable {p : Problem ℝ} {active : List Nat} (hperm : active.Perm p.active)
  {settings : Settings ℝ}

theorem begin_relisted (active active' : List Nat) (settings : Settings ℝ) (start : Visited ℝ) :
    Progress.Related (State.Relisted active active') (Ending.Relisted active active')
      (State.begin settings start) (State.begin settings start) := by
  have hphase := State.phase_begin settings start
  have hrefl : (State.begin settings start).state.Relisted active active'
      (State.begin settings start).state := by
    refine ⟨rfl, ?_, rfl, forall₂_alike_refl _, rfl⟩
    rw [hphase]
    exact .linearise _
  generalize State.begin settings start = begun at hrefl
  cases begun with
  | running s => exact .running hrefl
  | ended e s => exact .ended (.same hrefl)

theorem commit_relisted {s s' : State ℝ} (h : s.Relisted p.active active s') :
    (p.commit s.best.point s.trace s.interactions s.records).Relisted
      ((p.relist hperm).commit s'.best.point s'.trace s'.interactions s'.records) := by
  rw [commit, commit, h.best, h.trace, h.records]
  change Outcome.Relisted _ (if p.accepts s'.best.point then _ else _)
  split
  · exact .same (h.tell (.refl _))
  · exact .same (h.tell (.refl _))

theorem outcome_relisted (start : List ℝ) {r r' : Ending × State ℝ}
    (h : Ending.Relisted p.active active r r') :
    (p.outcome start r.1 r.2).Relisted ((p.relist hperm).outcome start r'.1 r'.2) := by
  cases h with
  | jacobian hs =>
    simp only [outcome, hs.best, hs.trace, hs.records]
    exact .jacobian hs.interactions
  | illPosed hs hstill =>
    simp only [outcome, hs.best, hs.trace, hs.records]
    exact .illPosed hs.interactions hstill
  | @same e s s' hs =>
    cases e with
    | finished => exact commit_relisted hperm hs
    | illPosed =>
      simp only [outcome, hs.best, hs.trace, hs.records]
      exact .same hs.interactions
    | failed fault =>
      simp only [outcome, hs.trace, hs.records]
      exact .same hs.interactions

/-- **Where a solve has an outcome, it has one for every order of the variables.** -/
theorem IsPure.exists_solve_relisted (hp : p.IsPure) {start : Option (List ℝ)} {o : Outcome ℝ}
    (h : p.solve settings start = some o) :
    ∃ o', (p.relist hperm).solve settings start = some o' ∧ o.Relisted o' := by
  have hactive : (p.relist hperm).active = [] ↔ p.active = [] :=
    ⟨fun hnil ↦ (hnil ▸ hperm.symm : p.active.Perm []).eq_nil,
      fun hnil ↦ (hnil ▸ hperm : active.Perm []).eq_nil⟩
  refine exists_solve_of_related hactive (fun _ ↦ rfl) rfl Outcome.Relisted.refl
    (begin_relisted p.active active settings) (fun _ _ hs ↦ hs.step hperm hp) ?_ h
  intro start e s e' s' hended
  exact outcome_relisted hperm start hended

end Problem

/-- **The order of the active variables does not matter.** In every order a Jacobian of a pure
function has the same columns, each where its variable stands, or cannot be computed. A solve
returns the same status, the same point and the same course, and commits the same solution, or goes
on for ever. What the order has a bearing on is the order of the calls for a Jacobian, and of the
variables without effect where they are reported; and if a Jacobian fails, then its calls and the
fault that is reported. -/
theorem relisted_of_jacobian_and_solve :
    (∀ (p : Problem ℝ) (active : List Nat) (hperm : active.Perm p.active),
      (∀ (P : Type) (move : Int → Except Fault P) (f : Nat → P → Except Fault (List ℝ)),
        (∀ n x, f n x = f 0 x) →
        (∀ calls calls' baseline, (p.jacobianBy move f calls baseline).Relisted p.active active
          ((p.relist hperm).jacobianBy move f calls' baseline)) ∧
        ∀ x, (p.jacobianAt move f x).Relisted p.active active
          ((p.relist hperm).jacobianAt move f x)) ∧
      (p.IsPure → ∀ settings start,
        (p.solve settings start = none → (p.relist hperm).solve settings start = none) ∧
        ∀ o, p.solve settings start = some o →
          ∃ o', (p.relist hperm).solve settings start = some o' ∧ o.status = o'.status ∧
            o.point = o'.point ∧ o.trace = o'.trace ∧ o.committed = o'.committed ∧
            o.Relisted o')) ∧
    ∀ (m m₁ : FunctionModel ℝ) (indices indices' : List Number), m.problem.IsPure →
      indices'.Perm indices → m.setActive? indices = .ok (some m₁) →
      ∃ m₂, m.setActive? indices' = .ok (some m₂) ∧
        ∀ settings start o n₁, m₁.solve settings start = some (o, n₁) →
          ∃ o' n₂, m₂.solve settings start = some (o', n₂) ∧ o.Relisted o' ∧
            n₁.solution = n₂.solution := by
  constructor
  · intro p active hperm
    constructor
    · intro P move f hf
      exact ⟨fun _ _ _ ↦ p.jacobianBy_relisted hperm hf _ _ _,
        fun x ↦ p.jacobianAt_relisted hperm hf x⟩
    · intro hp settings start
      constructor
      · intro hnone
        -- The first order is another order of the second one.
        by_contra hsome
        obtain ⟨o', ho'⟩ := Option.ne_none_iff_exists'.mp hsome
        obtain ⟨o, ho, -⟩ :=
          Problem.IsPure.exists_solve_relisted (p := p.relist hperm) hperm.symm hp ho'
        exact nomatch hnone.symm.trans ho
      · intro o ho
        obtain ⟨o', ho', hrelisted⟩ := hp.exists_solve_relisted hperm ho
        exact ⟨o', ho', hrelisted.status, hrelisted.point, hrelisted.trace, hrelisted.committed,
          hrelisted⟩
  · intro m m₁ indices indices' hp hindices hset
    obtain ⟨problem, hproblem, rfl⟩ := FunctionModel.exists_of_setActive? hset
    obtain ⟨active, hperm, hrelist⟩ := Problem.exists_relist_of_setActive? hindices hproblem
    let m₂ : FunctionModel ℝ := { m with problem := problem.relist hperm }
    refine ⟨m₂, ?_, fun settings start o n₁ h ↦ ?_⟩
    · rw [FunctionModel.setActive?, hrelist]
      rfl
    · obtain ⟨_, hsolve, heq⟩ := Option.map_eq_some_iff.mp h
      obtain ⟨rfl, rfl⟩ := Prod.mk.inj heq
      have hpure : problem.IsPure := by
        obtain ⟨_, _, _, rfl⟩ := Problem.exists_of_setActive? hproblem
        exact hp
      obtain ⟨o', ho', hrelisted⟩ := hpure.exists_solve_relisted hperm hsolve
      have hsolution : FunctionModel.solution { m with problem } = m₂.solution := rfl
      exact ⟨o', m₂.afterSolve o', Option.map_eq_some_iff.mpr ⟨o', ho', rfl⟩, hrelisted,
        FunctionModel.solution_afterSolve hsolution hrelisted.committed⟩

namespace Problem

theorem perm_active_blind : [1, 0].Perm blind.active := .swap 0 1 []

/-- In either order the variable that matters has a column with a one. -/
theorem relisted_blind :
    (∃ points, blind.jacobian [0, 0] = ⟨points, .ok ⟨1, [[1], [0]]⟩⟩) ∧
    (∃ points, (blind.relist perm_active_blind).jacobian [0, 0]
      = ⟨points, .ok ⟨1, [[0], [1]]⟩⟩) ∧
    ∃ o o', blind.solve blindSettings (some [0, 0]) = some o ∧
      (blind.relist perm_active_blind).solve blindSettings (some [0, 0]) = some o' ∧
      o.status = o'.status ∧ o.point = o'.point ∧ o.trace = o'.trace ∧
      o.committed = o'.committed := by
  obtain ⟨hproblem, -⟩ := relisted_of_jacobian_and_solve
  obtain ⟨hjacobian, hsolve⟩ := hproblem blind [1, 0] perm_active_blind
  have hfirst : ∃ points, blind.jacobian [0, 0] = ⟨points, .ok ⟨1, [[1], [0]]⟩⟩ := by
    have hcolumns : blind.jacobian [0, 0] = ⟨[[0, 0], [0 + 1, 0], [0, 0 + 1]],
        .ok ⟨1, [[(0 + 1 - 0) / 1], [(0 - 0) / 1]]⟩⟩ := rfl
    rw [hcolumns]
    norm_num
  refine ⟨hfirst, ?_, ?_⟩
  · obtain ⟨-, hat⟩ := hjacobian (List ℝ) (moveEntry [0, 0] · blind.diffStep.read) blind.residual
      fun _ _ ↦ rfl
    have hrelisted : (blind.jacobian [0, 0]).Relisted [0, 1] [1, 0]
        ((blind.relist perm_active_blind).jacobian [0, 0]) := hat [0, 0]
    obtain ⟨points, hcolumns⟩ := hfirst
    rw [hcolumns] at hrelisted
    generalize (blind.relist perm_active_blind).jacobian [0, 0] = called at hrelisted ⊢
    generalize hj : (⟨1, [[1], [0]]⟩ : Jacobian ℝ) = j at hrelisted
    cases hrelisted with
    | ok column =>
      simp only [Jacobian.mk.injEq, List.map_cons, List.map_nil, List.cons.injEq] at hj ⊢
      obtain ⟨rfl, h0, h1, -⟩ := hj
      exact ⟨_, by rw [h0, h1]⟩
  · obtain ⟨o, ho⟩ : ∃ o, blind.solve blindSettings (some [0, 0]) = some o :=
      exists_solve rfl blind (some [0, 0])
    obtain ⟨-, hsome⟩ := hsolve (fun _ _ ↦ rfl) blindSettings (some [0, 0])
    obtain ⟨o', ho', hstatus, hpoint, htrace, hcommitted, -⟩ := hsome o ho
    exact ⟨o, o', ho, ho', hstatus, hpoint, htrace, hcommitted⟩

/-! ## Where the order shows -/

/-- A function that fails away from the start, and tells where. -/
noncomputable def alarmed : Problem ℝ :=
  { blind with
    residual := fun _ x ↦
      if x.getD 0 0 ≠ 0 then .error (.raised .value "first")
      else if x.getD 1 0 ≠ 0 then .error (.raised .value "second")
      else .ok [1] }

/-- A function that counts its calls. -/
noncomputable def counting : Problem ℝ := { blind with residual := fun n _ ↦ .ok [(n : ℝ)] }

/-- A Jacobian that fails for the variable that comes first fails with its fault. -/
theorem jacobianFrom_alarmed {i j : Nat} (hperm : [i, j].Perm alarmed.active) {point : List ℝ}
    {fault : Fault} (hmove : moveEntry [0, 0] i (.ok (1 : ℝ)) = .ok point)
    (hresidual : alarmed.residual 1 point = .error fault) :
    (alarmed.relist hperm).jacobianFrom 1 [0, 0] (Tensor.ofList [1])
      = ⟨[point], .error fault⟩ := by
  have hfirst : Jacobian.differentiate alarmed.residual (moveEntry [0, 0] · (.ok 1))
      (Tensor.ofList [1]) 1 1 ⟨0, i, none⟩ = ⟨[point], .error fault⟩ := by
    simp only [Jacobian.differentiate, hmove, hresidual, Except.bind]
  have hrun : Jacobian.runWorkers alarmed.residual (moveEntry [0, 0] · (.ok 1))
      (Tensor.ofList [1]) 1 [[⟨0, i, none⟩, ⟨1, j, none⟩]] 1 [[0], [0]]
        = ⟨[point], .error fault⟩ := by
    simp only [Jacobian.runWorkers, Jacobian.runWorker, hfirst, List.append_nil]
  exact congrArg (fun run ↦ Called.mk run.points
    (run.outcome.map fun columns ↦ (⟨1, columns⟩ : Jacobian ℝ))) hrun

theorem exists_solve_of_jacobianFrom_error {p : Problem ℝ} {settings : Settings ℝ}
    (hverbose : settings.verbose = false) (hactive : p.active ≠ [])
    {start residuals : List ℝ} (hevaluated : p.residual 0 start = .ok residuals)
    {points : List (List ℝ)} {fault : Fault}
    (hcalled : p.jacobianFrom 1 start (Tensor.ofList residuals) = ⟨points, .error fault⟩) :
    ∃ o, p.solve settings (some start) = some o ∧ o.status = .evaluationError ∧
      o.records = [.caught fault] := by
  let s : State ℝ := State.initial settings (.ofResiduals start residuals)
  let failed : State ℝ :=
    { s with interactions := s.interactions ++ [.differentiate start residuals points] }
  have hcalled' : p.jacobianFrom (callCount s.interactions) s.best.point
      (Tensor.ofList s.best.residuals) = ⟨points, .error fault⟩ := hcalled
  have hstep : s.step p settings = .ended (.failed fault) failed := by
    have hphase : s.step p settings = s.linearise p settings.initialDamping := rfl
    rw [hphase, State.linearise, hcalled']
    rfl
  have hrun : s.run p settings = some (.failed fault, failed) := by
    rw [State.run_eq_finish, hstep]
    rfl
  have hbegin : State.begin settings (.ofResiduals start residuals) = .running s := by
    rw [State.begin, hverbose, if_neg Bool.false_ne_true]
  refine ⟨p.outcome start (.failed fault) failed, ?_, rfl, rfl⟩
  rw [solve, if_neg (by rwa [List.isEmpty_iff]), iterate, hevaluated]
  simp only [hbegin, Progress.finish, hrun, Option.map_some]

/-- What else is told depends on the order. The fault that is reported is that of the variable that
comes first. And a function that counts its calls is not pure: the first column is one and the
second is two, whichever variable comes first. -/
theorem order_matters_to_alarmed_and_counting :
    (alarmed.IsPure ∧
      ∃ o o', alarmed.solve blindSettings (some [0, 0]) = some o ∧
        (alarmed.relist perm_active_blind).solve blindSettings (some [0, 0]) = some o' ∧
        o.records = [.caught (.raised .value "first")] ∧
        o'.records = [.caught (.raised .value "second")]) ∧
    (counting.jacobian [0, 0]).outcome = .ok ⟨1, [[1], [2]]⟩ ∧
    ((counting.relist perm_active_blind).jacobian [0, 0]).outcome = .ok ⟨1, [[1], [2]]⟩ := by
  refine ⟨⟨fun _ _ ↦ rfl, ?_⟩, ?_, ?_⟩
  · have hverbose : blindSettings.verbose = false := rfl
    have hevaluated : alarmed.residual 0 [0, 0] = .ok [1] := by simp [alarmed]
    have hfirst : alarmed.residual 1 [0 + 1, 0] = .error (.raised .value "first") := by
      simp [alarmed]
    have hsecond : alarmed.residual 1 [0, 0 + 1] = .error (.raised .value "second") := by
      simp [alarmed]
    obtain ⟨o, ho, -, hrecords⟩ := exists_solve_of_jacobianFrom_error (p := alarmed) hverbose
      (List.cons_ne_nil 0 [1]) hevaluated (jacobianFrom_alarmed (.refl [0, 1]) rfl hfirst)
    obtain ⟨o', ho', -, hrecords'⟩ := exists_solve_of_jacobianFrom_error
      (p := alarmed.relist perm_active_blind) hverbose (List.cons_ne_nil 1 [0]) hevaluated
      (jacobianFrom_alarmed perm_active_blind rfl hsecond)
    exact ⟨o, o', ho, ho', hrecords, hrecords'⟩
  · have hcolumns : (counting.jacobian [0, 0]).outcome
        = .ok ⟨1, [[((1 : ℕ) - (0 : ℕ)) / 1], [((2 : ℕ) - (0 : ℕ)) / 1]]⟩ := rfl
    rw [hcolumns]
    norm_num
  · have hcolumns : ((counting.relist perm_active_blind).jacobian [0, 0]).outcome
        = .ok ⟨1, [[((1 : ℕ) - (0 : ℕ)) / 1], [((2 : ℕ) - (0 : ℕ)) / 1]]⟩ := rfl
    rw [hcolumns]
    norm_num

end Problem

end DampedLeastSquares
