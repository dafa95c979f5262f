import DampedLeastSquares.Bundle.Adjustment
import DampedLeastSquares.Problem.FunctionModel
import DampedLeastSquares.Proofs.Jacobian.Distribution
import DampedLeastSquares.Proofs.Jacobian.Schedule
import DampedLeastSquares.Proofs.Solve.Run

/-!
# The number of workers

Two solves of a problem that differ in the number of workers only go side by side. Each Jacobian is
the same matrix, computed with the same calls in another order, and so is everything that is made of
it. Of a Jacobian that fails neither the fault nor the number of calls need be the same. But it is
the last thing that happens in a solve, and all that is told of the fault is a record.

The number of workers itself is told: the record of a Jacobian names it. Nothing else that is told
while the Jacobians succeed depends on it, other than the order of the calls.
-/

namespace DampedLeastSquares

variable {P R : Type}

/-- What came of the same calls in another order: the same result with the same points, or two
faults. -/
inductive Called.Alike {α : Type} : Called P α → Called P α → Prop
  /-- Both have the result. -/
  | ok {a points points'} (perm : List.Perm points points') :
      Called.Alike ⟨points, .ok a⟩ ⟨points', .ok a⟩
  /-- Both have a fault. -/
  | error {fault fault' points points'} :
      Called.Alike ⟨points, .error fault⟩ ⟨points', .error fault'⟩

theorem Called.Alike.map {α β : Type} {c c' : Called P α} (h : c.Alike c') (g : α → β) :
    Called.Alike ⟨c.points, c.outcome.map g⟩ ⟨c'.points, c'.outcome.map g⟩ := by
  cases h with
  | ok hperm => exact .ok hperm
  | error => exact .error

variable [Scalar R]

namespace Jacobian

section

variable {f : Nat → P → Except Fault (List R)} {move : Int → Except Fault P} {baseline : Tensor R}
  {h : R} {work log : List Slice}

theorem place_comm {s t : Slice} (hne : s.column ≠ t.column) (matrix : List (List R)) :
    place f move baseline h (place f move baseline h matrix s) t
      = place f move baseline h (place f move baseline h matrix t) s := by
  simp only [place]
  cases (differentiate f move baseline h 0 s).outcome with
  | error fault => rfl
  | ok column =>
    cases (differentiate f move baseline h 0 t).outcome with
    | error fault => rfl
    | ok column' => exact List.set_comm column column' hne

theorem fill_eq_of_perm (hperm : log.Perm work) (hnodup : (work.map Slice.column).Nodup)
    (matrix : List (List R)) :
    fill f move baseline h matrix log = fill f move baseline h matrix work := by
  have hcolumns : (log.map Slice.column).Nodup := (hperm.map _).nodup_iff.mpr hnodup
  refine hperm.foldl_eq' (fun s hs t ht matrix ↦ ?_) matrix
  by_cases hcolumn : s.column = t.column
  · rw [List.inj_on_of_nodup_map hcolumns hs ht hcolumn]
  · exact place_comm hcolumn matrix

theorem Ran.alike {works works' : List Slice} {matrix : List (List R)}
    {called called' : Called P (List (List R))} (hran : Ran f move baseline h works matrix called)
    (hran' : Ran f move baseline h works' matrix called') (hperm : works.Perm works')
    (hnodup : (works'.map Slice.column).Nodup) : called.Alike called' := by
  have hnone : firstFault f move baseline h works = none ↔
      firstFault f move baseline h works' = none := by
    simp only [firstFault_eq_none_iff, hperm.mem_iff]
  obtain ⟨points, outcome⟩ := called
  obtain ⟨points', outcome'⟩ := called'
  cases hfirst : firstFault f move baseline h works with
  | some fault =>
    cases hfirst' : firstFault f move baseline h works' with
    | some fault' =>
      obtain rfl : outcome = .error fault := hran.fault fault hfirst
      obtain rfl : outcome' = .error fault' := hran'.fault fault' hfirst'
      exact .error
    | none => exact nomatch (hnone.mpr hfirst').symm.trans hfirst
  | none =>
    obtain ⟨log, hlog, houtcome, hpoints⟩ := hran.filled hfirst
    obtain ⟨log', hlog', houtcome', hpoints'⟩ := hran'.filled (hnone.mp hfirst)
    have hlogs : log.Perm log' := (hlog.trans hperm).trans hlog'.symm
    have hnodup' : (log'.map Slice.column).Nodup := (hlog'.map _).nodup_iff.mpr hnodup
    obtain rfl : outcome = .ok _ := houtcome
    obtain rfl : outcome' = .ok _ := houtcome'
    obtain rfl : points = _ := hpoints
    obtain rfl : points' = _ := hpoints'
    rw [fill_eq_of_perm hlogs hnodup' matrix]
    exact .ok (hlogs.flatMap_right _)

/-- **Jacobians of a pure function that differ in the number of workers are alike.** -/
theorem computeBy_alike (hf : ∀ n x, f n x = f 0 x) (calls calls' : Nat) (active : List Int)
    (w w' : Workers) (pattern : Option (Tensor Bool)) :
    (computeBy move f calls baseline active h (.ok w) pattern).Alike
      (computeBy move f calls' baseline active h (.ok w') pattern) := by
  simp only [computeBy, Except.bind, slices]
  cases hwork : sliceList active pattern with
  | error fault => exact .error
  | ok work =>
    have hnumbered := numbered_of_sliceList hwork
    have hperm := (hnumbered.perm_deal w.count_pos).trans (hnumbered.perm_deal w'.count_pos).symm
    have hran : ∀ (v : Workers) (calls : Nat),
        Ran f move baseline h (deal v.count work).flatten
          (List.replicate active.length (List.replicate baseline.size 0))
          (runWorkers f move baseline h (deal v.count work) calls
            (List.replicate active.length (List.replicate baseline.size 0))) :=
      fun v calls ↦ (ranInOrder_runWorkers hf (deal v.count work) calls _).ran
    exact ((hran w calls).alike (hran w' calls') hperm
      (hnumbered.nodup_deal w'.count)).map _

end

end Jacobian

/-! ## What is told -/

/-- Uses of a problem that differ in nothing but the order of the calls for a Jacobian. -/
inductive Interaction.Alike : Interaction R → Interaction R → Prop
  /-- The same use. -/
  | refl (i : Interaction R) : Interaction.Alike i i
  /-- The same Jacobian. -/
  | differentiate {x baseline points points'} (perm : List.Perm points points') :
      Interaction.Alike (.differentiate x baseline points) (.differentiate x baseline points')

/-- A record that does not tell how many workers there were. -/
def Record.withoutWorkers : Record R → Record R
  | .differentiated conditions columns _ => .differentiated conditions columns 0
  | record => record

/-- States that differ only in what the number of workers has a bearing on. -/
structure State.Alike (s s' : State R) : Prop where
  /-- The best points are the same. -/
  best : s.best = s'.best
  /-- The same is to be done next. -/
  phase : s.phase = s'.phase
  /-- The courses are the same. -/
  trace : s.trace = s'.trace
  /-- The problem has been used in the same way. -/
  interactions : List.Forall₂ Interaction.Alike s.interactions s'.interactions
  /-- The same has been reported, except for the number of workers. -/
  records : s.records.map Record.withoutWorkers = s'.records.map Record.withoutWorkers

/-- Ends of two iterations: the same one in states that are alike, or a Jacobian that could not be
computed. -/
inductive Ending.Alike : Ending × State R → Ending × State R → Prop
  /-- The iterations have ended in the same way. -/
  | refl {e s s'} (alike : State.Alike s s') : Ending.Alike (e, s) (e, s')
  /-- A Jacobian could not be computed. -/
  | jacobian {s s' fault fault' points points'} (alike : State.Alike s s') :
      Ending.Alike
        (.failed fault, { s with interactions :=
          s.interactions ++ [.differentiate s.best.point s.best.residuals points] })
        (.failed fault', { s' with interactions :=
          s'.interactions ++ [.differentiate s'.best.point s'.best.residuals points'] })

namespace Problem

/-- The problem with another number of workers. -/
def withWorkers (p : Problem R) (w : Workers) : Problem R := { p with workers := .ok w }

variable {p : Problem R}

theorem jacobianFrom_withWorkers (p : Problem R) (w : Workers) (calls : Nat) (x : List R)
    (baseline : Tensor R) :
    (p.withWorkers w).jacobianFrom calls x baseline =
      if (baseline.size : Int) = p.conditions then
        Jacobian.computeBy (moveEntry x · p.diffStep.read) p.residual calls baseline
          (p.active.map Int.ofNat) p.diffStep.toScalar (.ok w) p.pattern
      else ⟨[], .error (.wrongConditions baseline.size p.conditions)⟩ := rfl

theorem IsPure.jacobianFrom_alike (hp : p.IsPure) (w w' : Workers) (calls calls' : Nat)
    (x : List R) (baseline : Tensor R) :
    ((p.withWorkers w).jacobianFrom calls x baseline).Alike
      ((p.withWorkers w').jacobianFrom calls' x baseline) := by
  rw [jacobianFrom_withWorkers, jacobianFrom_withWorkers]
  split
  · exact Jacobian.computeBy_alike hp _ _ _ w w' _
  · exact .error

omit [Scalar R] in
theorem map_reportJacobian (p : Problem R) (w w' : Workers) (j : Jacobian R) :
    ((p.withWorkers w).reportJacobian j).map Record.withoutWorkers
      = ((p.withWorkers w').reportJacobian j).map Record.withoutWorkers := by
  simp only [reportJacobian, withWorkers]
  split <;> rfl

end Problem

/-! ## Steps side by side -/

namespace State.Alike

variable {p : Problem R} {settings : Settings R} {s s' : State R}

omit [Scalar R] in
theorem tell (h : s.Alike s') {i i' : Interaction R} (hi : i.Alike i') :
    List.Forall₂ Interaction.Alike (s.interactions ++ [i]) (s'.interactions ++ [i']) :=
  List.rel_append h.interactions (.cons hi .nil)

omit [Scalar R] in
theorem report (h : s.Alike s') {more more' : List (Record R)}
    (hmore : more.map Record.withoutWorkers = more'.map Record.withoutWorkers) :
    (s.records ++ more).map Record.withoutWorkers
      = (s'.records ++ more').map Record.withoutWorkers := by
  rw [List.map_append, List.map_append, h.records, hmore]

theorem traceAfter (h : s.Alike s') (d : Decision R) (reached : Visited R) :
    s.traceAfter d reached = s'.traceAfter d reached := by
  rw [State.traceAfter, State.traceAfter, h.best, h.trace]

omit [Scalar R] in
theorem bestAfter (h : s.Alike s') (d : Decision R) (reached : Visited R) :
    s.bestAfter d reached = s'.bestAfter d reached := by
  rw [State.bestAfter, State.bestAfter, h.best]

theorem finalAfter (h : s.Alike s') (d : Decision R) (tried : Nat) (step : List R)
    (reached : Visited R) :
    s.finalAfter settings d tried step reached = s'.finalAfter settings d tried step reached := by
  simp only [State.finalAfter, h.traceAfter, h.bestAfter]

theorem after (h : s.Alike s') (equations : NormalEquations R) (d : Decision R) (tried : Nat)
    (step : List R) (reached : Visited R) :
    (s.after settings equations d tried step reached).Alike
      (s'.after settings equations d tried step reached) := by
  refine ⟨h.bestAfter d reached, rfl, h.traceAfter d reached, h.interactions, ?_⟩
  simp only [State.after, recordsAfter, h.traceAfter, h.bestAfter, h.finalAfter]
  split
  · exact h.report rfl
  · exact h.records

theorem conclude (h : s.Alike s') (equations : NormalEquations R) (d : Decision R) (tried : Nat)
    (step : List R) (reached : Visited R) :
    Progress.Related State.Alike Ending.Alike
      (s.conclude settings equations d tried step reached)
      (s'.conclude settings equations d tried step reached) := by
  rw [State.conclude, State.conclude, h.finalAfter]
  split
  · exact .ended (.refl (h.after equations d tried step reached))
  · exact .running (h.after equations d tried step reached)

theorem linearise (hp : p.IsPure) (w w' : Workers) (h : s.Alike s')
    (damping : Option (Amount R)) :
    Progress.Related State.Alike Ending.Alike (s.linearise (p.withWorkers w) damping)
      (s'.linearise (p.withWorkers w') damping) := by
  have hcalled : ((p.withWorkers w).jacobianFrom (callCount s.interactions) s.best.point
      (Tensor.ofList s.best.residuals)).Alike
      ((p.withWorkers w').jacobianFrom (callCount s'.interactions) s'.best.point
        (Tensor.ofList s'.best.residuals)) := by
    rw [← h.best]
    exact hp.jacobianFrom_alike w w' _ _ _ _
  rw [State.linearise, State.linearise]
  generalize (p.withWorkers w).jacobianFrom _ _ _ = called at hcalled ⊢
  generalize (p.withWorkers w').jacobianFrom _ _ _ = called' at hcalled ⊢
  cases hcalled with
  | error => exact .ended (.jacobian h)
  | @ok jacobian points points' hperm =>
    have hinteraction : (Interaction.differentiate s.best.point s.best.residuals points).Alike
        (.differentiate s'.best.point s'.best.residuals points') := by
      rw [← h.best]
      exact .differentiate hperm
    refine .running ⟨h.best, ?_, h.trace, h.tell hinteraction,
      h.report (p.map_reportJacobian w w' jacobian)⟩
    rw [h.best]

theorem judge (h : s.Alike s') (equations : NormalEquations R) (damping : Amount R) (tried : Nat)
    (step : List R) (reached : Visited R) :
    Progress.Related State.Alike Ending.Alike
      (s.judge settings equations damping tried step reached)
      (s'.judge settings equations damping tried step reached) := by
  rw [State.judge, State.judge, ← h.best]
  split
  · exact .ended (.refl h)
  · exact h.conclude equations _ tried step reached

theorem attempt (hp : p.IsPure) (w w' : Workers) (h : s.Alike s') (equations : NormalEquations R)
    (damping : Amount R) (tried : Nat) :
    Progress.Related State.Alike Ending.Alike
      (s.attempt (p.withWorkers w) settings equations damping tried)
      (s'.attempt (p.withWorkers w') settings equations damping tried) := by
  rw [State.attempt, State.attempt]
  cases damping.read with
  | error fault => exact .ended (.refl h)
  | ok a =>
    dsimp only
    split
    next step _ _ =>
      -- The two problems move points alike and have the same residuals.
      have happly : (p.withWorkers w').applyUpdate s'.best.point step
          = (p.withWorkers w).applyUpdate s.best.point step := by
        rw [h.best]
        rfl
      rw [happly]
      cases (p.withWorkers w).applyUpdate s.best.point step with
      | error fault => exact .ended (.refl h)
      | ok point =>
        have hresidual : (p.withWorkers w').residual (callCount s'.interactions) point
            = (p.withWorkers w).residual (callCount s.interactions) point :=
          (hp _ point).trans (hp _ point).symm
        have hs : ({ s with interactions := s.interactions ++ [.evaluate point] } : State R).Alike
            { s' with interactions := s'.interactions ++ [.evaluate point] } :=
          ⟨h.best, h.phase, h.trace, h.tell (.refl _), h.records⟩
        dsimp only
        rw [hresidual]
        cases (p.withWorkers w).residual (callCount s.interactions) point with
        | error fault => exact .ended (.refl hs)
        | ok residuals => exact hs.judge equations damping tried step _
    next still _ _ =>
      refine .ended (.refl ⟨h.best, h.phase, h.trace, h.interactions, ?_⟩)
      rw [List.append_assoc, List.append_assoc]
      exact h.report rfl

/-- **Steps from states that are alike are alike.** -/
theorem step (hp : p.IsPure) (w w' : Workers) (h : s.Alike s') :
    Progress.Related State.Alike Ending.Alike (s.step (p.withWorkers w) settings)
      (s'.step (p.withWorkers w') settings) := by
  rw [State.step, State.step, ← h.phase]
  cases s.phase with
  | linearise damping => exact h.linearise hp w w' damping
  | attempt equations damping tried => exact h.attempt hp w w' equations damping tried

end State.Alike

/-! ## Solves side by side -/

/-- Outcomes that differ only in what the number of workers has a bearing on. -/
inductive Outcome.Alike : Outcome R → Outcome R → Prop
  /-- The same has been told, except for the order of calls and the number of workers. -/
  | same {status point trace interactions interactions' records records'}
      (used : List.Forall₂ Interaction.Alike interactions interactions')
      (reported : records.map Record.withoutWorkers = records'.map Record.withoutWorkers) :
      Outcome.Alike ⟨status, point, trace, interactions, records⟩
        ⟨status, point, trace, interactions', records'⟩
  /-- The same has been told up to a Jacobian that could not be computed. Of this Jacobian the calls
  and the fault may differ. -/
  | jacobian {point trace before before' x baseline points points' records records' fault fault'}
      (used : List.Forall₂ Interaction.Alike before before')
      (reported : records.map Record.withoutWorkers = records'.map Record.withoutWorkers) :
      Outcome.Alike
        ⟨.evaluationError, point, trace, before ++ [.differentiate x baseline points],
          records ++ [.caught fault]⟩
        ⟨.evaluationError, point, trace, before' ++ [.differentiate x baseline points'],
          records' ++ [.caught fault']⟩

section

omit [Scalar R]

theorem forall₂_alike_refl (interactions : List (Interaction R)) :
    List.Forall₂ Interaction.Alike interactions interactions :=
  List.forall₂_same.mpr fun i _ ↦ .refl i

/-- The last use decides what is committed, and uses that are alike commit the same. -/
theorem Outcome.committed_eq_of_forall₂ {o o' : Outcome R}
    (h : List.Forall₂ Interaction.Alike o.interactions o'.interactions) :
    o.committed = o'.committed := by
  have hreverse := List.forall₂_reverse_iff.mpr h
  rw [committed, committed, List.getLast?_eq_head?_reverse, List.getLast?_eq_head?_reverse]
  generalize List.reverse _ = used at hreverse ⊢
  generalize List.reverse _ = used' at hreverse ⊢
  cases hreverse with
  | nil => rfl
  | cons hlast _ => cases hlast <;> rfl

namespace Outcome.Alike

variable {o o' : Outcome R}

theorem refl (o : Outcome R) : o.Alike o := .same (forall₂_alike_refl o.interactions) rfl

theorem status (h : o.Alike o') : o.status = o'.status := by cases h <;> rfl

theorem point (h : o.Alike o') : o.point = o'.point := by cases h <;> rfl

theorem trace (h : o.Alike o') : o.trace = o'.trace := by cases h <;> rfl

theorem committed (h : o.Alike o') : o.committed = o'.committed := by
  cases h with
  | jacobian =>
    rw [Outcome.committed, Outcome.committed, List.getLast?_concat, List.getLast?_concat]
  | same hused hreported => exact committed_eq_of_forall₂ hused

end Outcome.Alike

end

namespace Problem

variable {p : Problem R} {settings : Settings R}

omit [Scalar R] in
theorem commit_alike (p : Problem R) {s s' : State R} (h : s.Alike s') :
    (p.commit s.best.point s.trace s.interactions s.records).Alike
      (p.commit s'.best.point s'.trace s'.interactions s'.records) := by
  rw [commit, commit, h.best, h.trace]
  split
  · exact .same (h.tell (.refl _)) h.records
  · exact .same (h.tell (.refl _)) (h.report rfl)

omit [Scalar R] in
theorem outcome_alike (w w' : Workers) (start : List R) {r r' : Ending × State R}
    (h : Ending.Alike r r') :
    ((p.withWorkers w).outcome start r.1 r.2).Alike
      ((p.withWorkers w').outcome start r'.1 r'.2) := by
  cases h with
  | jacobian hs =>
    simp only [outcome, hs.best, hs.trace]
    exact .jacobian hs.interactions hs.records
  | @refl e s s' hs =>
    cases e with
    | finished => exact p.commit_alike hs
    | illPosed =>
      simp only [outcome, hs.best, hs.trace]
      exact .same hs.interactions hs.records
    | failed fault =>
      simp only [outcome, hs.trace]
      exact .same hs.interactions (hs.report rfl)

theorem begin_related (settings : Settings R) (start : Visited R) :
    Progress.Related State.Alike Ending.Alike (State.begin settings start)
      (State.begin settings start) := by
  have hrefl : ∀ s : State R, s.Alike s := fun s ↦
    ⟨rfl, rfl, rfl, forall₂_alike_refl s.interactions, rfl⟩
  cases State.begin settings start with
  | running s => exact .running (hrefl s)
  | ended e s => exact .ended (.refl (hrefl s))

/-- **Solves that differ in the number of workers are alike.** -/
theorem IsPure.exists_solve_alike (hp : p.IsPure) (w w' : Workers) {start : Option (List R)}
    {o : Outcome R} (h : (p.withWorkers w).solve settings start = some o) :
    ∃ o', (p.withWorkers w').solve settings start = some o' ∧ o.Alike o' := by
  have hactive : (p.withWorkers w').active = [] ↔ (p.withWorkers w).active = [] := Iff.rfl
  refine exists_solve_of_related hactive (fun _ ↦ rfl) rfl Outcome.Alike.refl
    (begin_related settings) (fun _ _ hs ↦ hs.step hp w w') ?_ h
  intro start e s e' s' hended
  exact outcome_alike w w' start hended

end Problem

/-- The model with another number of workers. -/
def FunctionModel.withWorkers (m : FunctionModel R) (w : Workers) : FunctionModel R :=
  { m with problem := m.problem.withWorkers w }

/-- The adjustment with another number of workers. -/
def Adjustment.withWorkers {S : Type} [CircularScalar S] (a : Adjustment S) (w : Workers) :
    Adjustment S := { a with problem := a.problem.withWorkers w }

omit [Scalar R] in
theorem FunctionModel.solution_afterSolve {m m' : FunctionModel R}
    (hsolution : m.solution = m'.solution) {o o' : Outcome R} (h : o.committed = o'.committed) :
    (m.afterSolve o).solution = (m'.afterSolve o').solution := by
  rw [afterSolve, afterSolve, h]
  cases o'.committed with
  | none => exact hsolution
  | some x => rfl

theorem Adjustment.bundle_afterSolve {S : Type} [CircularScalar S] (a : Adjustment S)
    (w w' : Workers) {o o' : Outcome S} (h : o.committed = o'.committed) :
    ((a.withWorkers w).afterSolve o).bundle = ((a.withWorkers w').afterSolve o').bundle := by
  rw [afterSolve, afterSolve, h]
  cases o'.committed with
  | none => rfl
  | some x =>
    rw [Option.bind_some, Option.bind_some, restore, restore]
    have hbundle : (a.withWorkers w).bundle = (a.withWorkers w').bundle := rfl
    rw [hbundle]
    cases (a.withWorkers w').bundle.restore (.ofList x) <;> rfl

theorem Adjustment.solve_eq_ok_iff {S : Type} [CircularScalar S] {a : Adjustment S}
    {settings : Settings S} {start : Option (List S)} {r : Option (Outcome S × Adjustment S)} :
    a.solve settings start = .ok r ↔
      ∃ start', (match start with
        | some x => Except.ok (some x)
        | none => a.bundle.store) = .ok start' ∧
        (a.problem.solve settings start').map (fun o ↦ (o, a.afterSolve o)) = r := by
  simp only [solve, bind, Except.bind, pure, Except.pure]
  cases start with
  | some x => simp
  | none =>
    cases a.bundle.store with
    | error fault => simp
    | ok start' => simp

/-- **The number of workers has no bearing on what a solve of a pure problem returns and commits.**
What it has a bearing on is the order of the calls for a Jacobian, and the number that the record of
a Jacobian names; and if a Jacobian fails, then its calls and the fault that is reported. -/
theorem alike_of_solve_withWorkers {S : Type} [CircularScalar S] (w w' : Workers) :
    (∀ (p : Problem R) settings start o, p.IsPure →
      (p.withWorkers w).solve settings start = some o →
      ∃ o', (p.withWorkers w').solve settings start = some o' ∧ o.status = o'.status ∧
        o.point = o'.point ∧ o.trace = o'.trace ∧ o.committed = o'.committed ∧ o.Alike o') ∧
    (∀ (m m₁ : FunctionModel R) settings start o, m.problem.IsPure →
      (m.withWorkers w).solve settings start = some (o, m₁) →
      ∃ o' m₂, (m.withWorkers w').solve settings start = some (o', m₂) ∧ o.Alike o' ∧
        m₁.solution = m₂.solution) ∧
    ∀ (a a₁ : Adjustment S) settings start o, a.problem.IsPure →
      (a.withWorkers w).solve settings start = .ok (some (o, a₁)) →
      ∃ o' a₂, (a.withWorkers w').solve settings start = .ok (some (o', a₂)) ∧ o.Alike o' ∧
        a₁.bundle = a₂.bundle := by
  refine ⟨?_, ?_, ?_⟩
  · intro p settings start o hp h
    obtain ⟨o', ho', halike⟩ := hp.exists_solve_alike w w' h
    exact ⟨o', ho', halike.status, halike.point, halike.trace, halike.committed, halike⟩
  · intro m m₁ settings start o hp h
    obtain ⟨_, hsolve, heq⟩ := Option.map_eq_some_iff.mp h
    obtain ⟨rfl, rfl⟩ := Prod.mk.inj heq
    obtain ⟨o', ho', halike⟩ := hp.exists_solve_alike w w' hsolve
    have hsolution : (m.withWorkers w).solution = (m.withWorkers w').solution := rfl
    refine ⟨o', (m.withWorkers w').afterSolve o', ?_, halike,
      FunctionModel.solution_afterSolve hsolution halike.committed⟩
    exact Option.map_eq_some_iff.mpr ⟨o', ho', rfl⟩
  · intro a a₁ settings start o hp h
    obtain ⟨start', hstart, hmap⟩ := Adjustment.solve_eq_ok_iff.mp h
    obtain ⟨_, hsolve, heq⟩ := Option.map_eq_some_iff.mp hmap
    obtain ⟨rfl, rfl⟩ := Prod.mk.inj heq
    obtain ⟨o', ho', halike⟩ := hp.exists_solve_alike w w' hsolve
    refine ⟨o', (a.withWorkers w').afterSolve o', ?_, halike,
      a.bundle_afterSolve w w' halike.committed⟩
    exact Adjustment.solve_eq_ok_iff.mpr ⟨start', hstart, Option.map_eq_some_iff.mpr ⟨o', ho', rfl⟩⟩

/-! ## Three goals -/

/-- A problem of three variables, each of which has a goal of its own. -/
def threeGoals : Problem PartialRat where
  conditions := 3
  dimension := 3
  residual _ x := .ok (Linear.sub x [1, (2 : Nat), (3 : Nat)])
  diffStep := .whole 1
  workers := (Number.truth true).workers
  pattern := none
  active := [0, 1, 2]
  accepts x := x.length = 3
  pattern_shape := by simp
  active_nodup := by decide
  active_lt := by decide

/-- One update, with a step that goes half the way. -/
def halfway : Settings PartialRat where
  limit := .atMost 1
  epsilon := 0
  initialDamping := some (.whole 1)
  eta := .whole 10
  verbose := false

/-- The number of workers that a record names. -/
def Record.workers? : Record R → Option Nat
  | .differentiated _ _ workers => some workers
  | _ => none

/-- Whether a solve ends well, reports one Jacobian by so many workers, and has called the residual
function at a point with its third call. -/
def Outcome.isThreeGoals (workers : Nat) (third : List PartialRat)
    (o : Outcome PartialRat) : Bool :=
  decide (o.status = .converged ∧ o.records.map Record.workers? = [some workers] ∧
    (o.interactions.flatMap Interaction.calls)[2]? = some third)

open PartialRat in
theorem exists_solve_threeGoals (w : Workers) (workers : Nat) (third : List PartialRat)
    (h : ((Progress.next (threeGoals.withWorkers w) halfway)^[2]
      (State.begin halfway (.ofResiduals [0, 0, 0] [ofRat (-1), ofRat (-2), ofRat (-3)]))).passes
        (fun e s ↦ ((threeGoals.withWorkers w).outcome [0, 0, 0] e s).isThreeGoals workers third)
          = true) :
    ∃ o, (threeGoals.withWorkers w).solve halfway (some [0, 0, 0]) = some o ∧
      o.status = .converged ∧ o.records.map Record.workers? = [some workers] ∧
      (o.interactions.flatMap Interaction.calls)[2]? = some third := by
  have hresidual : threeGoals.residual 0 [0, 0, 0] = .ok [ofRat (-1), ofRat (-2), ofRat (-3)] := by
    decide +kernel
  obtain ⟨o, ho, htest⟩ := Problem.exists_solve_of_test (threeGoals.withWorkers w) halfway
    [0, 0, 0] [ofRat (-1), ofRat (-2), ofRat (-3)] 2 (Outcome.isThreeGoals workers third)
    (by simp [Problem.withWorkers, threeGoals]) hresidual h
  exact ⟨o, ho, of_decide_eq_true htest⟩

theorem exists_solve_alone :
    ∃ o, (threeGoals.withWorkers { count := 1 }).solve halfway (some [0, 0, 0]) = some o ∧
      o.status = .converged ∧ o.records.map Record.workers? = [some 1] ∧
      (o.interactions.flatMap Interaction.calls)[2]? = some [0, 1, 0] :=
  exists_solve_threeGoals _ _ _ (by decide +kernel)

/-- With one worker and with two the goals are approached alike. -/
theorem alike_of_solve_threeGoals :
    ∃ o o', (threeGoals.withWorkers { count := 1 }).solve halfway (some [0, 0, 0]) = some o ∧
      (threeGoals.withWorkers { count := 2 }).solve halfway (some [0, 0, 0]) = some o' ∧
      o'.status = .converged ∧ o.point = o'.point ∧ o.trace = o'.trace := by
  obtain ⟨o, ho, hstatus, -, -⟩ := exists_solve_alone
  obtain ⟨hproblem, -, -⟩ :=
    alike_of_solve_withWorkers (R := PartialRat) (S := Float) { count := 1 } { count := 2 }
  obtain ⟨o', ho', hstatus', hpoint, htrace, -, -⟩ :=
    hproblem threeGoals halfway (some [0, 0, 0]) o (fun _ _ ↦ rfl) ho
  exact ⟨o, o', ho, ho', hstatus' ▸ hstatus, hpoint, htrace⟩

/-- Though nothing fails, there is a difference: the record of the Jacobian names the number of
workers, and the second of two workers differentiates by the second variable when the first one is
done with the others. -/
theorem records_of_solve_threeGoals :
    ∃ o o', (threeGoals.withWorkers { count := 1 }).solve halfway (some [0, 0, 0]) = some o ∧
      (threeGoals.withWorkers { count := 2 }).solve halfway (some [0, 0, 0]) = some o' ∧
      threeGoals.IsPure ∧ o.status = .converged ∧ o'.status = .converged ∧
      o.records ≠ o'.records ∧
      o.interactions.flatMap Interaction.calls ≠ o'.interactions.flatMap Interaction.calls := by
  obtain ⟨o, ho, hstatus, hworkers, hthird⟩ := exists_solve_alone
  obtain ⟨o', ho', hstatus', hworkers', hthird'⟩ :=
    exists_solve_threeGoals { count := 2 } 2 [0, 0, 1] (by decide +kernel)
  refine ⟨o, o', ho, ho', fun _ _ ↦ rfl, hstatus, hstatus', fun heq ↦ ?_, fun heq ↦ ?_⟩
  · rw [heq, hworkers'] at hworkers
    exact absurd hworkers (by decide)
  · rw [heq, hthird'] at hthird
    exact absurd hthird (by decide)

end DampedLeastSquares
