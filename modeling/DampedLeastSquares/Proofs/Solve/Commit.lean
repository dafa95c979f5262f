import DampedLeastSquares.Problem.FunctionModel
import DampedLeastSquares.Proofs.Bundle.Parameters
import DampedLeastSquares.Proofs.Solve.Run

/-!
# Commitment

A solve leaves its problem alone until it is done, and then offers it one point or none. The
iteration itself never commits, whichever of its steps ends it and how, and the only point that is
offered is the one that is returned. A model that keeps its solution is therefore changed by a solve
that converged and by no other.
-/

namespace DampedLeastSquares

/-! ## Uses of the problem before the end -/

/-- Uses of a problem among which there is no commit. -/
def Uncommitted {R : Type} (interactions : List (Interaction R)) : Prop :=
  ∀ x accepted, .commit x accepted ∉ interactions

section

variable {R : Type} {interactions more : List (Interaction R)}

theorem uncommitted_nil : Uncommitted ([] : List (Interaction R)) := fun _ _ ↦ List.not_mem_nil

theorem uncommitted_singleton {i : Interaction R} (h : ∀ x accepted, i ≠ .commit x accepted) :
    Uncommitted [i] :=
  fun x accepted hmem ↦ h x accepted (List.mem_singleton.mp hmem).symm

theorem Uncommitted.append (h : Uncommitted interactions) (hmore : Uncommitted more) :
    Uncommitted (interactions ++ more) := by
  intro x accepted hmem
  rcases List.mem_append.mp hmem with hmem | hmem
  · exact h x accepted hmem
  · exact hmore x accepted hmem

theorem Uncommitted.mem_concat_iff (h : Uncommitted interactions) {x y : List R}
    {accepted accepted' : Bool} :
    .commit x accepted ∈ interactions ++ [.commit y accepted'] ↔ x = y ∧ accepted = accepted' := by
  rw [List.mem_append, List.mem_singleton, Interaction.commit.injEq]
  exact or_iff_right (h x accepted)

/-- Nothing follows the first commit if that is the last use. -/
theorem Uncommitted.eq_nil_of_concat_eq (h : Uncommitted interactions) {i : Interaction R}
    {before after : List (Interaction R)} {x : List R} {accepted : Bool}
    (heq : interactions ++ [i] = before ++ .commit x accepted :: after) : after = [] := by
  rcases List.eq_nil_or_concat after with hnil | ⟨after', j, rfl⟩
  · exact hnil
  · -- The last use would be another one, and the commit would stand before it.
    rw [List.concat_eq_append, ← List.cons_append, ← List.append_assoc] at heq
    have hmem : .commit x accepted ∈ interactions := by
      rw [List.append_inj_left' heq rfl]
      exact List.mem_append_right _ List.mem_cons_self
    exact absurd hmem (h x accepted)

end

variable {R : Type} [Scalar R]

namespace State

variable {p : Problem R} {settings : Settings R} {s : State R}

theorem Failure.uncommitted {fault : Fault} {more : List (Interaction R)}
    (h : s.Failure p settings fault more) : Uncommitted more := by
  cases h with
  | damping | update => exact uncommitted_nil
  | jacobian | residual | decision => exact uncommitted_singleton nofun

theorem uncommitted_step (h : Uncommitted s.interactions) :
    Uncommitted (s.step p settings).state.interactions := by
  have hmove := move_step p settings s
  generalize s.step p settings = a at hmove ⊢
  cases hmove with
  | linearised => exact h.append (uncommitted_singleton nofun)
  | stuck => exact h
  | failed hfailure => exact h.append hfailure.uncommitted
  | tried =>
    rw [state_conclude]
    exact h.append (uncommitted_singleton nofun)

end State

namespace Problem

variable {p : Problem R} {settings : Settings R}

theorem uncommitted_of_ends {start : List R} {e : Ending} {s : State R}
    (h : p.Ends settings start e s) : Uncommitted s.interactions := by
  obtain ⟨residuals, -, hfinish⟩ := h
  refine Progress.invariant_of_finish (fun s ↦ Uncommitted s.interactions)
    (fun _ hs ↦ State.uncommitted_step hs) ?_ hfinish
  rw [State.interactions_begin]
  exact uncommitted_singleton nofun

theorem Ends.unique {start : List R} {e e' : Ending} {s s' : State R}
    (h : p.Ends settings start e s) (h' : p.Ends settings start e' s') : e = e' ∧ s = s' := by
  obtain ⟨residuals, hevaluated, hfinish⟩ := h
  obtain ⟨residuals', hevaluated', hfinish'⟩ := h'
  obtain rfl := Except.ok.inj (hevaluated.symm.trans hevaluated')
  exact Prod.mk.inj (Option.some.inj (hfinish.symm.trans hfinish'))

/-! ## The end of a solve -/

/-- How a solve that ended in `o` dealt with commitment. -/
structure Commits (p : Problem R) (settings : Settings R) (start : Option (List R))
    (o : Outcome R) : Prop where
  /-- Nothing follows a commit, so that there is one at most. -/
  last : ∀ before x accepted after, o.interactions = before ++ .commit x accepted :: after →
    after = []
  /-- There is a commit exactly if there was nothing to move or the iteration finished. -/
  iff_finished : (∃ x accepted, .commit x accepted ∈ o.interactions) ↔
    ∃ x, start = some x ∧ (p.active = [] ∨ ∃ s, p.Ends settings x .finished s)
  /-- The point that is committed is the one that is returned. -/
  point : ∀ x accepted, .commit x accepted ∈ o.interactions →
    o.point = some x ∧ accepted = p.accepts x
  /-- Acceptance is success. -/
  converged_iff : o.status = .converged ↔ ∃ x, .commit x true ∈ o.interactions
  /-- Refusal has a status of its own. -/
  rejected_iff : o.status = .solutionRejected ↔ ∃ x, .commit x false ∈ o.interactions

theorem Commits.of_uncommitted {start : Option (List R)} {o : Outcome R}
    (h : Uncommitted o.interactions)
    (hnot : ¬∃ x, start = some x ∧ (p.active = [] ∨ ∃ s, p.Ends settings x .finished s))
    (hconverged : o.status ≠ .converged) (hrejected : o.status ≠ .solutionRejected) :
    p.Commits settings start o where
  last before x accepted after heq :=
    absurd (by rw [heq]; simp) (h x accepted)
  iff_finished := iff_of_false (fun ⟨x, accepted, hmem⟩ ↦ h x accepted hmem) hnot
  point x accepted hmem := absurd hmem (h x accepted)
  converged_iff := iff_of_false hconverged fun ⟨x, hmem⟩ ↦ h x true hmem
  rejected_iff := iff_of_false hrejected fun ⟨x, hmem⟩ ↦ h x false hmem

theorem Commits.of_commit {x : List R} {start : Option (List R)} {trace : Trace R}
    {interactions : List (Interaction R)} {records : List (Record R)}
    (h : Uncommitted interactions)
    (hfinished : ∃ x, start = some x ∧ (p.active = [] ∨ ∃ s, p.Ends settings x .finished s)) :
    p.Commits settings start (p.commit x trace interactions records) where
  last before y accepted after heq := by
    rw [interactions_commit] at heq
    exact h.eq_nil_of_concat_eq heq
  iff_finished := by
    rw [interactions_commit]
    exact iff_of_true ⟨x, p.accepts x, h.mem_concat_iff.mpr ⟨rfl, rfl⟩⟩ hfinished
  point y accepted hmem := by
    rw [interactions_commit, h.mem_concat_iff] at hmem
    obtain ⟨rfl, rfl⟩ := hmem
    exact ⟨point_commit _ _ _ _ _, rfl⟩
  converged_iff := by
    simp only [interactions_commit, h.mem_concat_iff, status_commit]
    cases p.accepts x <;> simp
  rejected_iff := by
    simp only [interactions_commit, h.mem_concat_iff, status_commit]
    cases p.accepts x <;> simp

theorem commits_of_solve {start : Option (List R)} {o : Outcome R}
    (h : p.solve settings start = some o) : p.Commits settings start o := by
  cases solved_of_solve h with
  | noStart => exact .of_uncommitted uncommitted_nil (by simp) nofun nofun
  | nothingActive hactive =>
    exact .of_commit uncommitted_nil ⟨_, rfl, Or.inl hactive⟩
  | @unevaluated x fault hactive hevaluated =>
    refine .of_uncommitted (uncommitted_singleton nofun) ?_ nofun nofun
    rintro ⟨_, hx, hnone | ⟨s, residuals, hresiduals, -⟩⟩
    · exact hactive hnone
    · obtain rfl := Option.some.inj hx
      exact nomatch hevaluated.symm.trans hresiduals
  | @iterated x e s hactive hends =>
    have hun := uncommitted_of_ends hends
    cases e with
    | finished => exact .of_commit hun ⟨x, rfl, Or.inr ⟨s, hends⟩⟩
    | illPosed | failed =>
      refine .of_uncommitted hun ?_ nofun nofun
      rintro ⟨_, hx, hnone | ⟨s', hends'⟩⟩
      · exact hactive hnone
      · obtain rfl := Option.some.inj hx
        exact nomatch (hends.unique hends').1

theorem Commits.committed_of_converged {start : Option (List R)} {o : Outcome R}
    (h : p.Commits settings start o) (hstatus : o.status = .converged) :
    ∃ x, o.point = some x ∧ o.committed = some x := by
  obtain ⟨x, hmem⟩ := h.converged_iff.mp hstatus
  obtain ⟨before, after, heq⟩ := List.append_of_mem hmem
  obtain rfl := h.last before x true after heq
  refine ⟨x, (h.point x true hmem).1, ?_⟩
  rw [Outcome.committed, heq, List.getLast?_concat]

theorem Commits.committed_of_not_converged {start : Option (List R)} {o : Outcome R}
    (h : p.Commits settings start o) (hstatus : o.status ≠ .converged) : o.committed = none := by
  rw [Outcome.committed]
  split
  next x hlast =>
    exact absurd (h.converged_iff.mpr ⟨x, List.mem_of_getLast? hlast⟩) hstatus
  · rfl

end Problem

/-! ## Models -/

namespace FunctionModel

theorem solve_none_of_solve {m : FunctionModel R} {settings : Settings R} {x : Tensor R}
    {o : Outcome R} (hoffers : m.offersStart = true) (hsolution : m.solution = some x)
    (h : m.problem.solve settings (some x.entries) = some o) :
    m.solve settings none = some (o, m.afterSolve o) := by
  simp only [solve, initialGuess, hoffers, hsolution, if_true, Option.orElse_none, Option.map_some,
    h]

theorem afterSolve_of_converged {m m' : FunctionModel R} {settings : Settings R}
    {start : Option (Tensor R)} {o : Outcome R} (h : m.solve settings start = some (o, m'))
    (hstatus : o.status = .converged) :
    ∃ x, o.point = some x ∧ m' = { m with solution := some (.ofList x) } := by
  obtain ⟨_, hsolve, heq⟩ := Option.map_eq_some_iff.mp h
  obtain ⟨rfl, rfl⟩ := Prod.mk.inj heq
  obtain ⟨x, hpoint, hcommitted⟩ :=
    (Problem.commits_of_solve hsolve).committed_of_converged hstatus
  refine ⟨x, hpoint, ?_⟩
  rw [afterSolve, hcommitted]

theorem afterSolve_of_not_converged {m m' : FunctionModel R} {settings : Settings R}
    {start : Option (Tensor R)} {o : Outcome R} (h : m.solve settings start = some (o, m'))
    (hstatus : o.status ≠ .converged) : m' = m := by
  obtain ⟨_, hsolve, heq⟩ := Option.map_eq_some_iff.mp h
  obtain ⟨rfl, rfl⟩ := Prod.mk.inj heq
  rw [afterSolve, (Problem.commits_of_solve hsolve).committed_of_not_converged hstatus]

end FunctionModel

namespace Adjustment

variable {S : Type} [CircularScalar S] {a a' : Adjustment S} {settings : Settings S}
  {start : Option (List S)} {o : Outcome S}

theorem exists_solve_of_solve (h : a.solve settings start = .ok (some (o, a'))) :
    ∃ start', a.problem.solve settings start' = some o ∧ a' = a.afterSolve o := by
  have hmap : ∀ start', (a.problem.solve settings start').map (fun o ↦ (o, a.afterSolve o))
      = some (o, a') → a.problem.solve settings start' = some o ∧ a' = a.afterSolve o := by
    intro start' hstart'
    obtain ⟨_, hsolve, heq⟩ := Option.map_eq_some_iff.mp hstart'
    obtain ⟨rfl, rfl⟩ := Prod.mk.inj heq
    exact ⟨hsolve, rfl⟩
  simp only [solve, bind, Except.bind, pure, Except.pure] at h
  cases start with
  | some x => exact ⟨some x, hmap _ (Except.ok.inj h)⟩
  | none =>
    cases hstore : a.bundle.store with
    | error fault =>
      rw [hstore] at h
      exact nomatch h
    | ok start' =>
      rw [hstore] at h
      exact ⟨start', hmap _ (Except.ok.inj h)⟩

theorem afterSolve_of_converged (h : a.solve settings start = .ok (some (o, a')))
    (hfits : a.problem.accepts = fits a.bundle) (hstatus : o.status = .converged) :
    ∃ x, o.point = some x ∧ a.restore (.ofList x) = some a' := by
  obtain ⟨start', hsolve, rfl⟩ := exists_solve_of_solve h
  have hcommits := Problem.commits_of_solve hsolve
  obtain ⟨x, hpoint, hcommitted⟩ := hcommits.committed_of_converged hstatus
  obtain ⟨y, hmem⟩ := hcommits.converged_iff.mp hstatus
  obtain ⟨hpoint', haccepts⟩ := hcommits.point y true hmem
  obtain rfl := Option.some.inj (hpoint'.symm.trans hpoint)
  rw [hfits] at haccepts
  obtain ⟨b, hb⟩ := a.bundle.exists_restore haccepts.symm
  have hrestore : a.restore (.ofList y) = some (a.withBundle b) := by rw [restore, hb]; rfl
  refine ⟨y, hpoint, ?_⟩
  rw [afterSolve, hcommitted, Option.bind_some, hrestore, Option.getD_some]

theorem afterSolve_of_not_converged (h : a.solve settings start = .ok (some (o, a')))
    (hstatus : o.status ≠ .converged) : a' = a := by
  obtain ⟨start', hsolve, rfl⟩ := exists_solve_of_solve h
  rw [afterSolve, (Problem.commits_of_solve hsolve).committed_of_not_converged hstatus]
  rfl

end Adjustment

/-- **A solve commits last or never.** A commit is the last use of the problem; there is one exactly
if there was a start and either nothing to move or an iteration that finished; its point is the one
that is returned; and its answer is the status. So a model of a function, and an adjustment, has the
returned point after a solve that converged, and is unchanged after every other. -/
theorem commits_last_or_never {S : Type} [CircularScalar S] :
    (∀ (p : Problem R) settings start o, p.solve settings start = some o →
      p.Commits settings start o) ∧
    (∀ (m m' : FunctionModel R) settings start o, m.solve settings start = some (o, m') →
      (o.status = .converged →
        ∃ x, o.point = some x ∧ m' = { m with solution := some (.ofList x) }) ∧
      (o.status ≠ .converged → m' = m)) ∧
    (∀ (a a' : Adjustment S) settings start o, a.solve settings start = .ok (some (o, a')) →
      (o.status = .converged → a.problem.accepts = Adjustment.fits a.bundle →
        ∃ x, o.point = some x ∧ a.restore (.ofList x) = some a') ∧
      (o.status ≠ .converged → a' = a)) := by
  refine ⟨fun p settings start o h ↦ Problem.commits_of_solve h, ?_, ?_⟩
  · intro m m' settings start o h
    exact ⟨FunctionModel.afterSolve_of_converged h, FunctionModel.afterSolve_of_not_converged h⟩
  · intro a a' settings start o h
    exact ⟨fun hstatus hfits ↦ Adjustment.afterSolve_of_converged h hfits hstatus,
      Adjustment.afterSolve_of_not_converged h⟩

open PartialRat in
/-- A model before a wall, which starts at zero. -/
def wallModel (beyond : Except Fault (List PartialRat)) : FunctionModel PartialRat :=
  ⟨wall beyond, some (.ofList [0]), true⟩

open PartialRat in
/-- Before an undefined wall the model gets the point that was reached. Before a wall that fails it
keeps its solution, though a step has been accepted. -/
theorem commits_wall :
    (∃ o m', (wallModel (.ok [⟨none⟩])).solve wallSettings none = some (o, m') ∧
      o.status = .converged ∧ m'.solution = some (.ofList [ofRat (3 / 2)])) ∧
    ∃ o m',
      (wallModel (.error (.raised .value "wall"))).solve cautiousSettings none = some (o, m') ∧
      o.status = .evaluationError ∧ o.trace.updates = 1 ∧
      m' = wallModel (.error (.raised .value "wall")) := by
  obtain ⟨-, hmodel, -⟩ := commits_last_or_never (R := PartialRat) (S := Float)
  constructor
  · obtain ⟨o, ho, htest⟩ := Problem.exists_solve_of_test (wall (.ok [⟨none⟩])) wallSettings [0]
      [ofRat (-3)] 6 (fun o ↦ decide (o.status = .converged ∧ o.point = some [ofRat (3 / 2)]))
      (by decide) (by decide +kernel) (by decide +kernel)
    obtain ⟨hstatus, hpoint⟩ := of_decide_eq_true htest
    have hsolve := FunctionModel.solve_none_of_solve (m := wallModel (.ok [⟨none⟩])) rfl rfl ho
    obtain ⟨x, hx, heq⟩ := (hmodel _ _ _ _ o hsolve).1 hstatus
    refine ⟨o, _, hsolve, hstatus, ?_⟩
    rw [heq, Option.some.inj (hx.symm.trans hpoint)]
  · obtain ⟨o, ho, htest⟩ := Problem.exists_solve_of_test (wall (.error (.raised .value "wall")))
      cautiousSettings [0] [ofRat (-3)] 4
      (fun o ↦ decide (o.status = .evaluationError ∧ o.trace.updates = 1))
      (by decide) (by decide +kernel) (by decide +kernel)
    obtain ⟨hstatus, hupdates⟩ := of_decide_eq_true htest
    have hsolve := FunctionModel.solve_none_of_solve
      (m := wallModel (.error (.raised .value "wall"))) rfl rfl ho
    refine ⟨o, _, hsolve, hstatus, hupdates, (hmodel _ _ _ _ o hsolve).2 ?_⟩
    rw [hstatus]
    exact nofun

end DampedLeastSquares
