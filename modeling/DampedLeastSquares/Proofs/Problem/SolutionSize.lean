import DampedLeastSquares.Proofs.Problem.Session
import DampedLeastSquares.Proofs.Solve.Inactive

/-!
# The size of a solution

What is committed to a model is a vector with an entry for each variable. Whoever offers something
else is refused, be it a caller or a solve. So the solution of a model is either such a vector or
still what the model was made with, and that is not looked at when a model is made.

A solve does not change the size of its start. If it starts from a solution of another size and gets
to its end, it is refused there, and for no other reason. What a solve from the solution has found
is never refused exactly if the model was made with nothing or with an entry for each variable.
-/

namespace DampedLeastSquares

variable {R : Type}

/-- What there is, if there is anything, has `n` entries. -/
def OfSize (n : Int) (values : Option (Tensor R)) : Prop := ∀ x ∈ values, (x.size : Int) = n

variable [Scalar R]

/-- A solve is refused exactly if it gets to its end from a start of another size. -/
theorem Problem.solutionRejected_iff {p : Problem R} {settings : Settings R} {x : List R}
    {o : Outcome R} {n : Int} (hfits : p.accepts = FunctionModel.fits n)
    (h : p.solve settings (some x) = some o) :
    o.status = .solutionRejected ↔
      (x.length : Int) ≠ n ∧ (p.active = [] ∨ ∃ s, p.Ends settings x .finished s) := by
  have hcommits := commits_of_solve h
  -- A point that is offered has the size of the start.
  have haccepted : ∀ y accepted, .commit y accepted ∈ o.interactions →
      accepted = decide ((x.length : Int) = n) := by
    intro y accepted hmem
    obtain ⟨-, rfl⟩ := hcommits.point y accepted hmem
    rw [hfits, FunctionModel.fits, ((freezes_of_solve h).2.committed y _ hmem).1]
  constructor
  · intro hstatus
    obtain ⟨y, hmem⟩ := hcommits.rejected_iff.mp hstatus
    obtain ⟨x', hx', hfinished⟩ := hcommits.iff_finished.mp ⟨y, false, hmem⟩
    obtain rfl := Option.some.inj hx'
    exact ⟨of_decide_eq_false (haccepted y false hmem).symm, hfinished⟩
  · rintro ⟨hsize, hfinished⟩
    obtain ⟨y, accepted, hmem⟩ := hcommits.iff_finished.mpr ⟨x, rfl, hfinished⟩
    rw [haccepted y accepted hmem, decide_eq_false hsize] at hmem
    exact hcommits.rejected_iff.mpr ⟨y, hmem⟩

namespace FunctionModel

/-- What no call changes in a model for `n` variables, and what its solution can be. -/
structure MadeWith (n : Int) (given : Option (Tensor R)) (m : FunctionModel R) : Prop where
  /-- What can be committed has an entry for each variable. -/
  accepts : m.problem.accepts = fits n
  /-- The solution is offered as a start. -/
  offersStart : m.offersStart = true
  /-- The solution is what was given, or a vector with an entry for each variable. -/
  solution : m.solution = given ∨
    ∃ x, m.solution = some (.ofList x) ∧ (x.length : Int) = n

section

variable {conditions n : Int} {residual : Residual R} {diffStep : Amount R}
  {workers : Except Fault Workers} {pattern : Option (Tensor Bool)} {given : Option (Tensor R)}
  {made : FunctionModel R}

omit [Scalar R] in
theorem madeWith_of_make
    (h : make conditions n residual diffStep workers pattern given = .ok made) :
    made.MadeWith n given := by
  obtain ⟨problem, hproblem, rfl⟩ := exists_of_make h
  obtain ⟨pattern_shape, rfl⟩ := Problem.exists_of_make hproblem
  exact ⟨rfl, rfl, Or.inl rfl⟩

omit [Scalar R] in
theorem exists_make_of_make
    (h : make conditions n residual diffStep workers pattern given = .ok made)
    (given' : Option (Tensor R)) :
    ∃ made', make conditions n residual diffStep workers pattern given' = .ok made' ∧
      made'.solution = given' := by
  obtain ⟨problem, hproblem, -⟩ := exists_of_make h
  refine ⟨⟨problem, given', true⟩, ?_, rfl⟩
  rw [make, hproblem]
  rfl

end

namespace MadeWith

variable {n : Int} {given : Option (Tensor R)} {m m' : FunctionModel R} {settings : Settings R}
  {o : Outcome R}

/-! ## Calls -/

omit [Scalar R] in
theorem commit (h : m.MadeWith n given) {x : List R} (hx : m.problem.accepts x = true) :
    ({ m with solution := some (.ofList x) } : FunctionModel R).MadeWith n given where
  accepts := h.accepts
  offersStart := h.offersStart
  solution := by
    rw [h.accepts] at hx
    exact Or.inr ⟨x, rfl, of_decide_eq_true hx⟩

omit [Scalar R] in
theorem setActive (h : m.MadeWith n given) {indices : List Number}
    (hset : m.setActive? indices = .ok (some m')) : m'.MadeWith n given := by
  obtain ⟨problem, hproblem, rfl⟩ := exists_of_setActive? hset
  obtain ⟨active, active_nodup, active_lt, rfl⟩ := Problem.exists_of_setActive? hproblem
  exact ⟨h.accepts, h.offersStart, h.solution⟩

omit [Scalar R] in
theorem setSolution (h : m.MadeWith n given) {x : Tensor R} (hset : m.setSolution x = some m') :
    m'.MadeWith n given := by
  rw [FunctionModel.setSolution] at hset
  split at hset
  · split at hset
    next point _ haccepts =>
      obtain rfl := Option.some.inj hset
      exact h.commit haccepts
    · exact nomatch hset
  · exact nomatch hset

theorem solve (h : m.MadeWith n given) {start : Option (Tensor R)}
    (hsolve : m.solve settings start = some (o, m')) : m'.MadeWith n given := by
  by_cases hstatus : o.status = .converged
  · obtain ⟨x, hx, rfl⟩ := afterSolve_of_converged hsolve hstatus
    obtain ⟨o', hproblem, heq⟩ := Option.map_eq_some_iff.mp hsolve
    obtain ⟨rfl, -⟩ := Prod.mk.inj heq
    have hcommits := Problem.commits_of_solve hproblem
    -- The point was committed, so it has passed the check of the model.
    obtain ⟨y, hmem⟩ := hcommits.converged_iff.mp hstatus
    obtain ⟨hy, haccepts⟩ := hcommits.point y true hmem
    obtain rfl := Option.some.inj (hy.symm.trans hx)
    exact h.commit haccepts.symm
  · rwa [afterSolve_of_not_converged hsolve hstatus]

/-- **A call keeps the solution or commits a vector with an entry for each variable.** -/
theorem call (h : m.MadeWith n given) {c : Call R} {o? : Option (Outcome R)}
    (hcall : m.call c = some (o?, m')) : m'.MadeWith n given := by
  cases c with
  | setActive indices =>
    obtain ⟨-, rfl⟩ := Prod.mk.inj (Option.some.inj hcall)
    split
    next m' hset => exact h.setActive hset
    · exact h
  | setSolution x =>
    obtain ⟨-, rfl⟩ := Prod.mk.inj (Option.some.inj hcall)
    cases hset : m.setSolution x with
    | none => exact h
    | some m' => exact h.setSolution hset
  | solve settings start =>
    obtain ⟨⟨o, m'⟩, hsolve, heq⟩ := Option.map_eq_some_iff.mp hcall
    obtain ⟨rfl, rfl⟩ := Prod.mk.inj heq
    exact h.solve hsolve

/-- **A session of calls keeps how a model was made.** -/
theorem session (h : m.MadeWith n given) {calls : List (Call R)}
    (hsession : m.session calls = some m') : m'.MadeWith n given := by
  induction calls generalizing m with
  | nil =>
    obtain rfl := Option.some.inj hsession
    exact h
  | cons c calls ih =>
    obtain ⟨⟨o?, m₁⟩, hcall, hrest⟩ := Option.bind_eq_some_iff.mp hsession
    exact ih (h.call hcall) hrest

/-! ## Sizes -/

omit [Scalar R] in
theorem ofSize (h : m.MadeWith n given) (hgiven : OfSize n given) : OfSize n m.solution := by
  rcases h.solution with hsolution | ⟨x, hsolution, hlength⟩
  · rwa [hsolution]
  · intro y hy
    rw [hsolution, Option.mem_some_iff] at hy
    rwa [← hy]

theorem ofSize_session (h : m.MadeWith n given) (hsize : OfSize n m.solution)
    {calls : List (Call R)} (hsession : m.session calls = some m') : OfSize n m'.solution := by
  -- The model might as well have been made with the solution that it has now.
  have hsame : m.MadeWith n m.solution := ⟨h.accepts, h.offersStart, Or.inl rfl⟩
  exact (hsame.session hsession).ofSize hsize

theorem solutionRejected_iff (h : m.MadeWith n given)
    (hsolve : m.solve settings none = some (o, m')) :
    o.status = .solutionRejected ↔ ∃ x, m.solution = some x ∧ (x.size : Int) ≠ n ∧
      (m.problem.active = [] ∨ ∃ s, m.problem.Ends settings x.entries .finished s) := by
  obtain ⟨o', hproblem, heq⟩ := Option.map_eq_some_iff.mp hsolve
  obtain ⟨rfl, -⟩ := Prod.mk.inj heq
  rw [Option.orElse_none, initialGuess, h.offersStart, if_pos rfl] at hproblem
  cases hsolution : m.solution with
  | none =>
    rw [hsolution] at hproblem
    obtain rfl := Option.some.inj hproblem
    simp
  | some x =>
    rw [hsolution] at hproblem
    rw [Problem.solutionRejected_iff h.accepts hproblem]
    simp [Tensor.size]

end MadeWith

omit [Scalar R] in
theorem exists_setActive?_nil (m : FunctionModel R) :
    ∃ m', m.setActive? [] = .ok (some m') ∧ m'.problem.active = [] ∧ m'.solution = m.solution := by
  have hset : ∃ problem, m.problem.setActive? [] = .ok (some problem) ∧ problem.active = [] := by
    simp [Problem.setActive?, bind, Except.bind, pure, Except.pure]
  obtain ⟨problem, hproblem, hactive⟩ := hset
  refine ⟨{ m with problem }, ?_, hactive, rfl⟩
  rw [setActive?, hproblem]
  rfl

theorem exists_solve_of_active_eq_nil {m : FunctionModel R} (hactive : m.problem.active = [])
    (settings : Settings R) : ∃ o m', m.solve settings none = some (o, m') := by
  have hsolve : ∀ start, ∃ o, m.problem.solve settings start = some o := by
    rintro (_ | x)
    · exact ⟨_, rfl⟩
    · rw [Problem.solve, hactive, List.isEmpty_nil, if_pos rfl]
      exact ⟨_, rfl⟩
  obtain ⟨o, ho⟩ := hsolve (m.initialGuess.map Tensor.entries)
  exact ⟨o, m.afterSolve o, by rw [solve, Option.orElse_none, ho]; rfl⟩

/-- **The solution has the right size throughout if it has it at first, and only then.** A model is
made with anything. After any session its solution is what it was made with, or it is a vector with
an entry for each variable, and once it has the right size, it keeps it. A solve from the solution
is refused exactly if it gets to its end and the solution has another size. So the solution has the
right size after every session, and no solve from it is ever refused, exactly if the model was made
with nothing or with an entry for each variable. -/
theorem ofSize_session_iff {conditions n : Int} {residual : Residual R} {diffStep : Amount R}
    {workers : Except Fault Workers} {pattern : Option (Tensor Bool)} {given : Option (Tensor R)}
    {made : FunctionModel R}
    (hmade : make conditions n residual diffStep workers pattern given = .ok made) :
    (∀ given', ∃ made', make conditions n residual diffStep workers pattern given' = .ok made' ∧
      made'.solution = given') ∧
    (∀ calls m, made.session calls = some m →
      (m.solution = given ∨ ∃ x, m.solution = some (.ofList x) ∧ (x.length : Int) = n) ∧
      (OfSize n m.solution →
        ∀ after m', m.session after = some m' → OfSize n m'.solution) ∧
      ∀ settings o m', m.solve settings none = some (o, m') →
        (o.status = .solutionRejected ↔ ∃ x, m.solution = some x ∧ (x.size : Int) ≠ n ∧
          (m.problem.active = [] ∨ ∃ s, m.problem.Ends settings x.entries .finished s))) ∧
    ((∀ calls m, made.session calls = some m → OfSize n m.solution) ↔ OfSize n given) ∧
    ((∀ calls m, made.session calls = some m → ∀ settings o m',
      m.solve settings none = some (o, m') → o.status ≠ .solutionRejected) ↔ OfSize n given) := by
  have hmadeWith := madeWith_of_make hmade
  have hgiven : made.solution = given := by
    obtain ⟨problem, -, rfl⟩ := exists_of_make hmade
    rfl
  refine ⟨exists_make_of_make hmade, fun calls m hsession ↦ ?_, ⟨?_, ?_⟩, ⟨?_, ?_⟩⟩
  · have hm := hmadeWith.session hsession
    exact ⟨hm.solution, fun hsize _ _ ↦ hm.ofSize_session hsize,
      fun _ _ _ ↦ hm.solutionRejected_iff⟩
  · intro hall
    rw [← hgiven]
    exact hall [] made rfl
  · intro hsize calls m hsession
    exact (hmadeWith.session hsession).ofSize hsize
  · -- A solution of another size is refused as soon as nothing may move.
    intro hall
    by_contra hsize
    obtain ⟨m, hset, hactive, hsolution⟩ := exists_setActive?_nil made
    have hsession : made.session [.setActive []] = some m := by
      rw [FunctionModel.session, FunctionModel.call, hset]
      rfl
    obtain ⟨x, hx, hne⟩ : ∃ x, given = some x ∧ (x.size : Int) ≠ n := by
      simpa [OfSize] using hsize
    obtain ⟨o, m', hsolve⟩ := exists_solve_of_active_eq_nil hactive
      ⟨.atMost 1, 0, none, .whole 1, false⟩
    refine hall _ m hsession _ o m' hsolve ?_
    rw [(hmadeWith.session hsession).solutionRejected_iff hsolve, hsolution, hgiven]
    exact ⟨x, hx, hne, Or.inl hactive⟩
  · intro hsize calls m hsession settings o m' hsolve hstatus
    have hm := hmadeWith.session hsession
    obtain ⟨x, hx, hne, -⟩ := (hm.solutionRejected_iff hsolve).mp hstatus
    exact hne (hm.ofSize hsize x hx)

open PartialRat in
/-- The residual that asks for the first coordinate to be one, and takes no notice of others. -/
def firstCoordinate : Residual PartialRat := fun _ x ↦ .ok [x.headD 0 - 1]

open PartialRat in
/-- A model with one variable that was made with two entries. The solve from them gets to its end,
and is refused there. -/
theorem ofSize_session_iff_twoEntries :
    ∃ made, make 1 1 firstCoordinate (.scalar (ofRat (1 / 4))) (Number.truth true).workers none
        (some (.ofList [0, 0])) = .ok made ∧
      (∃ o m', made.solve { wallSettings with initialDamping := some (.whole 0) } none
          = some (o, m') ∧ o.point = some [1, 0] ∧ o.trace.updates = 1 ∧
        o.status = .solutionRejected) ∧
      ¬∀ calls m, made.session calls = some m → OfSize 1 m.solution := by
  obtain ⟨made, hmade, hsolution, hoffers, o, ho, htest⟩ :
      ∃ made, make 1 1 firstCoordinate (.scalar (ofRat (1 / 4))) (Number.truth true).workers none
          (some (.ofList [0, 0])) = .ok made ∧
        made.solution = some (.ofList [0, 0]) ∧ made.offersStart = true ∧
        ∃ o, made.problem.solve { wallSettings with initialDamping := some (.whole 0) }
            (some [0, 0]) = some o ∧
          decide (o.point = some [1, 0] ∧ o.trace.updates = 1 ∧ o.status = .solutionRejected)
            = true :=
    ⟨_, rfl, rfl, rfl, Problem.exists_solve_of_test _ _ [0, 0] [ofRat (-1)] 4
      (fun o ↦ decide (o.point = some [1, 0] ∧ o.trace.updates = 1 ∧
        o.status = .solutionRejected))
      (by decide) (by decide +kernel) (by decide +kernel)⟩
  obtain ⟨hpoint, hupdates, hstatus⟩ := of_decide_eq_true htest
  obtain ⟨-, -, hsize, -⟩ := ofSize_session_iff hmade
  refine ⟨made, hmade, ⟨o, made.afterSolve o, solve_none_of_solve hoffers hsolution ho, hpoint,
    hupdates, hstatus⟩, fun hall ↦ ?_⟩
  exact absurd (hsize.mp hall _ rfl) (by decide)

end FunctionModel

end DampedLeastSquares
