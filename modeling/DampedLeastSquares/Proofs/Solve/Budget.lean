import DampedLeastSquares.Proofs.Jacobian.Columns
import DampedLeastSquares.Proofs.Solve.Run
import Mathlib.Algebra.Order.BigOperators.Group.List
import Mathlib.Algebra.Order.Ring.Nat

/-!
# The budget of a solve

A limit of `N` allows `N` updates, and `N` trials for each Jacobian. Since a Jacobian is only needed
at the start and after an update, it allows `N` Jacobians as well, and `N * N` trials in all. How
many trials there were with each Jacobian is read off the interactions of a solve, in which they
stand between one Jacobian and the next.

Nothing is assumed of the scalars here: the iteration counts, whatever it computes.
-/

namespace DampedLeastSquares

variable {R : Type}

/-! ## Rounds -/

/-- One more interaction: a Jacobian begins a new round, in front of those before it, and a point
that is evaluated belongs to the round that was begun last. -/
def tally (rounds : List Nat) : Interaction R → List Nat
  | .differentiate .. => 0 :: rounds
  | .evaluate _ => rounds.modifyHead (· + 1)
  | .commit .. => rounds

/-- For each Jacobian, the last one first, how many points were evaluated with it. -/
def rounds (interactions : List (Interaction R)) : List Nat := interactions.foldl tally []

section rounds

variable (interactions : List (Interaction R)) (x : List R)

theorem rounds_append_differentiate (baseline : List R) (points : List (List R)) :
    rounds (interactions ++ [.differentiate x baseline points]) = 0 :: rounds interactions := by
  rw [rounds, List.foldl_append]
  rfl

theorem rounds_append_evaluate {interactions : List (Interaction R)} {n : Nat} {earlier : List Nat}
    (h : rounds interactions = n :: earlier) :
    rounds (interactions ++ [.evaluate x]) = (n + 1) :: earlier := by
  rw [rounds] at h
  rw [rounds, List.foldl_append, h]
  rfl

theorem rounds_append_commit (accepted : Bool) :
    rounds (interactions ++ [.commit x accepted]) = rounds interactions := by
  rw [rounds, List.foldl_append]
  rfl

end rounds

variable [Scalar R]

/-! ## What is left and what is spent -/

namespace State

/-- Everything that was evaluated is accounted for. -/
structure Accounted (p : Problem R) (s : State R) : Prop where
  /-- The points of the rounds were tried. -/
  sum_rounds : (rounds s.interactions).sum = s.trace.trials.length
  /-- The residual function was called at the start, for the columns of Jacobians and for trials. -/
  calls : callCount s.interactions
    = 1 + (rounds s.interactions).length * p.active.length + s.trace.trials.length

/-- While the iteration goes on, there is room for another update, and for another trial if there is
a Jacobian to try it with. -/
structure WithinBudget (p : Problem R) (bound : Nat) (s : State R) : Prop
    extends s.Accounted p where
  /-- There is room for an update. -/
  updates_lt : s.trace.updates < bound
  /-- A Jacobian was computed at the start and after each update, except for one that is needed. -/
  phase : match s.phase with
    | .linearise _ => (rounds s.interactions).length = s.trace.updates
    | .attempt _ _ tried => ∃ earlier, rounds s.interactions = tried :: earlier ∧
        earlier.length = s.trace.updates ∧ tried < bound
  /-- No round exceeds the bound. -/
  rounds_le : ∀ n ∈ rounds s.interactions, n ≤ bound

/-- What the iteration can have spent when it has ended. -/
structure Spent (p : Problem R) (bound : Nat) (e : Ending) (s : State R) : Prop where
  /-- There were not too many updates. -/
  updates_le : s.trace.updates ≤ bound
  /-- There were not too many Jacobians. -/
  length_rounds : (rounds s.interactions).length ≤ bound
  /-- No round exceeds the bound. -/
  rounds_le : ∀ n ∈ rounds s.interactions, n ≤ bound
  /-- What was tried was evaluated. -/
  trials_le : s.trace.trials.length ≤ (rounds s.interactions).sum
  /-- Unless something failed, everything is accounted for. -/
  accounted : (∀ fault, e ≠ .failed fault) → s.Accounted p
  /-- The last update that is allowed ends the iteration. -/
  last : s.trace.updates = bound → e = .finished ∧ ∃ t, s.trace.trials.getLast? = some t ∧
    t.accepted = true ∧ t.update + 1 = bound

end State

/-- A step has kept to the budget. -/
def Progress.InBudget (p : Problem R) (bound : Nat) : Progress R → Prop
  | .running s => s.WithinBudget p bound
  | .ended e s => s.Spent p bound e

namespace State.WithinBudget

variable {p : Problem R} {settings : Settings R} {bound : Nat} {s : State R}

section

omit [Scalar R]

theorem length_rounds (h : s.WithinBudget p bound) {damping : Option (Amount R)}
    (hphase : s.phase = .linearise damping) :
    (rounds s.interactions).length = s.trace.updates := by
  have hs := h.phase
  simpa only [hphase] using hs

theorem exists_rounds (h : s.WithinBudget p bound) {equations : NormalEquations R}
    {damping : Amount R} {tried : Nat} (hphase : s.phase = .attempt equations damping tried) :
    ∃ earlier, rounds s.interactions = tried :: earlier ∧ earlier.length = s.trace.updates ∧
      tried < bound := by
  have hs := h.phase
  simpa only [hphase] using hs

theorem report (h : s.WithinBudget p bound) (records : List (Record R)) :
    ({ s with records } : State R).WithinBudget p bound :=
  ⟨⟨h.sum_rounds, h.calls⟩, h.updates_lt, h.phase, h.rounds_le⟩

theorem spent (h : s.WithinBudget p bound) (e : Ending) : s.Spent p bound e where
  updates_le := h.updates_lt.le
  length_rounds := by
    have hupdates := h.updates_lt
    cases hphase : s.phase with
    | linearise damping => exact (h.length_rounds hphase).trans_le hupdates.le
    | attempt equations damping tried =>
      obtain ⟨earlier, hrounds, hlength, -⟩ := h.exists_rounds hphase
      rw [hrounds, List.length_cons, hlength]
      exact hupdates
  rounds_le := h.rounds_le
  trials_le := h.sum_rounds.ge
  accounted _ := h.toAccounted
  last hlast := absurd hlast h.updates_lt.ne

/-- An iteration may fail in the middle of a round, before it is known what to make of it. -/
theorem spent_of_rounds (h : s.WithinBudget p bound) {n : Nat} {earlier : List Nat}
    {more : List (Interaction R)} (hrounds : rounds (s.interactions ++ more) = n :: earlier)
    (hlength : earlier.length = s.trace.updates) (hn : n ≤ bound) (hle : ∀ n ∈ earlier, n ≤ bound)
    (hsum : s.trace.trials.length ≤ n + earlier.sum) (fault : Fault) :
    ({ s with interactions := s.interactions ++ more } : State R).Spent p bound
      (.failed fault) := by
  refine ⟨h.updates_lt.le, ?_, ?_, ?_, fun hfailed ↦ absurd rfl (hfailed fault),
    fun hlast ↦ absurd hlast h.updates_lt.ne⟩
  · rw [hrounds, List.length_cons, hlength]
    exact h.updates_lt
  · rw [hrounds]
    exact List.forall_mem_cons.mpr ⟨hn, hle⟩
  · rwa [hrounds, List.sum_cons]

/-- A point that is evaluated makes the last round longer by one. -/
theorem exists_rounds_evaluate (h : s.WithinBudget p bound) {equations : NormalEquations R}
    {damping : Amount R} {tried : Nat} (hphase : s.phase = .attempt equations damping tried)
    (x : List R) :
    ∃ earlier, rounds (s.interactions ++ [.evaluate x]) = (tried + 1) :: earlier ∧
      earlier.length = s.trace.updates ∧ tried < bound ∧ (∀ n ∈ earlier, n ≤ bound) ∧
      tried + earlier.sum = s.trace.trials.length := by
  obtain ⟨earlier, hrounds, hlength, htried⟩ := h.exists_rounds hphase
  refine ⟨earlier, rounds_append_evaluate x hrounds, hlength, htried, fun n hn ↦ ?_, ?_⟩
  · exact h.rounds_le n (hrounds ▸ List.mem_cons_of_mem tried hn)
  · rw [← h.sum_rounds, hrounds, List.sum_cons]

theorem evaluated (h : s.WithinBudget p bound) {equations : NormalEquations R}
    {damping : Amount R} {tried : Nat} (hphase : s.phase = .attempt equations damping tried)
    (x : List R) (fault : Fault) :
    ({ s with interactions := s.interactions ++ [.evaluate x] } : State R).Spent p bound
      (.failed fault) := by
  obtain ⟨earlier, hrounds, hlength, htried, hle, hsum⟩ := h.exists_rounds_evaluate hphase x
  exact h.spent_of_rounds hrounds hlength htried hle (by omega) fault

end

theorem linearised (h : s.WithinBudget p bound) {damping : Option (Amount R)}
    (hphase : s.phase = .linearise damping) {points : List (List R)} {j : Jacobian R}
    (hcalled : p.jacobianFrom (callCount s.interactions) s.best.point
      (Tensor.ofList s.best.residuals) = ⟨points, .ok j⟩)
    (equations : NormalEquations R) (damping : Amount R) (records : List (Record R)) :
    ({ s with
      interactions := s.interactions ++ [.differentiate s.best.point s.best.residuals points]
      phase := .attempt equations damping 0
      records } : State R).WithinBudget p bound := by
  have hrounds := rounds_append_differentiate s.interactions s.best.point s.best.residuals points
  have hroom : 0 < bound := Nat.zero_lt_of_lt h.updates_lt
  refine ⟨⟨?_, ?_⟩, h.updates_lt, ⟨_, hrounds, h.length_rounds hphase, hroom⟩, ?_⟩
  · simp only [hrounds, List.sum_cons, Nat.zero_add]
    exact h.sum_rounds
  · have hcalls := h.calls
    have hpoints := (Problem.length_jacobianFrom hcalled).1
    simp only [callCount_append, Interaction.calls, hrounds, hpoints, List.length_cons,
      Nat.succ_mul]
    omega
  · simp only [hrounds]
    exact List.forall_mem_cons.mpr ⟨Nat.zero_le bound, h.rounds_le⟩

theorem failed (h : s.WithinBudget p bound) {fault : Fault} {more : List (Interaction R)}
    (hfailure : s.Failure p settings fault more) :
    ({ s with interactions := s.interactions ++ more } : State R).Spent p bound
      (.failed fault) := by
  cases hfailure with
  | jacobian hphase hcalled =>
    exact h.spent_of_rounds (rounds_append_differentiate _ _ _ _) (h.length_rounds hphase)
      (Nat.zero_le bound) h.rounds_le (h.sum_rounds.ge.trans (Nat.le_add_left _ _)) fault
  | damping | update =>
    rw [List.append_nil]
    exact h.spent _
  | residual hpoised => exact h.evaluated hpoised.phase _ _
  | decision htrial => exact h.evaluated htrial.phase _ _

section

variable {equations : NormalEquations R} {damping : Amount R} {tried : Nat} {d : Decision R}
  {step : List R} {reached : Visited R}

theorem accounted_after (h : s.WithinBudget p bound)
    (hphase : s.phase = .attempt equations damping tried) :
    (({ s with interactions := s.interactions ++ [.evaluate reached.point] } : State R).after
      settings equations d tried step reached).Accounted p := by
  obtain ⟨earlier, hrounds, hlength, -, -, hsum⟩ := h.exists_rounds_evaluate hphase reached.point
  obtain ⟨earlier', hrounds', hlength', -⟩ := h.exists_rounds hphase
  refine ⟨?_, ?_⟩
  · simp only [interactions_after, trials_after, hrounds, List.sum_cons, List.length_append,
      List.length_singleton]
    omega
  · have hcalls := h.calls
    simp only [interactions_after, trials_after, callCount_append, Interaction.calls, hrounds,
      hrounds', List.length_cons, List.length_append, List.length_nil, hlength, hlength']
      at hcalls ⊢
    omega

omit [Scalar R] in
theorem rounds_evaluate_le (h : s.WithinBudget p bound)
    (hphase : s.phase = .attempt equations damping tried) (x : List R) :
    ∀ n ∈ rounds (s.interactions ++ [.evaluate x]), n ≤ bound := by
  obtain ⟨earlier, hrounds, -, htried, hle, -⟩ := h.exists_rounds_evaluate hphase x
  rw [hrounds]
  exact List.forall_mem_cons.mpr ⟨htried, hle⟩

/-- A final trial may have used up the updates, but then it was accepted itself. -/
theorem spent_after (h : s.WithinBudget p bound)
    (hphase : s.phase = .attempt equations damping tried) :
    (({ s with interactions := s.interactions ++ [.evaluate reached.point] } : State R).after
      settings equations d tried step reached).Spent p bound .finished := by
  obtain ⟨earlier, hrounds, hlength, -⟩ := h.exists_rounds_evaluate hphase reached.point
  have hupdates := h.updates_lt
  refine ⟨?_, ?_, h.rounds_evaluate_le hphase _, (h.accounted_after hphase).sum_rounds.ge,
    fun _ ↦ h.accounted_after hphase, ?_⟩
  -- A rejected trial leaves the updates below the bound, where they were.
  · cases haccepted : d.accepted with
    | true =>
      rw [updates_after_of_accepted haccepted]
      exact hupdates
    | false =>
      rw [updates_after_of_rejected haccepted]
      exact hupdates.le
  · rw [interactions_after, hrounds, List.length_cons, hlength]
    exact hupdates
  · intro hlast
    cases haccepted : d.accepted with
    | true =>
      rw [updates_after_of_accepted haccepted] at hlast
      exact ⟨rfl, _, List.getLast?_concat, haccepted, hlast⟩
    | false =>
      rw [updates_after_of_rejected haccepted] at hlast
      exact absurd hlast hupdates.ne

theorem withinBudget_after (h : s.WithinBudget p bound)
    (hphase : s.phase = .attempt equations damping tried)
    (hupdates : (s.traceAfter d reached).updates < bound)
    (htried : d.accepted = false → tried + 1 < bound) :
    (({ s with interactions := s.interactions ++ [.evaluate reached.point] } : State R).after
      settings equations d tried step reached).WithinBudget p bound := by
  obtain ⟨earlier, hrounds, hlength, -⟩ := h.exists_rounds_evaluate hphase reached.point
  refine ⟨h.accounted_after hphase, hupdates, ?_, h.rounds_evaluate_le hphase _⟩
  cases haccepted : d.accepted with
  | true =>
    rw [phase_after_of_accepted haccepted, updates_after_of_accepted haccepted, interactions_after]
    simp only [hrounds, List.length_cons, hlength]
  | false =>
    rw [phase_after_of_rejected haccepted, updates_after_of_rejected haccepted, interactions_after]
    exact ⟨earlier, hrounds, hlength, htried haccepted⟩

end

/-- **A step keeps to the budget.** -/
theorem step (hlimit : settings.limit = .atMost bound) (h : s.WithinBudget p bound) :
    Progress.InBudget p bound (s.step p settings) := by
  have hmove := move_step p settings s
  generalize s.step p settings = a at hmove ⊢
  cases hmove with
  | linearised hphase hcalled => exact h.linearised hphase hcalled _ _ _
  | stuck => exact (h.report _).spent .illPosed
  | failed hfailure => exact h.failed hfailure
  | tried htrial hdecided =>
    rw [State.conclude]
    split
    · exact h.spent_after htrial.phase
    next hfinal =>
      obtain ⟨hupdates, htried⟩ := reached_of_finalAfter_eq_false (Bool.not_eq_true _ ▸ hfinal)
      rw [hlimit, Limit.reached, decide_eq_false_iff_not, Nat.not_le] at hupdates htried
      exact h.withinBudget_after htrial.phase hupdates htried

end State.WithinBudget

/-! ## Solves -/

namespace Problem

variable {p : Problem R} {settings : Settings R} {bound : Nat}

omit [Scalar R] in
theorem withinBudget_initial (hbound : 1 ≤ bound) (start : Visited R) :
    (State.initial settings start).WithinBudget p bound := by
  refine ⟨⟨rfl, ?_⟩, hbound, rfl, nofun⟩
  simp only [State.initial, callCount, rounds, tally, Interaction.calls, List.flatMap_singleton,
    List.foldl_cons, List.foldl_nil, List.modifyHead_nil, List.length_nil, List.length_singleton,
    Nat.zero_mul]

theorem inBudget_begin (hbound : 1 ≤ bound) (start : Visited R) :
    Progress.InBudget p bound (State.begin settings start) := by
  obtain ⟨records, hstate⟩ := State.exists_begin settings start
  have hinitial : ({ State.initial settings start with records } : State R).WithinBudget p bound :=
    (withinBudget_initial hbound start).report records
  rw [← hstate] at hinitial
  generalize State.begin settings start = a at hinitial ⊢
  cases a with
  | running s => exact hinitial
  | ended e s => exact hinitial.spent e

theorem spent_of_ends (hlimit : settings.limit = .atMost bound) (hbound : 1 ≤ bound)
    {start : List R} {e : Ending} {s : State R} (h : p.Ends settings start e s) :
    s.Spent p bound e := by
  obtain ⟨residuals, -, hfinish⟩ := h
  exact Progress.good_of_finish (Progress.InBudget p bound) (fun _ hs ↦ hs.step hlimit)
    (inBudget_begin hbound _) hfinish

/-- What a solve under a limit keeps to. -/
structure KeepsBudget (p : Problem R) (bound : Nat) (start : Option (List R)) (o : Outcome R) :
    Prop where
  /-- There are not too many Jacobians. -/
  jacobians : (rounds o.interactions).length ≤ bound
  /-- With no Jacobian are there too many trials. -/
  trials_each : ∀ n ∈ rounds o.interactions, n ≤ bound
  /-- There are not too many updates. -/
  updates : o.trace.updates ≤ bound
  /-- There are not too many trials in all. -/
  trials : o.trace.trials.length ≤ bound * bound
  /-- With the last update that is allowed a solve stops, and offers its point. -/
  last : o.trace.updates = bound → (o.status = .converged ∨ o.status = .solutionRejected) ∧
    ∃ t, o.trace.trials.getLast? = some t ∧ t.accepted = true ∧ t.update + 1 = bound
  /-- The trials are those of the rounds, and the residual function is called once at the start,
  once for each column of a Jacobian and once for each trial. -/
  calls : start ≠ none → p.active ≠ [] → o.status ≠ .evaluationError →
    (rounds o.interactions).sum = o.trace.trials.length ∧
    o.calls = 1 + (rounds o.interactions).length * p.active.length + o.trace.trials.length

omit [Scalar R] in
theorem keepsBudget_of_trace_eq (hbound : 1 ≤ bound) {start : Option (List R)} {o : Outcome R}
    (htrace : o.trace = {}) (hrounds : rounds o.interactions = [])
    (hcalls : start = none ∨ p.active = [] ∨ o.status = .evaluationError) :
    p.KeepsBudget bound start o where
  jacobians := by rw [hrounds]; exact Nat.zero_le bound
  trials_each := by rw [hrounds]; exact nofun
  updates := by rw [htrace]; exact Nat.zero_le bound
  trials := by rw [htrace]; exact Nat.zero_le _
  last hlast := by
    rw [htrace] at hlast
    exact absurd hlast (Nat.ne_of_lt hbound)
  calls hstart hactive hstatus := by
    rcases hcalls with h | h | h
    · exact absurd h hstart
    · exact absurd h hactive
    · exact absurd h hstatus

omit [Scalar R] in
theorem rounds_outcome (p : Problem R) (start : List R) (e : Ending) (s : State R) :
    rounds (p.outcome start e s).interactions = rounds s.interactions := by
  cases e with
  | finished => rw [outcome, interactions_commit, rounds_append_commit]
  | illPosed | failed => rfl

omit [Scalar R] in
theorem calls_outcome (p : Problem R) (start : List R) (e : Ending) (s : State R) :
    (p.outcome start e s).calls = callCount s.interactions := by
  cases e with
  | finished => rw [Outcome.calls, outcome, interactions_commit, callCount_append]; rfl
  | illPosed | failed => rfl

theorem keepsBudget_of_ends (hlimit : settings.limit = .atMost bound) (hbound : 1 ≤ bound)
    {start : List R} {e : Ending} {s : State R} (h : p.Ends settings start e s) :
    p.KeepsBudget bound (some start) (p.outcome start e s) := by
  have hspent := spent_of_ends hlimit hbound h
  obtain ⟨hfailed, hfinished⟩ := p.status_outcome start e s
  have hsum : (rounds s.interactions).sum ≤ bound * bound :=
    (List.sum_le_card_nsmul _ bound hspent.rounds_le).trans
      (Nat.mul_le_mul_right bound hspent.length_rounds)
  refine ⟨?_, ?_, ?_, ?_, ?_, ?_⟩
  · rw [rounds_outcome]
    exact hspent.length_rounds
  · rw [rounds_outcome]
    exact hspent.rounds_le
  · rw [trace_outcome]
    exact hspent.updates_le
  · rw [trace_outcome]
    exact hspent.trials_le.trans hsum
  · rw [trace_outcome]
    intro hlast
    obtain ⟨he, htrial⟩ := hspent.last hlast
    exact ⟨hfinished he, htrial⟩
  · intro _ _ hstatus
    rw [rounds_outcome, trace_outcome, calls_outcome]
    have haccounted := hspent.accounted fun fault he ↦ hstatus (hfailed.mp ⟨fault, he⟩)
    exact ⟨haccounted.sum_rounds, haccounted.calls⟩

/-- **A solve keeps to its budget**, whatever the residual function answers and the arithmetic comes
to. -/
theorem keepsBudget_of_solve (hlimit : settings.limit = .atMost bound) (hbound : 1 ≤ bound)
    (p : Problem R) (start : Option (List R)) :
    ∃ o, p.solve settings start = some o ∧ p.KeepsBudget bound start o := by
  obtain ⟨o, ho⟩ := exists_solve hlimit p start
  refine ⟨o, ho, ?_⟩
  cases solved_of_solve ho with
  | noStart => exact keepsBudget_of_trace_eq hbound rfl rfl (Or.inl rfl)
  | nothingActive hactive =>
    refine keepsBudget_of_trace_eq hbound (trace_commit _ _ _ _ _) ?_ (Or.inr (Or.inl hactive))
    rw [interactions_commit]
    rfl
  | unevaluated => exact keepsBudget_of_trace_eq hbound rfl rfl (Or.inr (Or.inr rfl))
  | iterated _ hends => exact keepsBudget_of_ends hlimit hbound hends

open PartialRat in
/-- Before an undefined wall two trials are made with each of two Jacobians, as many as are allowed,
in seven calls. -/
theorem keepsBudget_wall :
    ∃ o, (wall (.ok [⟨none⟩])).solve wallSettings (some [0]) = some o ∧
      rounds o.interactions = [2, 2] ∧ o.calls = 7 ∧
      (wall (.ok [⟨none⟩])).KeepsBudget 2 (some [0]) o := by
  obtain ⟨o, ho, htest⟩ := exists_solve_of_test (wall (.ok [⟨none⟩])) wallSettings [0]
    [ofRat (-3)] 6
    (fun o ↦ decide (rounds o.interactions = [2, 2] ∧ o.calls = 7))
    (by decide) (by decide +kernel) (by decide +kernel)
  obtain ⟨hrounds, hcalls⟩ := of_decide_eq_true htest
  have hlimit : wallSettings.limit = .atMost 2 := rfl
  obtain ⟨o', ho', hkeeps⟩ := keepsBudget_of_solve hlimit
    (by decide) (wall (.ok [⟨none⟩])) (some [0])
  obtain rfl := Option.some.inj (ho.symm.trans ho')
  exact ⟨o, ho, hrounds, hcalls, hkeeps⟩

end Problem

end DampedLeastSquares
