import DampedLeastSquares.Proofs.Scalar.Order
import DampedLeastSquares.Proofs.Solve.Step
import DampedLeastSquares.Solve.Basic
import Mathlib.Logic.Function.Iterate

/-!
# Whole runs

A run is a step repeated until a step ends it. Five things are said of it here, once for all: what
holds at the start and is kept by a step holds at the end; two runs whose steps are related are
related themselves; what commutes with steps commutes with runs; a run ends exactly if some number
of steps ends it; and under a limit that counts can reach, every run ends.

A solve adds little to a run. There are four ways through it, which `Solved` lists, and only the
last of them iterates.
-/

namespace DampedLeastSquares

variable {R : Type} [Scalar R] {p : Problem R} {settings : Settings R}

/-! ## What a run keeps -/

theorem State.run_eq_finish (p : Problem R) (settings : Settings R) (s : State R) :
    s.run p settings = (s.step p settings).finish p settings := by
  rw [run]
  cases s.step p settings <;> rfl

namespace Progress

/-- **What a step keeps, a run keeps.** `Good` may speak of the way in which a step ended, and so
the property of the final state may differ from that of the states before it. -/
theorem good_of_finish (Good : Progress R → Prop)
    (hstep : ∀ s, Good (.running s) → Good (s.step p settings)) {a : Progress R} {e : Ending}
    {s : State R} (h : Good a) (hfinish : a.finish p settings = some (e, s)) :
    Good (.ended e s) := by
  have hrun : ∀ (s : State R) (r : Ending × State R), s.run p settings = some r →
      Good (.running s) → Good (.ended r.1 r.2) := by
    -- Of a run that goes on for ever nothing has to be shown: the induction is on runs that end.
    refine State.run.partial_correctness p settings
      (fun s r ↦ Good (.running s) → Good (.ended r.1 r.2)) ?_
    intro run ih s r hr hgood
    have hnext := hstep s hgood
    cases hprogress : s.step p settings with
    | ended e s' =>
      rw [hprogress] at hr hnext
      rwa [← Option.some.inj hr]
    | running s' =>
      rw [hprogress] at hr hnext
      exact ih s' r hr hnext
  cases a with
  | ended e' s' =>
    rw [finish, Option.some.injEq, Prod.mk.injEq] at hfinish
    rwa [← hfinish.1, ← hfinish.2]
  | running s' => exact hrun s' (e, s) hfinish h

theorem invariant_of_finish (Inv : State R → Prop)
    (hstep : ∀ s, Inv s → Inv (s.step p settings).state) {a : Progress R} {e : Ending}
    {s : State R} (h : Inv a.state) (hfinish : a.finish p settings = some (e, s)) : Inv s :=
  good_of_finish (fun a ↦ Inv a.state) hstep h hfinish

/-! ## Two runs side by side -/

/-- What two steps have led to is related if both iterations go on from related states, or if both
have ended and their ends are related. -/
inductive Related (Running : State R → State R → Prop)
    (Ended : Ending × State R → Ending × State R → Prop) : Progress R → Progress R → Prop
  /-- Both iterations go on. -/
  | running {s s'} (related : Running s s') : Related Running Ended (.running s) (.running s')
  /-- Both iterations have ended. -/
  | ended {e s e' s'} (related : Ended (e, s) (e', s')) :
      Related Running Ended (.ended e s) (.ended e' s')

/-- **If steps from related states are related, then so are runs.** Where one run ends the other one
ends as well. -/
theorem Related.exists_finish {p' : Problem R} {settings' : Settings R}
    {Running : State R → State R → Prop} {Ended : Ending × State R → Ending × State R → Prop}
    (hstep : ∀ s s', Running s s' →
      Related Running Ended (s.step p settings) (s'.step p' settings'))
    {a a' : Progress R} (h : Related Running Ended a a') {r : Ending × State R}
    (hfinish : a.finish p settings = some r) :
    ∃ r', a'.finish p' settings' = some r' ∧ Ended r r' := by
  have hrun : ∀ (s : State R) (r : Ending × State R), s.run p settings = some r →
      ∀ s', Running s s' → ∃ r', s'.run p' settings' = some r' ∧ Ended r r' := by
    refine State.run.partial_correctness p settings
      (fun s r ↦ ∀ s', Running s s' → ∃ r', s'.run p' settings' = some r' ∧ Ended r r') ?_
    intro run ih s r hr s' hs
    have hnext := hstep s s' hs
    rw [State.run_eq_finish]
    generalize s.step p settings = b at hr hnext
    generalize s'.step p' settings' = b' at hnext ⊢
    cases hnext with
    | ended hended => exact ⟨_, rfl, Option.some.inj hr ▸ hended⟩
    | running hs => exact ih _ _ hr _ hs
  cases h with
  | ended hended => exact ⟨_, rfl, Option.some.inj hfinish ▸ hended⟩
  | running hs => exact hrun _ _ hfinish _ hs

omit [Scalar R] in
theorem Related.swap {Running : State R → State R → Prop}
    {Ended : Ending × State R → Ending × State R → Prop} {a a' : Progress R}
    (h : Related Running Ended a a') :
    Related (Function.swap Running) (Function.swap Ended) a' a := by
  cases h with
  | running hs => exact .running hs
  | ended hr => exact .ended hr

/-- What a step has led to, in states that are seen another way. -/
def map (f : State R → State R) : Progress R → Progress R
  | .running s => .running (f s)
  | .ended e s => .ended e (f s)

omit [Scalar R] in
@[simp] theorem state_map (f : State R → State R) (a : Progress R) :
    (a.map f).state = f a.state := by
  cases a <;> rfl

/-- **What commutes with steps commutes with runs.** One run ends exactly if the other one does. The
steps may start from states with some property only, as long as steps keep it. -/
theorem finish_map {p' : Problem R} {settings' : Settings R} {f : State R → State R}
    (Inv : State R → Prop) (hinv : ∀ s, Inv s → Inv (s.step p settings).state)
    (hstep : ∀ s, Inv s → (f s).step p' settings' = (s.step p settings).map f) {a : Progress R}
    (h : Inv a.state) :
    (a.map f).finish p' settings' = (a.finish p settings).map (Prod.map id f) := by
  let Running : State R → State R → Prop := fun s s' ↦ Inv s ∧ s' = f s
  let Ended : Ending × State R → Ending × State R → Prop := fun r r' ↦ r' = Prod.map id f r
  have hrelated : ∀ s s', Running s s' →
      Related Running Ended (s.step p settings) (s'.step p' settings') := by
    rintro s s' ⟨hs, rfl⟩
    have hnext := hinv s hs
    rw [hstep s hs]
    cases hprogress : s.step p settings with
    | ended e s' => exact .ended rfl
    | running s' =>
      rw [hprogress] at hnext
      exact .running ⟨hnext, rfl⟩
  have hfirst : Related Running Ended a (a.map f) := by
    cases a with
    | ended e s => exact .ended rfl
    | running s => exact .running ⟨h, rfl⟩
  cases hfinish : a.finish p settings with
  | some r =>
    obtain ⟨r', hfinish', rfl⟩ := hfirst.exists_finish hrelated hfinish
    exact hfinish'
  | none =>
    cases hfinish' : (a.map f).finish p' settings' with
    | none => rfl
    | some r' =>
      obtain ⟨r, hr, -⟩ :=
        hfirst.swap.exists_finish (fun s' s hs ↦ (hrelated s s' hs).swap) hfinish'
      exact nomatch hfinish.symm.trans hr

/-! ## Counting steps -/

/-- Whether the iteration has ended, in a way that passes a test. -/
def passes (test : Ending → State R → Bool) : Progress R → Bool
  | .running _ => false
  | .ended e s => test e s

/-- One more step, unless the iteration has ended. -/
def next (p : Problem R) (settings : Settings R) : Progress R → Progress R
  | .running s => s.step p settings
  | .ended e s => .ended e s

theorem finish_next (a : Progress R) :
    (a.next p settings).finish p settings = a.finish p settings := by
  cases a with
  | ended e s => rfl
  | running s => exact (s.run_eq_finish p settings).symm

theorem finish_iterate_next (n : Nat) (a : Progress R) :
    ((next p settings)^[n] a).finish p settings = a.finish p settings := by
  induction n generalizing a with
  | zero => rfl
  | succ n ih => rw [Function.iterate_succ_apply, ih, finish_next]

theorem good_iterate_next (Good : Progress R → Prop)
    (hstep : ∀ s, Good (.running s) → Good (s.step p settings)) {a : Progress R} (h : Good a)
    (n : Nat) : Good ((next p settings)^[n] a) := by
  induction n generalizing a with
  | zero => exact h
  | succ n ih =>
    rw [Function.iterate_succ_apply]
    apply ih
    cases a with
    | ended e s => exact h
    | running s => exact hstep s h

theorem iterate_next_map {p' : Problem R} {settings' : Settings R} {f : State R → State R}
    (Inv : State R → Prop) (hinv : ∀ s, Inv s → Inv (s.step p settings).state)
    (hstep : ∀ s, Inv s → (f s).step p' settings' = (s.step p settings).map f) {a : Progress R}
    (h : Inv a.state) (n : Nat) :
    (next p' settings')^[n] (a.map f) = ((next p settings)^[n] a).map f := by
  induction n generalizing a with
  | zero => rfl
  | succ n ih =>
    rw [Function.iterate_succ_apply, Function.iterate_succ_apply]
    cases a with
    | ended e s => exact ih h
    | running s =>
      change (next p' settings')^[n] ((f s).step p' settings') = _
      rw [hstep s h]
      exact ih (hinv s h)

theorem invariant_iterate_next (Inv : State R → Prop)
    (hstep : ∀ s, Inv s → Inv (s.step p settings).state) {a : Progress R} (h : Inv a.state)
    (n : Nat) : Inv ((next p settings)^[n] a).state :=
  good_iterate_next (fun a ↦ Inv a.state) hstep h n

theorem finish_of_iterate {n : Nat} {a : Progress R} {e : Ending} {s : State R}
    (h : (next p settings)^[n] a = .ended e s) : a.finish p settings = some (e, s) := by
  rw [← finish_iterate_next n, h]
  rfl

end Progress

/-! ## Every run under a limit ends -/

namespace State

/-- How many steps there are at most under a limit. A Jacobian with all trials that may follow it
weighs as much as one update that is still allowed, and then some. -/
def stepsLeft (bound : Nat) (s : State R) : Nat :=
  (bound - s.trace.updates) * (bound + 2) +
    match s.phase with
    | .linearise _ => bound + 1
    | .attempt _ _ tried => bound - tried

/-- After a trial that is not final there is room for more updates, and, if the step was rejected,
for more trials. -/
theorem reached_of_finalAfter_eq_false {s : State R} {d : Decision R} {tried : Nat}
    {step : List R} {reached : Visited R}
    (h : s.finalAfter settings d tried step reached = false) :
    settings.limit.reached (s.traceAfter d reached).updates = false ∧
      (d.accepted = false → settings.limit.reached (tried + 1) = false) := by
  simp only [finalAfter, isFinal, Bool.or_eq_false_iff, Bool.and_eq_false_iff,
    Bool.not_eq_false'] at h
  refine ⟨h.1.1.1, fun hrejected ↦ ?_⟩
  rcases h.2 with haccepted | ⟨-, hreached⟩
  · exact absurd haccepted (by rw [hrejected]; exact Bool.false_ne_true)
  · exact hreached

theorem stepsLeft_after_lt {bound : Nat} (hlimit : settings.limit = .atMost bound) {s : State R}
    {equations : NormalEquations R} {damping : Amount R} {tried : Nat}
    (hphase : s.phase = .attempt equations damping tried) {d : Decision R} {step : List R}
    {reached : Visited R} (h : s.finalAfter settings d tried step reached = false) :
    (s.after settings equations d tried step reached).stepsLeft bound < s.stepsLeft bound := by
  obtain ⟨hupdates, htried⟩ := reached_of_finalAfter_eq_false h
  rw [hlimit, Limit.reached, decide_eq_false_iff_not] at hupdates htried
  simp only [stepsLeft, after, traceAfter, Trace.record, hphase] at hupdates ⊢
  cases haccepted : d.accepted with
  | false =>
    have := htried haccepted
    simp only [Bool.false_eq_true, if_false]
    omega
  | true =>
    -- One update fewer pays for the Jacobian that is needed and for all trials that may follow it.
    rw [haccepted, if_pos rfl] at hupdates
    simp only [if_true]
    obtain ⟨room, hroom⟩ : ∃ room, bound - s.trace.updates = room + 1 :=
      ⟨bound - (s.trace.updates + 1), by omega⟩
    rw [hroom, show bound - (s.trace.updates + 1) = room by omega, Nat.succ_mul]
    omega

/-- An unfinished step uses up some of the steps that are left. -/
theorem stepsLeft_lt_of_step {bound : Nat} (hlimit : settings.limit = .atMost bound)
    {s s' : State R} (h : s.step p settings = .running s') :
    s'.stepsLeft bound < s.stepsLeft bound := by
  have hmove := move_step p settings s
  rw [h] at hmove
  generalize ha : Progress.running s' = a at hmove
  cases hmove with
  | stuck | failed => cases ha
  | linearised hphase hcalled =>
    obtain rfl := Progress.running.inj ha
    simp only [stepsLeft, hphase]
    omega
  | tried htrial hdecided =>
    rw [conclude] at ha
    split at ha
    · cases ha
    next hfinal =>
      obtain rfl := Progress.running.inj ha
      exact stepsLeft_after_lt hlimit htrial.phase (Bool.not_eq_true _ ▸ hfinal)

theorem exists_run {bound : Nat} (hlimit : settings.limit = .atMost bound) (p : Problem R)
    (s : State R) : ∃ e s', s.run p settings = some (e, s') := by
  induction hn : s.stepsLeft bound using Nat.strongRecOn generalizing s with
  | _ n ih =>
    rw [run_eq_finish]
    cases hprogress : s.step p settings with
    | ended e s' => exact ⟨e, s', rfl⟩
    | running s' => exact ih _ (hn ▸ stepsLeft_lt_of_step hlimit hprogress) s' rfl

end State

/-- **Every run under a limit ends.** -/
theorem Progress.exists_finish {bound : Nat} (hlimit : settings.limit = .atMost bound)
    (p : Problem R) (a : Progress R) : ∃ e s, a.finish p settings = some (e, s) := by
  cases a with
  | ended e s => exact ⟨e, s, rfl⟩
  | running s => exact s.exists_run hlimit p

/-! ## The start of a run -/

section begin

variable (settings : Settings R) (start : Visited R)

theorem State.exists_begin :
    ∃ records, (State.begin settings start).state
      = { State.initial settings start with records } := by
  rw [State.begin]
  split
  · dsimp only
    split
    · exact ⟨_, rfl⟩
    · exact ⟨_, rfl⟩
  · exact ⟨_, rfl⟩

theorem State.exists_fault_of_begin {settings : Settings R} {start : Visited R} {e : Ending}
    {s : State R} (h : State.begin settings start = .ended e s) : ∃ fault, e = .failed fault := by
  rw [State.begin] at h
  split at h
  · dsimp only at h
    split at h
    next fault hread => exact ⟨fault, (Progress.ended.inj h).1.symm⟩
    · exact nomatch h
  · exact nomatch h

@[simp] theorem State.best_begin : (State.begin settings start).state.best = start := by
  obtain ⟨records, h⟩ := State.exists_begin settings start
  rw [h]
  rfl

@[simp] theorem State.phase_begin :
    (State.begin settings start).state.phase = .linearise settings.initialDamping := by
  obtain ⟨records, h⟩ := State.exists_begin settings start
  rw [h]
  rfl

@[simp] theorem State.trace_begin :
    (State.begin settings start).state.trace = { errors := [start.error] } := by
  obtain ⟨records, h⟩ := State.exists_begin settings start
  rw [h]
  rfl

@[simp] theorem State.interactions_begin :
    (State.begin settings start).state.interactions = [.evaluate start.point] := by
  obtain ⟨records, h⟩ := State.exists_begin settings start
  rw [h]
  rfl

end begin

/-- The state that so many steps lead to, from residuals at the start. -/
def Problem.stateAfter (p : Problem R) (settings : Settings R) (start residuals : List R)
    (n : Nat) : State R :=
  ((Progress.next p settings)^[n] (State.begin settings (.ofResiduals start residuals))).state

/-! ## Solves -/

omit [Scalar R] in
theorem callCount_append (interactions : List (Interaction R)) (i : Interaction R) :
    callCount (interactions ++ [i]) = callCount interactions + i.calls.length := by
  rw [callCount, List.flatMap_append, List.length_append, List.flatMap_singleton]
  rfl

namespace Problem

section

variable {R : Type}

section commit

variable (p : Problem R) (x : List R) (trace : Trace R) (interactions : List (Interaction R))
  (records : List (Record R))

@[simp] theorem trace_commit : (p.commit x trace interactions records).trace = trace := by
  rw [commit]
  split <;> rfl

@[simp] theorem point_commit : (p.commit x trace interactions records).point = some x := by
  rw [commit]
  split <;> rfl

@[simp] theorem status_commit : (p.commit x trace interactions records).status
    = if p.accepts x then .converged else .solutionRejected := by
  rw [commit]
  split <;> rfl

@[simp] theorem interactions_commit : (p.commit x trace interactions records).interactions
    = interactions ++ [.commit x (p.accepts x)] := by
  rw [commit]
  cases p.accepts x <;> rfl

end commit

@[simp] theorem trace_outcome (p : Problem R) (start : List R) (e : Ending) (s : State R) :
    (p.outcome start e s).trace = s.trace := by
  cases e with
  | finished => exact trace_commit p _ _ _ _
  | illPosed | failed => rfl

theorem status_outcome (p : Problem R) (start : List R) (e : Ending) (s : State R) :
    ((∃ fault, e = .failed fault) ↔ (p.outcome start e s).status = .evaluationError) ∧
    (e = .finished → (p.outcome start e s).status = .converged ∨
      (p.outcome start e s).status = .solutionRejected) := by
  cases e with
  | finished =>
    rw [outcome, status_commit]
    cases p.accepts s.best.point <;> simp
  | illPosed => simp [outcome]
  | failed fault => simp [outcome]

end

/-- The iteration of a solve from `start` ends in a state, after residuals were found at `start`. -/
def Ends (p : Problem R) (settings : Settings R) (start : List R) (e : Ending) (s : State R) :
    Prop :=
  ∃ residuals, p.residual 0 start = .ok residuals ∧
    (State.begin settings (.ofResiduals start residuals)).finish p settings = some (e, s)

/-- The four ways through a solve. -/
inductive Solved (p : Problem R) (settings : Settings R) : Option (List R) → Outcome R → Prop
  /-- There is nowhere to start. -/
  | noStart : Solved p settings none ⟨.serializationError, none, {}, [], [.noGuess]⟩
  /-- No variable may move. -/
  | nothingActive {start} (active : p.active = []) :
      Solved p settings (some start) (p.commit start {} [] [.nothingActive])
  /-- There are no residuals at the start. -/
  | unevaluated {start fault} (active : p.active ≠ [])
      (evaluated : p.residual 0 start = .error fault) :
      Solved p settings (some start)
        ⟨.evaluationError, some start, {}, [.evaluate start], [.caught fault]⟩
  /-- The iteration ends. -/
  | iterated {start e s} (active : p.active ≠ []) (ends : p.Ends settings start e s) :
      Solved p settings (some start) (p.outcome start e s)

theorem solved_of_solve {start : Option (List R)} {o : Outcome R}
    (h : p.solve settings start = some o) : p.Solved settings start o := by
  cases start with
  | none =>
    obtain rfl := Option.some.inj h
    exact .noStart
  | some start =>
    rw [solve] at h
    by_cases hactive : p.active = []
    · rw [hactive, List.isEmpty_nil, if_pos rfl] at h
      obtain rfl := Option.some.inj h
      exact .nothingActive hactive
    · rw [if_neg (by rwa [List.isEmpty_iff]), iterate] at h
      cases hevaluated : p.residual 0 start with
      | error fault =>
        rw [hevaluated] at h
        obtain rfl := Option.some.inj h
        exact .unevaluated hactive hevaluated
      | ok residuals =>
        rw [hevaluated] at h
        obtain ⟨⟨e, s⟩, hfinish, rfl⟩ := Option.map_eq_some_iff.mp h
        exact .iterated hactive ⟨residuals, hevaluated, hfinish⟩

/-- **If steps from related states are related, then so are solves.** The two problems have to agree
on whether a variable may move, on the residuals at the start and on what can be committed. Where
one solve has an outcome the other one has one as well. -/
theorem exists_solve_of_related {p p' : Problem R} {settings settings' : Settings R}
    {Running : State R → State R → Prop} {Ended : Ending × State R → Ending × State R → Prop}
    {Same : Outcome R → Outcome R → Prop} (hactive : p'.active = [] ↔ p.active = [])
    (hresidual : ∀ x, p'.residual 0 x = p.residual 0 x) (haccepts : p'.accepts = p.accepts)
    (hrefl : ∀ o, Same o o)
    (hbegin : ∀ first, Progress.Related Running Ended (State.begin settings first)
      (State.begin settings' first))
    (hstep : ∀ s s', Running s s' →
      Progress.Related Running Ended (s.step p settings) (s'.step p' settings'))
    (houtcome : ∀ start e s e' s', Ended (e, s) (e', s') →
      Same (p.outcome start e s) (p'.outcome start e' s'))
    {start : Option (List R)} {o : Outcome R} (h : p.solve settings start = some o) :
    ∃ o', p'.solve settings' start = some o' ∧ Same o o' := by
  cases solved_of_solve h with
  | noStart => exact ⟨_, rfl, hrefl _⟩
  | nothingActive hnone =>
    refine ⟨_, ?_, hrefl _⟩
    rw [solve, hactive.mpr hnone, List.isEmpty_nil, if_pos rfl, commit, commit, haccepts]
  | unevaluated hsome hevaluated =>
    refine ⟨_, ?_, hrefl _⟩
    rw [solve, if_neg (by rwa [List.isEmpty_iff, hactive]), iterate, hresidual, hevaluated]
  | @iterated start e s hsome hends =>
    obtain ⟨residuals, hevaluated, hfinish⟩ := hends
    obtain ⟨⟨e', s'⟩, hfinish', hended⟩ := (hbegin _).exists_finish hstep hfinish
    refine ⟨p'.outcome start e' s', ?_, houtcome start e s e' s' hended⟩
    rw [solve, if_neg (by rwa [List.isEmpty_iff, hactive]), iterate, hresidual, hevaluated]
    simp only [hfinish', Option.map_some]

/-- **Under a limit that counts can reach, every solve has an outcome.** -/
theorem exists_solve {bound : Nat} (hlimit : settings.limit = .atMost bound) (p : Problem R)
    (start : Option (List R)) : ∃ o, p.solve settings start = some o := by
  cases start with
  | none => exact ⟨_, rfl⟩
  | some start =>
    rw [solve]
    split
    · exact ⟨_, rfl⟩
    · rw [iterate]
      split
      · exact ⟨_, rfl⟩
      next residuals hevaluated =>
        obtain ⟨e, s, hfinish⟩ :=
          Progress.exists_finish hlimit p (State.begin settings (.ofResiduals start residuals))
        exact ⟨p.outcome start e s, by simp only [hfinish, Option.map_some]⟩

/-- A solve can be watched: if so many steps end the iteration, and in such a way that its outcome
passes a test, then the solve has an outcome that passes the test. -/
theorem exists_solve_of_test (p : Problem R) (settings : Settings R) (start residuals : List R)
    (n : Nat) (test : Outcome R → Bool) (hactive : p.active ≠ [])
    (hevaluated : p.residual 0 start = .ok residuals)
    (h : ((Progress.next p settings)^[n] (State.begin settings
      (.ofResiduals start residuals))).passes (fun e s ↦ test (p.outcome start e s)) = true) :
    ∃ o, p.solve settings (some start) = some o ∧ test o = true := by
  cases hprogress : (Progress.next p settings)^[n] (State.begin settings
      (.ofResiduals start residuals)) with
  | running s =>
    rw [hprogress] at h
    exact nomatch h
  | ended e s =>
    rw [hprogress] at h
    refine ⟨p.outcome start e s, ?_, h⟩
    rw [solve, if_neg (by rwa [List.isEmpty_iff]), iterate, hevaluated]
    simp only [Progress.finish_of_iterate hprogress, Option.map_some]

end Problem

/-! ## Problems for examples

The problem that most examples are about has one variable and one condition, `x = 3`, but its
residual changes its nature beyond `2`: it may be undefined there, or fail. Steps that are too bold
end up beyond the wall, and have to be damped. -/

/-- A problem with one variable, one condition and one worker. -/
def Problem.inOneVariable {R : Type} (residual : Residual R) (diffStep : Amount R) : Problem R where
  conditions := 1
  dimension := 1
  residual
  diffStep
  workers := (Number.truth true).workers
  pattern := none
  active := [0]
  accepts x := x.length = 1
  pattern_shape := by simp
  active_nodup := by simp
  active_lt := by simp

open PartialRat in
/-- The wall, with what lies beyond it. -/
def wall (beyond : Except Fault (List PartialRat)) : Problem PartialRat where
  conditions := 1
  dimension := 1
  residual _ x := if x.all (· ≤ ofRat 2) then .ok (x.map (· - ofRat 3)) else beyond
  diffStep := .scalar (ofRat (1 / 4))
  workers := (Number.truth true).workers
  pattern := none
  active := [0]
  accepts x := x.length = 1
  pattern_shape := by simp
  active_nodup := by simp
  active_lt := by simp

open PartialRat in
/-- Two updates at most, two trials for each Jacobian, and little damping at first. -/
def wallSettings : Settings PartialRat where
  limit := .atMost 2
  epsilon := 0
  initialDamping := some (.scalar (ofRat (1 / 8)))
  eta := .scalar (ofRat 8)
  verbose := true

/-- Settings with enough damping for the first step to stay before a wall. -/
def cautiousSettings : Settings PartialRat :=
  { wallSettings with initialDamping := some (.whole 1) }

end DampedLeastSquares
