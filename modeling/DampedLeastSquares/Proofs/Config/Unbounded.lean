import DampedLeastSquares.Proofs.Config.File
import DampedLeastSquares.Proofs.Config.Magnitudes
import DampedLeastSquares.Proofs.Solve.Run

/-!
# Policies that do not stop

The bound of a stopping policy is refused if it is below one. A number that is undefined is below
nothing, so it is accepted, and so is one above all others. Neither is ever reached by a count. The
number of workers is checked in the same form. All other settings are refused unless they are in
their range, in which no undefined number is.

Under a bound that is finite every solve comes back. Without one a solve may go on for ever: where a
step is rejected, and the damping is so small that it does not grow when it is multiplied, the same
step is tried again and again.
-/

namespace DampedLeastSquares

/-! ## Accepted settings -/

namespace Number

/-- A number lies in a range. An undefined one lies in none. -/
def IsIn (a : Number) (range : Set EReal) : Prop := ∃ v ∈ range, a.place? = some v

/-- A number is a real number. -/
def IsReal (a : Number) : Prop := ∃ v : ℝ, a.place? = some (v : EReal)

theorem isIn_Ici_iff (a : Number) (bound : Int) :
    a.IsIn (Set.Ici ((bound : ℝ) : EReal)) ↔ a.isAtLeast bound = true := by
  simp only [IsIn, isAtLeast_iff, Set.mem_Ici, and_comm]

theorem isIn_Ioi_iff (a : Number) (bound : Int) :
    a.IsIn (Set.Ioi ((bound : ℝ) : EReal)) ↔ a.isAbove bound = true := by
  simp only [IsIn, isAbove_iff, Set.mem_Ioi, and_comm]

theorem isBelow_eq_false_iff_isIn (a : Number) (bound : Int) :
    a.isBelow bound = false ↔ a.place? = none ∨ a.IsIn (Set.Ici ((bound : ℝ) : EReal)) := by
  rw [isBelow_eq_false_iff, IsIn]
  cases a.place? <;> simp

end Number

section

variable {stopping s : Stopping} {d : Damping} {c : Differencing}
  {lambda verbose threads : Option Number} {maxCount epsilon eta diffStep : Number}

theorem Stopping.make_eq_ok_iff :
    make (some maxCount) (some epsilon) = .ok s ↔ s.maxCount = maxCount ∧ s.epsilon = epsilon := by
  constructor
  · intro h
    rw [make] at h
    split at h
    · dsimp only at h
      split at h
      · obtain rfl := Except.ok.inj h
        exact ⟨rfl, rfl⟩
      · cases h
    · cases h
  · rintro ⟨rfl, rfl⟩
    exact s.make_eq

theorem Damping.make_eq_ok_iff :
    make stopping lambda (some eta) verbose = .ok d ↔
      d.stopping = stopping ∧ d.initialLambda = lambda ∧ d.eta = eta ∧ d.verbose = verbose := by
  constructor
  · intro h
    rw [make] at h
    split at h
    · split at h
      · obtain rfl := Except.ok.inj h
        exact ⟨rfl, rfl, rfl, rfl⟩
      · split at h
        · obtain rfl := Except.ok.inj h
          exact ⟨rfl, rfl, rfl, rfl⟩
        · cases h
    · cases h
  · rintro ⟨rfl, rfl, rfl, rfl⟩
    exact d.make_eq

theorem Differencing.make_eq_ok_iff :
    make (some diffStep) threads = .ok c ↔ c.diffStep = diffStep ∧ c.threads = threads := by
  constructor
  · intro h
    rw [make] at h
    split at h
    · split at h
      · obtain rfl := Except.ok.inj h
        exact ⟨rfl, rfl⟩
      · split at h
        · obtain rfl := Except.ok.inj h
          exact ⟨rfl, rfl⟩
        · cases h
    · cases h
  · rintro ⟨rfl, rfl⟩
    exact c.make_eq

theorem Stopping.exists_make_iff :
    (∃ s, make (some maxCount) (some epsilon) = .ok s) ↔
      (maxCount.place? = none ∨ maxCount.IsIn (Set.Ici 1)) ∧ epsilon.IsIn (Set.Ici 0) := by
  have hmaxCount := maxCount.isBelow_eq_false_iff_isIn 1
  have hepsilon := epsilon.isIn_Ici_iff 0
  rw [Int.cast_one, EReal.coe_one] at hmaxCount
  rw [Int.cast_zero, EReal.coe_zero] at hepsilon
  rw [← hmaxCount, hepsilon]
  simp only [make_eq_ok_iff]
  constructor
  · rintro ⟨s, rfl, rfl⟩
    exact ⟨s.maxCount_ok, s.epsilon_ok⟩
  · rintro ⟨hm, he⟩
    exact ⟨⟨maxCount, epsilon, hm, he⟩, rfl, rfl⟩

theorem Damping.exists_make_iff :
    (∃ d, make stopping lambda (some eta) verbose = .ok d) ↔
      eta.IsIn (Set.Ioi 1) ∧ ∀ a ∈ lambda, a.IsIn (Set.Ici 0) := by
  have heta := eta.isIn_Ioi_iff 1
  have hlambda (a : Number) := a.isIn_Ici_iff 0
  rw [Int.cast_one, EReal.coe_one] at heta
  simp only [Int.cast_zero, EReal.coe_zero] at hlambda
  simp only [heta, hlambda, make_eq_ok_iff]
  constructor
  · rintro ⟨d, rfl, rfl, rfl, rfl⟩
    exact ⟨d.eta_ok, (Option.all_eq_true _ _).mp d.initialLambda_ok⟩
  · rintro ⟨he, hl⟩
    have hlambda := (Option.all_eq_true (·.isAtLeast 0) lambda).mpr hl
    exact ⟨⟨stopping, lambda, eta, verbose, he, hlambda⟩, rfl, rfl, rfl, rfl⟩

theorem Differencing.exists_make_iff :
    (∃ c, make (some diffStep) threads = .ok c) ↔
      diffStep.IsIn (Set.Ioi 0) ∧ ∀ a ∈ threads, a.place? = none ∨ a.IsIn (Set.Ici 0) := by
  have hstep := diffStep.isIn_Ioi_iff 0
  have hthreads (a : Number) := a.isBelow_eq_false_iff_isIn 0
  rw [Int.cast_zero, EReal.coe_zero] at hstep
  simp only [Int.cast_zero, EReal.coe_zero] at hthreads
  simp only [hstep, ← hthreads, make_eq_ok_iff]
  constructor
  · rintro ⟨c, rfl, rfl⟩
    exact ⟨c.diffStep_ok, by simpa [Option.all_eq_true] using c.threads_ok⟩
  · rintro ⟨hd, hn⟩
    exact ⟨⟨diffStep, threads, hd, by simpa [Option.all_eq_true] using hn⟩, rfl, rfl⟩

end

/-! ## Counts -/

namespace Stopping

variable {s : Stopping}

theorem limit_of_place? {v : ℝ} (h : s.maxCount.place? = some (v : EReal)) :
    s.limit = .atMost ⌈v⌉₊ := by
  rw [limit, Number.ceiling?_of_place? h]

theorem place?_of_not_isReal (h : ¬s.maxCount.IsReal) :
    s.maxCount.place? = none ∨ s.maxCount.place? = some ⊤ := by
  rcases hplace : s.maxCount.place? with _ | v
  · exact Or.inl rfl
  · induction v with
    | bot =>
      have hle := Number.isBelow_eq_false_iff.mp s.maxCount_ok ⊥ hplace
      exact absurd (le_bot_iff.mp hle) (EReal.coe_ne_bot _)
    | coe v => exact absurd ⟨v, hplace⟩ h
    | top => exact Or.inr rfl

theorem limit_of_not_isReal (h : ¬s.maxCount.IsReal) : s.limit = .unbounded := by
  rw [limit, Number.ceiling?_eq_none_iff.mpr (place?_of_not_isReal h)]

theorem reached_iff {n : Nat} :
    s.limit.reached n = true ↔ ∃ v, s.maxCount.place? = some v ∧ v ≤ ((n : ℝ) : EReal) := by
  by_cases h : s.maxCount.IsReal
  · obtain ⟨v, hv⟩ := h
    rw [limit_of_place? hv, Limit.reached, decide_eq_true_iff, Nat.ceil_le, hv,
      ← EReal.coe_le_coe_iff]
    simp only [Option.some.injEq, exists_eq_left']
  · rw [limit_of_not_isReal h, Limit.reached]
    refine iff_of_false Bool.false_ne_true ?_
    rintro ⟨v, hv, hle⟩
    rcases place?_of_not_isReal h with hplace | hplace
    · cases hplace.symm.trans hv
    · obtain rfl := Option.some.inj (hplace.symm.trans hv)
      exact EReal.coe_ne_top _ (top_le_iff.mp hle)

/-- Counts reach the bound of a policy in the end exactly if it is a real number. -/
theorem exists_reached_iff : (∃ n, ∀ k, n ≤ k → s.limit.reached k = true) ↔ s.maxCount.IsReal := by
  constructor
  · rintro ⟨n, hn⟩
    by_contra h
    have hreached := hn n le_rfl
    rw [limit_of_not_isReal h] at hreached
    exact nomatch hreached
  · rintro ⟨v, hv⟩
    refine ⟨⌈v⌉₊, fun k hk ↦ ?_⟩
    rw [limit_of_place? hv, Limit.reached, decide_eq_true_iff]
    exact hk

end Stopping

/-! ## The same step again and again -/

section

variable {R : Type} [Scalar R] {p : Problem R} {settings : Settings R} {best : Visited R}
  {equations : NormalEquations R} {damping : Amount R} {step : List R} {reached : Visited R}

theorem State.Tried.step_eq {s : State R} {tried : Nat} {d : Decision R}
    (h : s.Tried p equations damping tried step reached)
    (hdecided : decideTrial settings.eta equations damping (s.best.error - reached.error) = .ok d) :
    s.step p settings
      = ({ s with interactions := s.interactions ++ [.evaluate reached.point] } : State R).conclude
        settings equations d tried step reached := by
  obtain ⟨⟨hphase, hresponsive, a, hread, hstep⟩, hmoved, hevaluated, herror⟩ := h
  obtain ⟨point, residuals, error⟩ := reached
  obtain rfl : error = Linear.rms residuals := herror
  have hattempt : s.step p settings = s.attempt p settings equations damping tried := by
    rw [State.step, hphase]
  rw [hattempt, attempt, hread]
  simp only [hresponsive, hstep, hmoved, hevaluated, judge, Visited.ofResiduals, hdecided]

theorem State.exists_step_of_outcome_eq_ok {s : State R}
    (hphase : s.phase = .linearise (some damping)) {jacobian : Jacobian R}
    (houtcome : (p.jacobianFrom (callCount s.interactions) s.best.point
      (Tensor.ofList s.best.residuals)).outcome = .ok jacobian) :
    ∃ s', s.step p settings = .running s' ∧ s'.best = s.best ∧ s'.trace = s.trace ∧
      s'.phase = .attempt (jacobian.normalEquations s.best.residuals) damping 0 := by
  have hstep : s.step p settings = s.linearise p (some damping) := by rw [State.step, hphase]
  simp only [hstep, linearise, houtcome]
  exact ⟨_, rfl, rfl, rfl, rfl⟩

/-- A trial from a point that leads nowhere: the step is rejected, and the damping is the same as
before. -/
structure Futile (p : Problem R) (settings : Settings R) (best : Visited R)
    (equations : NormalEquations R) (damping : Amount R) (step : List R) (reached : Visited R) :
    Prop where
  /-- The residuals respond to every active variable. -/
  responsive : equations.unresponsive = []
  /-- The step solves the damped equations. -/
  solves : ∃ a, damping.read = .ok a ∧ equations.step? a = some step
  /-- The step leads there. -/
  moved : p.applyUpdate best.point step = .ok reached.point
  /-- Whenever the residuals there are asked for, they are these. -/
  evaluated : ∀ n, p.residual n reached.point = .ok reached.residuals
  /-- The error there is theirs. -/
  error : reached.error = Linear.rms reached.residuals
  /-- The step is rejected, the damping could grow, and does not. -/
  decided : decideTrial settings.eta equations damping (best.error - reached.error)
    = .ok ⟨damping, false, false, damping⟩
  /-- There is damping. -/
  damped : Scalar.isZero damping.toScalar = false

/-- A step from the best point is about to be tried, and none has been accepted so far. -/
structure State.Circling (best : Visited R) (equations : NormalEquations R) (damping : Amount R)
    (s : State R) : Prop where
  /-- The best point. -/
  best : s.best = best
  /-- The next trial is with this damping. -/
  phase : ∃ tried, s.phase = .attempt equations damping tried
  /-- No step was accepted. -/
  updates : s.trace.updates = 0

namespace Futile

variable (hlimit : settings.limit = .unbounded)
  (h : Futile p settings best equations damping step reached)

include hlimit h

theorem finalAfter_eq_false {s : State R} (hupdates : s.trace.updates = 0) (tried : Nat) :
    s.finalAfter settings ⟨damping, false, false, damping⟩ tried step reached = false := by
  simp [State.finalAfter, isFinal, State.traceAfter, Trace.record, hlimit, Limit.reached, hupdates,
    h.damped]

theorem exists_conclude {s : State R} (hs : s.Circling best equations damping) (tried : Nat) :
    ∃ s', s.conclude settings equations ⟨damping, false, false, damping⟩ tried step reached
      = .running s' ∧ s'.Circling best equations damping := by
  rw [State.conclude, if_neg (Bool.eq_false_iff.mp (h.finalAfter_eq_false hlimit hs.updates tried))]
  refine ⟨_, rfl, ?_, ⟨tried + 1, State.phase_after_of_rejected rfl⟩, ?_⟩
  · rw [State.best_after_of_rejected rfl]
    exact hs.best
  · rw [State.updates_after_of_rejected rfl]
    exact hs.updates

/-- A futile trial is followed by the same one. -/
theorem exists_step {s : State R} (hs : s.Circling best equations damping) :
    ∃ s', s.step p settings = .running s' ∧ s'.Circling best equations damping := by
  obtain ⟨tried, hphase⟩ := hs.phase
  have htrial : s.Tried p equations damping tried step reached :=
    ⟨⟨hphase, h.responsive, h.solves⟩, hs.best ▸ h.moved, h.evaluated _, h.error⟩
  have hevaluated : ({ s with interactions := s.interactions ++ [.evaluate reached.point] } :
      State R).Circling best equations damping := ⟨hs.best, hs.phase, hs.updates⟩
  rw [htrial.step_eq (hs.best ▸ h.decided)]
  exact h.exists_conclude hlimit hevaluated tried

end Futile

/-- A step has led before a futile trial. -/
def Progress.Circling (best : Visited R) (equations : NormalEquations R) (damping : Amount R) :
    Progress R → Prop
  | .running s => s.Circling best equations damping
  | .ended _ _ => False

/-- **Before a futile trial the iteration goes on for ever,** if no count ends it. -/
theorem Futile.run_eq_none (hlimit : settings.limit = .unbounded)
    (h : Futile p settings best equations damping step reached) {s : State R}
    (hs : s.Circling best equations damping) : s.run p settings = none := by
  rcases hrun : s.run p settings with _ | ⟨e, s'⟩
  · rfl
  · -- A run that ended would have been circling to its end.
    refine (Progress.good_of_finish (Progress.Circling best equations damping) ?_
      (a := .running s) hs hrun).elim
    intro s hs
    obtain ⟨s', hs', hcircling⟩ := h.exists_step hlimit hs
    rw [hs']
    exact hcircling

end

/-- The residual of one variable that grows on either side of zero. -/
def valley : Problem Float :=
  .inOneVariable (fun _ x ↦ .ok (x.map fun a ↦ if a < 0 then 1 - a else 1 + a)) (.scalar 1)

/-- The least damping above zero, with a factor that does not let it grow. -/
def Stopping.leastDamping (s : Stopping) : Damping where
  stopping := s
  initialLambda := some (.real 5e-324)
  eta := .real 1.25
  verbose := none
  eta_ok := by decide +kernel
  initialLambda_ok := by decide +kernel

/-- At the bottom of the valley the difference quotient asks for a step to the other side, where the
residual is larger. -/
theorem futile_valley (s : Stopping) :
    Futile valley s.leastDamping.settings ⟨[0], [1], 1⟩ ⟨[[1]], [1]⟩ (.scalar 5e-324) [-1]
      ⟨[-1], [2], 2⟩ where
  responsive := by decide +kernel
  solves := ⟨5e-324, rfl, by decide +kernel⟩
  moved := by decide +kernel
  evaluated := fun n ↦ by
    have h : valley.residual 0 [-1] = .ok [2] := by decide +kernel
    exact h
  error := by decide +kernel
  decided := by
    have hreduction : ¬(0 : Float) < 1 - 2 := by decide +kernel
    have hproduct : (5e-324 : Float) * 1.25 = 5e-324 := by decide +kernel
    have hgrown : (Amount.scalar (5e-324 : Float)).mul (.scalar 1.25) = .ok (.scalar 5e-324) :=
      congrArg (fun a ↦ Except.ok (Amount.scalar a)) hproduct
    have hstalled : (⟨[[1]], [1]⟩ : NormalEquations Float).overflows (.scalar 5e-324)
        = .ok false := by decide +kernel
    have heta : s.leastDamping.settings.eta = .scalar 1.25 := rfl
    rw [heta, decideTrial, if_neg hreduction, hgrown]
    simp only [bind, Except.bind, hstalled]
    rfl
  damped := by decide +kernel

theorem exists_circling_valley (s : Stopping) :
    ∃ s', (State.initial s.leastDamping.settings (.ofResiduals [0] [1])).step valley
        s.leastDamping.settings = .running s' ∧
      s'.Circling ⟨[0], [1], 1⟩ ⟨[[1]], [1]⟩ (.scalar 5e-324) := by
  have hrms : Linear.rms [(1 : Float)] = 1 := by decide +kernel
  -- Only what the next step reads of the Jacobian can be evaluated: its equations.
  have hjacobian : (valley.jacobianFrom 1 [0] (Tensor.ofList [1])).outcome.toOption.map
      (fun j ↦ ((j.normalEquations [1]).matrix, (j.normalEquations [1]).gradient))
      = some ([[1]], [1]) := by decide +kernel
  generalize hbegun : State.initial s.leastDamping.settings (.ofResiduals [0] [1]) = begun
  cases houtcome : (valley.jacobianFrom 1 [0] (Tensor.ofList [1])).outcome with
  | error fault =>
    rw [houtcome] at hjacobian
    exact nomatch hjacobian
  | ok jacobian =>
    rw [houtcome] at hjacobian
    obtain ⟨hmatrix, hgradient⟩ := Prod.mk.inj (Option.some.inj hjacobian)
    have hequations : jacobian.normalEquations [1] = ⟨[[1]], [1]⟩ :=
      congrArg₂ NormalEquations.mk hmatrix hgradient
    have hphase : begun.phase = .linearise (some (.scalar 5e-324)) := by rw [← hbegun]; rfl
    have hbest : begun.best = ⟨[0], [1], 1⟩ := by
      rw [← hbegun]
      exact congrArg (Visited.mk [0] [1]) hrms
    have hupdates : begun.trace.updates = 0 := by rw [← hbegun]; rfl
    have hcalls : callCount begun.interactions = 1 := by rw [← hbegun]; rfl
    obtain ⟨s', hstep, hbest', htrace', hphase'⟩ :=
      State.exists_step_of_outcome_eq_ok hphase (by rw [hbest, hcalls]; exact houtcome)
    refine ⟨s', hstep, hbest'.trans hbest, ⟨0, ?_⟩, htrace' ▸ hupdates⟩
    rw [hphase', hbest, hequations]

/-- **Without a finite bound there is a solve that goes on for ever.** -/
theorem solve_valley {s : Stopping} (h : ¬s.maxCount.IsReal) :
    valley.solve s.leastDamping.settings (some [0]) = none := by
  have hevaluated : valley.residual 0 [0] = .ok [1] := by decide +kernel
  have hbegin : State.begin s.leastDamping.settings (.ofResiduals [0] [1])
      = .running (State.initial s.leastDamping.settings (.ofResiduals [0] [1])) := by
    rw [State.begin]
    exact if_neg Bool.false_ne_true
  obtain ⟨s', hstep, hcircling⟩ := exists_circling_valley s
  have hrun : s'.run valley s.leastDamping.settings = none :=
    (futile_valley s).run_eq_none (Stopping.limit_of_not_isReal h) hcircling
  rw [Problem.solve, if_neg (by decide), Problem.iterate, hevaluated]
  simp only [hbegin, Progress.finish]
  rw [State.run_eq_finish, hstep, Progress.finish, hrun]
  rfl

theorem Stopping.exists_solve_iff (s : Stopping) :
    (∀ d : Damping, d.stopping = s → ∀ (p : Problem Float) start,
      ∃ o, p.solve d.settings start = some o) ↔ s.maxCount.IsReal := by
  constructor
  · intro hall
    by_contra h
    obtain ⟨o, ho⟩ := hall s.leastDamping rfl valley (some [0])
    exact nomatch ho.symm.trans (solve_valley h)
  · rintro ⟨v, hv⟩ d rfl p start
    exact Problem.exists_solve (limit_of_place? hv) p start

/-- **An accepted policy bounds a solve exactly if its bound is a real number.** A policy is
accepted if its bound is undefined or at least one and its ratio is not negative. A count has then
reached the bound if it is not below it. There are counts from which on this is so, and every solve
under the policy comes back, exactly if the bound is a real number. A number of workers is accepted
if it is undefined or not negative. Every other setting is accepted in its range only, and so never
if it is undefined. -/
theorem Stopping.bounds_iff_isReal (maxCount epsilon eta diffStep : Number)
    (lambda verbose threads : Option Number) :
    ((∃ s, make (some maxCount) (some epsilon) = .ok s) ↔
      (maxCount.place? = none ∨ maxCount.IsIn (Set.Ici 1)) ∧ epsilon.IsIn (Set.Ici 0)) ∧
    (∀ s, make (some maxCount) (some epsilon) = .ok s →
      (∀ n : Nat, s.limit.reached n = true ↔
        ∃ v, maxCount.place? = some v ∧ v ≤ ((n : ℝ) : EReal)) ∧
      ((∃ n, ∀ k, n ≤ k → s.limit.reached k = true) ↔ maxCount.IsReal) ∧
      ((∀ d : Damping, d.stopping = s → ∀ (p : Problem Float) start,
        ∃ o, p.solve d.settings start = some o) ↔ maxCount.IsReal)) ∧
    (∀ s, (∃ d, Damping.make s lambda (some eta) verbose = .ok d) ↔
      eta.IsIn (Set.Ioi 1) ∧ ∀ a ∈ lambda, a.IsIn (Set.Ici 0)) ∧
    ((∃ c, Differencing.make (some diffStep) threads = .ok c) ↔
      diffStep.IsIn (Set.Ioi 0) ∧ ∀ a ∈ threads, a.place? = none ∨ a.IsIn (Set.Ici 0)) := by
  refine ⟨exists_make_iff, fun s hs ↦ ?_, fun s ↦ Damping.exists_make_iff,
    Differencing.exists_make_iff⟩
  obtain ⟨rfl, -⟩ := make_eq_ok_iff.mp hs
  exact ⟨fun n ↦ reached_iff, exists_reached_iff, s.exists_solve_iff⟩

/-- An undefined bound is accepted, no count reaches it, and there is a solve under it that goes on
for ever. An undefined number of workers is accepted as well. -/
theorem Stopping.bounds_iff_isReal_undefined :
    ∃ s, make (some (.real (0 / 0))) (some (.real 1e-6)) = .ok s ∧
      (∀ n, s.limit.reached n = false) ∧
      (∃ d : Damping, d.stopping = s ∧ ∃ (p : Problem Float) (start : Option (List Float)),
        p.solve d.settings start = none) ∧
      ∃ c, Differencing.make (some (.real 1e-3)) (some (.real (0 / 0))) = .ok c := by
  obtain ⟨haccepted, hpolicy, -, hworkers⟩ := bounds_iff_isReal (.real (0 / 0)) (.real 1e-6)
    (.real 10) (.real 1e-3) none none (some (.real (0 / 0)))
  have hundefined : (Number.real (0 / 0)).magnitude = .undefined := rfl
  have hplace : (Number.real (0 / 0)).place? = none := by
    rw [Number.place?, hundefined, Number.Magnitude.place?]
  have hepsilon : (Number.real 1e-6).IsIn (Set.Ici 0) := by
    have h := (Number.isIn_Ici_iff _ _).mpr ({} : Stopping).epsilon_ok
    rwa [Int.cast_zero, EReal.coe_zero] at h
  have hdiffStep : (Number.real 1e-3).IsIn (Set.Ioi 0) := by
    have h := (Number.isIn_Ioi_iff _ _).mpr ({} : Differencing).diffStep_ok
    rwa [Int.cast_zero, EReal.coe_zero] at h
  have hunreal : ¬(Number.real (0 / 0)).IsReal := by
    rintro ⟨_, hv⟩
    cases hplace.symm.trans hv
  obtain ⟨s, hs⟩ := haccepted.mpr ⟨Or.inl hplace, hepsilon⟩
  obtain ⟨hreached, -, hsolves⟩ := hpolicy s hs
  refine ⟨s, hs, fun n ↦ ?_, ?_, hworkers.mpr ⟨hdiffStep, ?_⟩⟩
  · rw [← Bool.not_eq_true, hreached, hplace]
    rintro ⟨_, hv, -⟩
    cases hv
  · by_contra hnever
    push Not at hnever
    refine hunreal (hsolves.mp fun d hd p start ↦ ?_)
    exact Option.ne_none_iff_exists'.mp (hnever d hd p start)
  · intro a ha
    rw [← Option.mem_some_iff.mp ha]
    exact Or.inl hplace

end DampedLeastSquares
