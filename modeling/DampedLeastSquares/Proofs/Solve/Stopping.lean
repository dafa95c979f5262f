import DampedLeastSquares.Proofs.Solve.Coherence
import DampedLeastSquares.Proofs.Solve.Damping

/-!
# When a solve stops

There are six reasons to stop after a trial, and they ask for different things: counts, the last two
improvements, the length of the step beside that of the best point, the damping that is left. A
course records none of the steps and none of the points. They can be found again, though: the number
of updates before a trial says which Jacobian it was made with, the interactions of the solve say
where that was computed and which equations it led to, and these and the damping of the trial
determine the step.

Reasons are therefore a matter of what a finished solve shows, and not of what the iteration had at
hand. A trial that has a reason is the last one of an iteration that finished, and no other trial
has one.

## What is known of a trial stays known

What bears on a trial are its `Circumstances`. They are looked up in lists that only grow, and at
positions that exist when the trial is recorded, so that nothing that comes later can give a reason
to a trial that had none.
-/

namespace DampedLeastSquares

variable {R : Type}

/-! ## The circumstances of a trial -/

/-- The number of steps accepted so far, after a trial. -/
def Trial.updatesAfter (t : Trial R) : Nat := if t.accepted then t.update + 1 else t.update

theorem Trial.updatesAfter_of_accepted {t : Trial R} (h : t.accepted = true) :
    t.updatesAfter = t.update + 1 := if_pos h

theorem Trial.updatesAfter_of_rejected {t : Trial R} (h : t.accepted = false) :
    t.updatesAfter = t.update := if_neg (Bool.not_eq_true _ ▸ h)

/-- The point at which an interaction asked for a Jacobian. -/
def Interaction.base? : Interaction R → Option (List R)
  | .differentiate x _ _ => some x
  | _ => none

/-- The points at which Jacobians were asked for, in order. -/
def bases (interactions : List (Interaction R)) : List (List R) :=
  interactions.filterMap Interaction.base?

/-- What bears on whether a trial is final. -/
structure Circumstances (R : Type) where
  /-- The equations of the Jacobian that the trial was made with. -/
  equations? : Option (NormalEquations R)
  /-- The point at which that Jacobian was computed. -/
  base? : Option (List R)
  /-- The improvements up to the trial. -/
  improvements : List R
  /-- The number of trials with that Jacobian, up to this one. -/
  tried : Nat

variable [Scalar R]

/-- The circumstances of the trial number `k` of a course. Each Jacobian follows an update, and so
the trials with one Jacobian are those with one number of updates before them. -/
def circumstances (p : Problem R) (interactions : List (Interaction R)) (trace : Trace R) (k : Nat)
    (t : Trial R) : Circumstances R where
  equations? := (p.systems interactions)[t.update]?
  base? := (bases interactions)[t.update]?
  improvements := trace.improvements.take t.updatesAfter
  tried := (trace.trials.take (k + 1)).countP fun t' ↦ t'.update == t.update

/-! ## Reasons -/

/-- The step of a trial, and the best point after the decision on it. -/
structure Trial.Moves (p : Problem R) (c : Circumstances R) (t : Trial R) (step best : List R) :
    Prop where
  /-- The step solves the equations with the damping of the trial. -/
  solves : ∃ equations a, c.equations? = some equations ∧ t.damping.read = .ok a ∧
    equations.step? a = some step
  /-- The best point is where the step leads if it was accepted, and where it began if not. -/
  reaches : ∃ base reached, c.base? = some base ∧ p.applyUpdate base step = .ok reached ∧
    best = if t.accepted then reached else base

/-- Why the iteration may end after a trial. -/
inductive StopReason
  /-- The limit of updates is reached. -/
  | updates
  /-- There were two updates, and the last improvement is too small beside the one before. -/
  | gain
  /-- There were two updates, and the step is too short beside the best point. -/
  | step
  /-- The step was rejected, and there is no damping that could grow. -/
  | undamped
  /-- The step was rejected, and the damping cannot grow within the finite values. -/
  | overflow
  /-- The step was rejected, and the limit of trials with one Jacobian is reached. -/
  | trials
  deriving DecidableEq, Repr

/-- A trial is final for a reason. -/
def Trial.FinalFor (p : Problem R) (settings : Settings R) (c : Circumstances R) (t : Trial R) :
    StopReason → Prop
  | .updates => settings.limit.reached t.updatesAfter = true
  | .gain => 1 < t.updatesAfter ∧ ∃ before previous last,
      c.improvements = before ++ [previous, last] ∧ last / previous < settings.epsilon
  | .step => 1 < t.updatesAfter ∧ ∃ step best, t.Moves p c step best ∧
      Scalar.isZero (Linear.norm best) = false ∧
      Linear.norm step / Linear.norm best < settings.epsilon
  | .undamped => t.accepted = false ∧ Scalar.isZero t.dampingAfter.toScalar = true
  | .overflow => t.accepted = false ∧ ∃ equations grown, c.equations? = some equations ∧
      t.damping.mul settings.eta = .ok grown ∧ ¬equations.Bears grown
  | .trials => t.accepted = false ∧ settings.limit.reached c.tried = true

/-- A trial is final if there is a reason. -/
def Trial.IsFinal (p : Problem R) (settings : Settings R) (c : Circumstances R) (t : Trial R) :
    Prop :=
  ∃ reason, t.FinalFor p settings c reason

/-- The trials of a course are final where they should be: the last one is if the iteration
finished, and no other is. -/
structure StopsExactly (p : Problem R) (settings : Settings R)
    (interactions : List (Interaction R)) (trace : Trace R) (finished : Prop) : Prop where
  /-- A trial is final exactly if it is the last one and the iteration finished with it. -/
  isFinal_iff : ∀ (k : Nat) (t : Trial R), trace.trials[k]? = some t →
    (t.IsFinal p settings (circumstances p interactions trace k t) ↔
      k + 1 = trace.trials.length ∧ finished)
  /-- An iteration that finished has a last trial. -/
  trials_ne_nil : finished → trace.trials ≠ []
  /-- Before there are two updates no ratio is a reason. -/
  no_ratio : trace.updates < 2 → ∀ (k : Nat) (t : Trial R), trace.trials[k]? = some t →
    ¬t.FinalFor p settings (circumstances p interactions trace k t) .gain ∧
    ¬t.FinalFor p settings (circumstances p interactions trace k t) .step

/-! ## The decision of the iteration -/

section decision

variable {p : Problem R} {settings : Settings R} {c : Circumstances R} {t : Trial R}

theorem ratioBelow_stepRatio (bound : R) (step point : List R) :
    ratioBelow bound (stepRatio step point) = true ↔
      Scalar.isZero (Linear.norm point) = false ∧
        Linear.norm step / Linear.norm point < bound := by
  rw [stepRatio]
  cases Scalar.isZero (Linear.norm point) <;> simp [ratioBelow]

omit [Scalar R] in
theorem exists_eq_append_pair {improvements : List R} (h : 1 < improvements.length) :
    ∃ before previous last, improvements = before ++ [previous, last] := by
  obtain ⟨init, last, rfl⟩ := List.eq_nil_or_concat improvements |>.resolve_left fun hnil ↦ by
    rw [hnil] at h
    exact Nat.not_lt_zero 1 h
  obtain ⟨before, previous, rfl⟩ := List.eq_nil_or_concat init |>.resolve_left fun hnil ↦ by
    rw [hnil] at h
    exact Nat.lt_irrefl 1 h
  exact ⟨before, previous, last, by simp⟩

theorem gainRatio_lt_iff {bound : R} {improvements : List R} (h : 1 < improvements.length) :
    gainRatio improvements < bound ↔
      ∃ before previous last, improvements = before ++ [previous, last] ∧
        last / previous < bound := by
  obtain ⟨before, previous, last, rfl⟩ := exists_eq_append_pair h
  rw [gainRatio_append]
  refine ⟨fun hlt ↦ ⟨before, previous, last, rfl, hlt⟩, ?_⟩
  rintro ⟨before', previous', last', heq, hlt⟩
  obtain ⟨-, hpair⟩ := List.append_inj' heq rfl
  obtain ⟨rfl, rfl⟩ : previous = previous' ∧ last = last' := by simpa using hpair
  exact hlt

theorem Trial.Moves.unique {step step' best best' : List R} (h : t.Moves p c step best)
    (h' : t.Moves p c step' best') : step = step' ∧ best = best' := by
  obtain ⟨⟨equations, a, hequations, hread, hstep⟩, base, reached, hbase, hreached, rfl⟩ := h
  obtain ⟨⟨equations', a', hequations', hread', hstep'⟩, base', reached', hbase', hreached', rfl⟩ :=
    h'
  obtain rfl := Option.some.inj (hequations.symm.trans hequations')
  obtain rfl := Except.ok.inj (hread.symm.trans hread')
  obtain rfl := Option.some.inj (hstep.symm.trans hstep')
  obtain rfl := Option.some.inj (hbase.symm.trans hbase')
  obtain rfl := Except.ok.inj (hreached.symm.trans hreached')
  exact ⟨rfl, rfl⟩

/-- **The iteration ends after a trial exactly if there is a reason.** It decides by what it has at
hand, which has to be what the circumstances of the trial show. -/
theorem isFinal_iff_exists_reason {d : Decision R} {ratio : Option R} {step best : List R}
    (hratio : ratio = stepRatio step best) (haccepted : t.accepted = d.accepted)
    (hafter : t.dampingAfter = d.dampingAfter) (hmoves : t.Moves p c step best)
    (himprovements : c.improvements.length = t.updatesAfter)
    (hstalled : d.accepted = false → (d.stalled = true ↔ ∃ equations grown,
      c.equations? = some equations ∧ t.damping.mul settings.eta = .ok grown ∧
        ¬equations.Bears grown)) :
    isFinal settings d t.updatesAfter c.tried c.improvements ratio = true ↔
      t.IsFinal p settings c := by
  have hgain : 1 < t.updatesAfter ∧ gainRatio c.improvements < settings.epsilon ↔
      t.FinalFor p settings c .gain :=
    and_congr_right fun hupdates ↦ gainRatio_lt_iff (himprovements.symm ▸ hupdates)
  have hstep : 1 < t.updatesAfter ∧ ratioBelow settings.epsilon ratio = true ↔
      t.FinalFor p settings c .step := by
    refine and_congr_right fun _ ↦ ?_
    rw [hratio, ratioBelow_stepRatio]
    refine ⟨fun hbelow ↦ ⟨step, best, hmoves, hbelow⟩, ?_⟩
    rintro ⟨step', best', hmoves', hbelow⟩
    obtain ⟨rfl, rfl⟩ := hmoves.unique hmoves'
    exact hbelow
  have hrejected : d.accepted = false ∧ (Scalar.isZero d.dampingAfter.toScalar = true ∨
      d.stalled = true ∨ settings.limit.reached c.tried = true) ↔
      t.FinalFor p settings c .undamped ∨ t.FinalFor p settings c .overflow ∨
        t.FinalFor p settings c .trials := by
    simp only [Trial.FinalFor, haccepted, hafter, ← and_or_left]
    exact and_congr_right fun hno ↦ or_congr_right (or_congr_left (hstalled hno))
  -- The reasons are gone through in the order in which the iteration asks for them.
  have hcases : t.IsFinal p settings c ↔ t.FinalFor p settings c .updates ∨
      t.FinalFor p settings c .gain ∨ t.FinalFor p settings c .step ∨
      t.FinalFor p settings c .undamped ∨ t.FinalFor p settings c .overflow ∨
      t.FinalFor p settings c .trials := by
    constructor
    · rintro ⟨reason, h⟩
      cases reason <;> simp only [h, true_or, or_true]
    · rintro (h | h | h | h | h | h) <;> exact ⟨_, h⟩
  rw [hcases, ← hrejected, ← hgain, ← hstep, isFinal]
  simp only [Bool.or_eq_true, Bool.and_eq_true, decide_eq_true_eq, Bool.not_eq_true',
    Trial.FinalFor, or_assoc]

end decision

/-! ## What a step keeps -/

omit [Scalar R] in
theorem bases_append (interactions : List (Interaction R)) (i : Interaction R) :
    bases (interactions ++ [i]) = bases interactions ++ i.base?.toList := by
  rw [bases, List.filterMap_append]
  cases h : i.base? <;> simp [bases, h]

omit [Scalar R] in
theorem bases_append_evaluate (interactions : List (Interaction R)) (x : List R) :
    bases (interactions ++ [.evaluate x]) = bases interactions := by
  rw [bases_append]
  exact List.append_nil _

omit [Scalar R] in
theorem bases_prefix_append (interactions more : List (Interaction R)) :
    bases interactions <+: bases (interactions ++ more) := by
  rw [bases, bases, List.filterMap_append]
  exact List.prefix_append _ _

theorem getElem?_concat_eq_some {α : Type} {l : List α} {a b : α} {k : Nat}
    (h : (l ++ [a])[k]? = some b) : l[k]? = some b ∨ k = l.length ∧ a = b := by
  rcases Nat.lt_or_ge k l.length with hlt | hge
  · exact Or.inl (List.getElem?_append_left hlt ▸ h)
  · have hlength := (List.getElem?_eq_some_iff.mp h).1
    rw [List.length_append, List.length_singleton] at hlength
    obtain rfl : k = l.length := by omega
    rw [List.getElem?_concat_length] at h
    exact Or.inr ⟨rfl, Option.some.inj h⟩

/-- Lists of trials, equations, points and improvements may grow behind what is looked up in them.
-/
theorem circumstances_eq_of_extend {p : Problem R}
    {interactions interactions' : List (Interaction R)} {trace trace' : Trace R} {k : Nat}
    {t : Trial R} (hk : trace.trials[k]? = some t)
    (hsystems : p.systems interactions <+: p.systems interactions')
    (hbases : bases interactions <+: bases interactions')
    (himprovements : trace.improvements <+: trace'.improvements)
    (htrials : trace.trials <+: trace'.trials)
    (hupdate : t.update < (p.systems interactions).length)
    (hbase : t.update < (bases interactions).length)
    (hafter : t.updatesAfter ≤ trace.improvements.length) :
    circumstances p interactions' trace' k t = circumstances p interactions trace k t := by
  obtain ⟨systems, hsystems⟩ := hsystems
  obtain ⟨points, hpoints⟩ := hbases
  obtain ⟨improvements, himprovements⟩ := himprovements
  obtain ⟨trials, htrials⟩ := htrials
  have hlt := (List.getElem?_eq_some_iff.mp hk).1
  rw [circumstances, circumstances, ← hsystems, ← hpoints, ← himprovements, ← htrials,
    List.getElem?_append_left hupdate, List.getElem?_append_left hbase,
    List.take_append_of_le_length hafter, List.take_append_of_le_length hlt]

/-- Before there are two updates no ratio is a reason. -/
theorem Trial.not_finalFor_of_updatesAfter {p : Problem R} {settings : Settings R}
    {c : Circumstances R} {t : Trial R} (h : t.updatesAfter < 2) :
    ¬t.FinalFor p settings c .gain ∧ ¬t.FinalFor p settings c .step :=
  ⟨fun hgain ↦ Nat.not_lt_of_le hgain.1 h, fun hstep ↦ Nat.not_lt_of_le hstep.1 h⟩

namespace State

/-- While the iteration goes on no trial is final, and what the course and the interactions show of
the Jacobian that is in use is what the state holds. -/
structure Open (p : Problem R) (settings : Settings R) (s : State R) : Prop
    extends s.Steered p settings where
  /-- No trial is final. -/
  not_isFinal : ∀ (k : Nat) (t : Trial R), s.trace.trials[k]? = some t →
    ¬t.IsFinal p settings (circumstances p s.interactions s.trace k t)
  /-- There is an improvement for each update. -/
  length_improvements : s.trace.improvements.length = s.trace.updates
  /-- Every trial was made with one of the Jacobians. -/
  update_lt : ∀ t ∈ s.trace.trials, t.update < (p.systems s.interactions).length
  /-- No trial leaves more updates than there are. -/
  updatesAfter_le : ∀ t ∈ s.trace.trials, t.updatesAfter ≤ s.trace.updates
  /-- There is a point for each Jacobian, and the Jacobian in use is that of the best point. -/
  round : match s.phase with
    | .linearise _ => (bases s.interactions).length = s.trace.updates
    | .attempt _ _ tried => ∃ earlier, bases s.interactions = earlier ++ [s.best.point] ∧
        earlier.length = s.trace.updates ∧
        s.trace.trials.countP (fun t ↦ t.update == s.trace.updates) = tried

namespace Open

variable {p : Problem R} {settings : Settings R} {s : State R}

theorem length_bases (h : s.Open p settings) :
    (bases s.interactions).length = (p.systems s.interactions).length := by
  have hround := h.round
  have hphase := h.phase
  cases hs : s.phase with
  | linearise damping =>
    rw [hs] at hround hphase
    exact hround.trans hphase.1.symm
  | attempt equations damping tried =>
    rw [hs] at hround hphase
    obtain ⟨earlier, hbases, hlength, -⟩ := hround
    obtain ⟨earlier', hsystems, hlength', -⟩ := hphase
    rw [hbases, hsystems, List.length_append, List.length_append, hlength, hlength']
    rfl

theorem circumstances_eq (h : s.Open p settings) {interactions : List (Interaction R)}
    {trace : Trace R} (hsystems : p.systems s.interactions <+: p.systems interactions)
    (hbases : bases s.interactions <+: bases interactions)
    (himprovements : s.trace.improvements <+: trace.improvements)
    (htrials : s.trace.trials <+: trace.trials) {k : Nat} {t : Trial R}
    (hk : s.trace.trials[k]? = some t) :
    circumstances p interactions trace k t = circumstances p s.interactions s.trace k t := by
  have ht := List.mem_of_getElem? hk
  have hupdate := h.update_lt t ht
  exact circumstances_eq_of_extend hk hsystems hbases himprovements htrials hupdate
    (h.length_bases.symm ▸ hupdate) (h.length_improvements.symm ▸ h.updatesAfter_le t ht)

theorem stopsExactly (h : s.Open p settings) {interactions : List (Interaction R)}
    (hsystems : p.systems s.interactions <+: p.systems interactions)
    (hbases : bases s.interactions <+: bases interactions) {finished : Prop} (hno : ¬finished) :
    StopsExactly p settings interactions s.trace finished where
  isFinal_iff k t hk := by
    rw [h.circumstances_eq hsystems hbases (List.prefix_refl _) (List.prefix_refl _) hk]
    exact iff_of_false (h.not_isFinal k t hk) fun hlast ↦ hno hlast.2
  trials_ne_nil hfinished := absurd hfinished hno
  no_ratio hupdates k t hk := Trial.not_finalFor_of_updatesAfter
    ((h.updatesAfter_le t (List.mem_of_getElem? hk)).trans_lt hupdates)

theorem linearised (h : s.Open p settings) {damping : Option (Amount R)}
    (hphase : s.phase = .linearise damping) {points : List (List R)} {j : Jacobian R}
    (hcalled : p.jacobianFrom (callCount s.interactions) s.best.point
      (Tensor.ofList s.best.residuals) = ⟨points, .ok j⟩) (records : List (Record R)) :
    ({ s with
      interactions := s.interactions ++ [.differentiate s.best.point s.best.residuals points]
      phase := .attempt (j.normalEquations s.best.residuals)
        (damping.getD (.scalar (j.normalEquations s.best.residuals).initialDamping)) 0
      records } : State R).Open p settings := by
  have hsystems := Problem.systems_append_of_ok hcalled
  have hbases := bases_append s.interactions (.differentiate s.best.point s.best.residuals points)
  have hround := h.round
  have hlength := h.phase
  rw [hphase] at hround hlength
  have hprefix : p.systems s.interactions <+: p.systems (s.interactions ++
      [.differentiate s.best.point s.best.residuals points]) := hsystems ▸ List.prefix_append _ _
  refine ⟨h.toSteered.linearised hphase hcalled records, fun k t hk ↦ ?_, h.length_improvements,
    fun t ht ↦ (h.update_lt t ht).trans_le hprefix.length_le, h.updatesAfter_le,
    _, hbases, hround, ?_⟩
  · rw [h.circumstances_eq hprefix (hbases ▸ List.prefix_append _ _) (List.prefix_refl _)
      (List.prefix_refl _) hk]
    exact h.not_isFinal k t hk
  · -- The Jacobian is new, and so no trial has its number of updates before it.
    refine List.countP_eq_zero.mpr fun t ht ↦ ?_
    have hupdate := h.update_lt t ht
    rw [hlength.1] at hupdate
    simpa using hupdate.ne

section

variable {equations : NormalEquations R} {damping : Amount R} {tried : Nat} {d : Decision R}
  {step : List R} {reached : Visited R}

theorem exists_earlier (h : s.Open p settings)
    (hphase : s.phase = .attempt equations damping tried) :
    ∃ earlier, bases s.interactions = earlier ++ [s.best.point] ∧
      earlier.length = s.trace.updates ∧
      s.trace.trials.countP (fun t ↦ t.update == s.trace.updates) = tried := by
  have hround := h.round
  rwa [hphase] at hround

theorem updatesAfter_newTrial :
    (s.newTrial d reached).updatesAfter = (s.traceAfter d reached).updates := by
  rw [traceAfter, Trace.record]
  cases haccepted : d.accepted with
  | true => exact Trial.updatesAfter_of_accepted haccepted
  | false => exact Trial.updatesAfter_of_rejected haccepted

theorem length_improvements_after (h : s.Open p settings) :
    (s.traceAfter d reached).improvements.length = (s.traceAfter d reached).updates := by
  rw [traceAfter, Trace.record]
  cases d.accepted with
  | true => simp [h.length_improvements]
  | false => simpa using h.length_improvements

theorem circumstances_newTrial (h : s.Open p settings)
    (hphase : s.phase = .attempt equations damping tried) :
    circumstances p (s.interactions ++ [.evaluate reached.point]) (s.traceAfter d reached)
        s.trace.trials.length (s.newTrial d reached)
      = ⟨some equations, some s.best.point, (s.traceAfter d reached).improvements, tried + 1⟩ := by
  obtain ⟨earlier, hsystems, hlength, -⟩ := h.toSteered.exists_earlier hphase
  obtain ⟨earlier', hbases, hlength', htried⟩ := h.exists_earlier hphase
  have hupdate : (s.newTrial d reached).update = s.trace.updates := rfl
  have htrials : (s.traceAfter d reached).trials = s.trace.trials ++ [s.newTrial d reached] := rfl
  have hall : (s.trace.trials ++ [s.newTrial d reached]).take (s.trace.trials.length + 1)
      = s.trace.trials ++ [s.newTrial d reached] := List.take_of_length_le (by simp)
  rw [circumstances, Problem.systems_append_evaluate, bases_append_evaluate, hupdate, hsystems,
    hbases, htrials, hall, updatesAfter_newTrial, ← h.length_improvements_after, List.take_length,
    ← hlength, List.getElem?_concat_length, hlength, ← hlength', List.getElem?_concat_length,
    hlength', List.countP_append, htried, List.countP_singleton, hupdate, beq_self_eq_true,
    if_pos rfl]

theorem finalAfter_iff (h : s.Open p settings)
    (htrial : s.Tried p equations damping tried step reached)
    (hdecided : decideTrial settings.eta equations damping (s.best.error - reached.error)
      = .ok d) :
    s.finalAfter settings d tried step reached = true ↔
      (s.newTrial d reached).IsFinal p settings
        (circumstances p (s.interactions ++ [.evaluate reached.point]) (s.traceAfter d reached)
          s.trace.trials.length (s.newTrial d reached)) := by
  obtain ⟨a, hread, hstep⟩ := htrial.solves
  have hdamping : (s.newTrial d reached).damping = damping := damping_of_decideTrial hdecided
  rw [h.circumstances_newTrial htrial.phase]
  have hmoves : (s.newTrial d reached).Moves p
      ⟨some equations, some s.best.point, (s.traceAfter d reached).improvements, tried + 1⟩ step
      (s.bestAfter d reached).point := by
    refine ⟨⟨equations, a, rfl, hdamping ▸ hread, hstep⟩, s.best.point, reached.point, rfl,
      htrial.moved, ?_⟩
    exact apply_ite Visited.point _ _ _
  have hstalled : d.accepted = false → (d.stalled = true ↔ ∃ equations' grown,
      some equations = some equations' ∧ (s.newTrial d reached).damping.mul settings.eta
        = .ok grown ∧ ¬equations'.Bears grown) := by
    intro hrejected
    rcases decideTrial_eq_ok hdecided with ⟨-, shrunk, -, rfl⟩ |
      ⟨-, grown, stalled, hmul, hoverflows, rfl⟩
    · exact nomatch hrejected
    · rw [hdamping, hmul]
      have hbears := NormalEquations.overflows_eq_ok hoverflows
      constructor
      · intro hstall
        refine ⟨equations, grown, rfl, rfl, fun hok ↦ ?_⟩
        exact Bool.false_ne_true ((hbears.mpr hok).symm.trans hstall)
      · rintro ⟨_, _, hequations, hgrown, hoverflow⟩
        obtain rfl := Option.some.inj hequations
        obtain rfl := Except.ok.inj hgrown
        exact Bool.of_not_eq_false fun hno ↦ hoverflow (hbears.mp hno)
  rw [finalAfter, ← updatesAfter_newTrial]
  refine isFinal_iff_exists_reason (c := ⟨_, _, _, tried + 1⟩) rfl rfl rfl hmoves ?_ hstalled
  rw [updatesAfter_newTrial]
  exact h.length_improvements_after

theorem not_isFinal_after (h : s.Open p settings) {k : Nat} {t : Trial R}
    (hk : s.trace.trials[k]? = some t) :
    ¬t.IsFinal p settings (circumstances p (s.interactions ++ [.evaluate reached.point])
      (s.traceAfter d reached) k t) := by
  have himprovements : s.trace.improvements <+: (s.traceAfter d reached).improvements := by
    rw [traceAfter, Trace.record]
    cases d.accepted with
    | true => exact List.prefix_append _ _
    | false => exact List.prefix_refl _
  rw [h.circumstances_eq (Problem.systems_append_evaluate (p := p) _ ▸ List.prefix_refl _)
    (bases_append_evaluate s.interactions _ ▸ List.prefix_refl _) himprovements
    (List.prefix_append _ _) hk]
  exact h.not_isFinal k t hk

theorem updatesAfter_le_after (h : s.Open p settings) {t : Trial R}
    (ht : t ∈ s.trace.trials ++ [s.newTrial d reached]) :
    t.updatesAfter ≤ (s.traceAfter d reached).updates := by
  rcases List.mem_append.mp ht with ht | ht
  · have hle : s.trace.updates ≤ (s.traceAfter d reached).updates := by
      rw [traceAfter, Trace.record]
      cases d.accepted <;> simp
    exact (h.updatesAfter_le t ht).trans hle
  · obtain rfl := List.mem_singleton.mp ht
    exact updatesAfter_newTrial.le

/-- A trial that is final ends the iteration, and is the first one that is. -/
theorem stopsExactly_after (h : s.Open p settings)
    (hfinal : (s.newTrial d reached).IsFinal p settings
      (circumstances p (s.interactions ++ [.evaluate reached.point]) (s.traceAfter d reached)
        s.trace.trials.length (s.newTrial d reached))) {finished : Prop} (hyes : finished) :
    StopsExactly p settings (s.interactions ++ [.evaluate reached.point])
      (s.traceAfter d reached) finished where
  isFinal_iff k t hk := by
    have htrials : (s.traceAfter d reached).trials = s.trace.trials ++ [s.newTrial d reached] := rfl
    rw [htrials] at hk ⊢
    rw [List.length_append, List.length_singleton]
    rcases getElem?_concat_eq_some hk with hk | ⟨rfl, rfl⟩
    · have hlt := (List.getElem?_eq_some_iff.mp hk).1
      exact iff_of_false (h.not_isFinal_after hk) fun hlast ↦ by omega
    · exact iff_of_true hfinal ⟨rfl, hyes⟩
  trials_ne_nil _ := List.append_ne_nil_of_right_ne_nil _ (List.cons_ne_nil _ _)
  no_ratio hupdates k t hk := Trial.not_finalFor_of_updatesAfter
    ((h.updatesAfter_le_after (List.mem_of_getElem? hk)).trans_lt hupdates)

theorem after (h : s.Open p settings)
    (htrial : s.Tried p equations damping tried step reached)
    (hdamped : Damped settings (p.systems (s.interactions ++ [.evaluate reached.point]))
      (s.trace.trials ++ [s.newTrial d reached]) False)
    (hfinal : ¬(s.newTrial d reached).IsFinal p settings
      (circumstances p (s.interactions ++ [.evaluate reached.point]) (s.traceAfter d reached)
        s.trace.trials.length (s.newTrial d reached))) :
    (({ s with interactions := s.interactions ++ [.evaluate reached.point] } : State R).after
      settings equations d tried step reached).Open p settings := by
  obtain ⟨earlier, hsystems, hlength, -⟩ := h.toSteered.exists_earlier htrial.phase
  obtain ⟨earlier', hbases, hlength', htried⟩ := h.exists_earlier htrial.phase
  refine ⟨h.toSteered.after htrial hdamped, fun k t hk ↦ ?_, h.length_improvements_after,
    fun t ht ↦ ?_, fun t ht ↦ h.updatesAfter_le_after ht, ?_⟩
  · rcases getElem?_concat_eq_some hk with hk | ⟨rfl, rfl⟩
    · exact h.not_isFinal_after hk
    · exact hfinal
  · rw [interactions_after, Problem.systems_append_evaluate]
    rcases List.mem_append.mp ht with ht | ht
    · exact h.update_lt t ht
    · obtain rfl := List.mem_singleton.mp ht
      rw [hsystems, List.length_append, hlength]
      exact Nat.lt_succ_self _
  · cases haccepted : d.accepted with
    | true =>
      rw [phase_after_of_accepted haccepted, updates_after_of_accepted haccepted,
        interactions_after, bases_append_evaluate, hbases, List.length_append, hlength']
      rfl
    | false =>
      rw [phase_after_of_rejected haccepted, updates_after_of_rejected haccepted,
        best_after_of_rejected haccepted, interactions_after, bases_append_evaluate, trials_after]
      refine ⟨earlier', hbases, hlength', ?_⟩
      rw [List.countP_append, htried, List.countP_singleton]
      simp [newTrial]

end

end Open

end State

/-- What a step has led to has stopped exactly where it should, if it has stopped. -/
def Progress.StopsExactly (p : Problem R) (settings : Settings R) : Progress R → Prop
  | .running s => s.Open p settings
  | .ended e s => DampedLeastSquares.StopsExactly p settings s.interactions s.trace (e = .finished)

/-- **A step stops exactly where it should.** -/
theorem State.Open.step {p : Problem R} {settings : Settings R} {s : State R}
    (h : s.Open p settings) : Progress.StopsExactly p settings (s.step p settings) := by
  have hmove := move_step p settings s
  generalize s.step p settings = a at hmove ⊢
  cases hmove with
  | linearised hphase hcalled => exact h.linearised hphase hcalled _
  | stuck => exact h.stopsExactly (List.prefix_refl _) (List.prefix_refl _) nofun
  | failed hfailure =>
    exact h.stopsExactly (hfailure.systems.symm ▸ List.prefix_refl _) (bases_prefix_append _ _)
      nofun
  | @tried _ _ _ _ _ d htrial hdecided =>
    have hfinalAfter := h.finalAfter_iff htrial hdecided
    rw [State.conclude]
    split
    next hfinal => exact h.stopsExactly_after (hfinalAfter.mp hfinal) rfl
    next hfinal =>
      have hdamped := h.toSteered.damped_after htrial hdecided
      exact h.after htrial (hdamped.imp fun hstall ↦
        hfinal (finalAfter_of_stalled hstall.1 hstall.2)) (mt hfinalAfter.mpr hfinal)

/-! ## Solves -/

namespace Problem

variable {p : Problem R} {settings : Settings R}

theorem stopsExactly_begin (start : Visited R) :
    Progress.StopsExactly p settings (State.begin settings start) := by
  have htrace := State.trace_begin settings start
  have hphase := State.phase_begin settings start
  have hinteractions := State.interactions_begin settings start
  have hsteered : Progress.Steered p settings (State.begin settings start) := steered_begin start
  cases hbegin : State.begin settings start with
  | ended e s =>
    rw [hbegin, Progress.state_ended] at htrace
    obtain ⟨fault, rfl⟩ := State.exists_fault_of_begin hbegin
    refine ⟨fun k t hk ↦ ?_, nofun, fun _ k t hk ↦ ?_⟩
    · rw [htrace] at hk
      exact nomatch hk
    · rw [htrace] at hk
      exact nomatch hk
  | running s =>
    rw [hbegin, Progress.state_running] at htrace hphase hinteractions
    rw [hbegin] at hsteered
    refine ⟨hsteered, ?_, ?_, ?_, ?_, ?_⟩
    · rw [htrace]
      exact nofun
    · rw [htrace]
      rfl
    · rw [htrace]
      exact nofun
    · rw [htrace]
      exact nofun
    · rw [hphase, htrace, hinteractions]
      rfl

theorem stopsExactly_of_ends {start : List R} {e : Ending} {s : State R}
    (h : p.Ends settings start e s) :
    StopsExactly p settings s.interactions s.trace (e = .finished) := by
  obtain ⟨residuals, -, hfinish⟩ := h
  exact Progress.good_of_finish (Progress.StopsExactly p settings) (fun _ hs ↦ hs.step)
    (stopsExactly_begin _) hfinish

theorem stopsExactly_of_nil {interactions : List (Interaction R)} {trace : Trace R}
    (htrials : trace.trials = []) {finished : Prop} (hno : ¬finished) :
    StopsExactly p settings interactions trace finished := by
  refine ⟨fun k t hk ↦ ?_, fun hfinished ↦ absurd hfinished hno, fun _ k t hk ↦ ?_⟩
  · rw [htrials] at hk
    exact nomatch hk
  · rw [htrials] at hk
    exact nomatch hk

omit [Scalar R] in
theorem finished_iff_status_outcome (p : Problem R) (start : List R) (e : Ending) (s : State R) :
    e = .finished ↔ (p.outcome start e s).status = .converged ∨
      (p.outcome start e s).status = .solutionRejected := by
  refine ⟨(p.status_outcome start e s).2, ?_⟩
  cases e with
  | finished => exact fun _ ↦ rfl
  | illPosed | failed => rintro (h | h) <;> exact nomatch h

theorem circumstances_outcome (p : Problem R) (start : List R) (e : Ending) (s : State R) (k : Nat)
    (t : Trial R) : circumstances p (p.outcome start e s).interactions s.trace k t
      = circumstances p s.interactions s.trace k t := by
  have hbases : bases (p.outcome start e s).interactions = bases s.interactions := by
    cases e with
    | finished =>
      rw [outcome, interactions_commit, bases_append]
      exact List.append_nil _
    | illPosed | failed => rfl
  rw [circumstances, circumstances, systems_outcome, hbases]

/-- **A solve stops exactly when there is a reason.** If its iteration finished, then the last trial
is final, and no trial before it is; if it ended in any other way, no trial is. Before there are two
updates neither ratio is a reason. Nothing is assumed of the scalars. Under a limit that counts can
reach there is such a solve. -/
theorem stopsExactly_of_solve (p : Problem R) (settings : Settings R) (start : Option (List R)) :
    (∀ bound, settings.limit = .atMost bound → ∃ o, p.solve settings start = some o) ∧
    ∀ o, p.solve settings start = some o →
      StopsExactly p settings o.interactions o.trace
        (p.active ≠ [] ∧ (o.status = .converged ∨ o.status = .solutionRejected)) := by
  refine ⟨fun bound hlimit ↦ exists_solve hlimit p start, fun o ho ↦ ?_⟩
  cases solved_of_solve ho with
  | noStart => exact stopsExactly_of_nil rfl (by simp)
  | nothingActive hactive =>
    refine stopsExactly_of_nil ?_ fun h ↦ h.1 hactive
    rw [trace_commit]
  | unevaluated => exact stopsExactly_of_nil rfl (by simp)
  | @iterated start e s hactive hends =>
    have hstops := stopsExactly_of_ends hends
    rw [finished_iff_status_outcome p start e s] at hstops
    rw [trace_outcome]
    refine ⟨fun k t hk ↦ ?_, fun h ↦ hstops.trials_ne_nil h.2, fun hupdates k t hk ↦ ?_⟩
    · rw [circumstances_outcome, hstops.isFinal_iff k t hk]
      exact and_congr_right fun _ ↦ (and_iff_right hactive).symm
    · rw [circumstances_outcome]
      exact hstops.no_ratio hupdates k t hk

open PartialRat in
/-- The problem `x² = 0`, on which every undamped step leads about half the way. Like the wall, it
has one variable and one condition. Beyond a number of calls the residual function fails. -/
def parabola (lasts : Nat) : Problem PartialRat :=
  { wall (.ok []) with
    residual := fun calls x ↦ if calls < lasts then .ok (x.map fun a ↦ a * a)
      else .error (.raised .value "worn out") }

open PartialRat in
/-- No damping, and an end as soon as an improvement is less than half the one before. -/
def halvingSettings : Settings PartialRat where
  limit := .atMost 10
  epsilon := ofRat (1 / 2)
  initialDamping := some (.whole 0)
  eta := .scalar (ofRat 8)
  verbose := false

open PartialRat in
/-- On the parabola the second improvement is less than half the first, so that the second trial is
final and the first is not. Where the residual function fails after one trial, none is. -/
theorem stopsExactly_parabola :
    (∃ o first second, (parabola 10).solve halvingSettings (some [1]) = some o ∧
      o.trace.trials = [first, second] ∧
      ¬first.IsFinal (parabola 10) halvingSettings
        (circumstances (parabola 10) o.interactions o.trace 0 first) ∧
      second.IsFinal (parabola 10) halvingSettings
        (circumstances (parabola 10) o.interactions o.trace 1 second)) ∧
    ∃ o only, (parabola 4).solve halvingSettings (some [1]) = some o ∧
      o.status = .evaluationError ∧ o.trace.trials = [only] ∧
      ¬only.IsFinal (parabola 4) halvingSettings
        (circumstances (parabola 4) o.interactions o.trace 0 only) := by
  constructor
  · obtain ⟨o, ho, htest⟩ := exists_solve_of_test (parabola 10) halvingSettings [1] [1] 4
      (fun o ↦ decide (o.status = .converged ∧ o.trace.trials.length = 2))
      (by decide) (by decide +kernel) (by decide +kernel)
    obtain ⟨hstatus, hlength⟩ := of_decide_eq_true htest
    obtain ⟨first, second, htrials⟩ := List.length_eq_two.mp hlength
    obtain ⟨-, hsolves⟩ := stopsExactly_of_solve (parabola 10) halvingSettings (some [1])
    have hiff := (hsolves o ho).isFinal_iff
    refine ⟨o, first, second, ho, htrials, ?_, ?_⟩
    · rw [hiff 0 first (by rw [htrials]; rfl), hlength]
      exact fun hlast ↦ absurd hlast.1 (by decide)
    · rw [hiff 1 second (by rw [htrials]; rfl), hlength]
      exact ⟨rfl, List.cons_ne_nil 0 [], Or.inl hstatus⟩
  · obtain ⟨o, ho, htest⟩ := exists_solve_of_test (parabola 4) halvingSettings [1] [1] 4
      (fun o ↦ decide (o.status = .evaluationError ∧ o.trace.trials.length = 1))
      (by decide) (by decide +kernel) (by decide +kernel)
    obtain ⟨hstatus, hlength⟩ := of_decide_eq_true htest
    obtain ⟨only, htrials⟩ := List.length_eq_one_iff.mp hlength
    obtain ⟨-, hsolves⟩ := stopsExactly_of_solve (parabola 4) halvingSettings (some [1])
    refine ⟨o, only, ho, hstatus, htrials, ?_⟩
    rw [(hsolves o ho).isFinal_iff 0 only (by rw [htrials]; rfl), hstatus]
    rintro ⟨-, -, h | h⟩ <;> exact nomatch h

end Problem

end DampedLeastSquares
