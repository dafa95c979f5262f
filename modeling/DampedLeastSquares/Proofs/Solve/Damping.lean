import DampedLeastSquares.Proofs.Jacobian.Columns
import DampedLeastSquares.Proofs.Scalar.Rounding
import DampedLeastSquares.Proofs.Solve.Run
import Mathlib.Data.List.Chain

/-!
# The course of the damping

Damping passes from trial to trial: what one trial leaves, the next one is made with, whether or not
a Jacobian was computed in between. It shrinks with an accepted trial and grows with a rejected one,
unless it cannot grow within the finite values; then it stays as it is, and the iteration is over.
The first trial alone finds its damping elsewhere, in the settings or in the first equations.

That a trial is rejected for good depends on the equations it was made with. A course does not
record them, but the interactions of a solve determine them, and a trial knows how many updates were
made before it. Its equations are those of that number.

## Why nothing infinite is recorded

A damping from the settings may be infinite, and one from the first equations may be undefined. No
trial is made with such a damping: each entry of the damped matrix would be tainted by it, and such
a matrix has no step. From then on every damping is a quotient by a number above one, or a product
that was found to be finite.
-/

namespace DampedLeastSquares

variable {R : Type} [Scalar R]

/-! ## The equations of a Jacobian -/

theorem Linear.allFinite_of_solve? {rows : List (List R)} {rhs xs : List R}
    (h : solve? rows rhs = some xs) : rows.all allFinite = true := by
  by_contra hinfinite
  rw [solve?.eq_def, if_neg fun hfinite ↦ hinfinite (Bool.and_eq_true_iff.mp hfinite).1] at h
  exact nomatch h

theorem NormalEquations.allFinite_of_step? {equations : NormalEquations R} {a : R} {step : List R}
    (h : equations.step? a = some step) :
    (equations.damped a).all Linear.allFinite = true := by
  rw [step?] at h
  split at h
  next hsolve => exact Linear.allFinite_of_solve? hsolve
  · exact nomatch h

namespace Jacobian

variable (j : Jacobian R) (residuals : List R)

theorem diagonal_normalEquations :
    (j.normalEquations residuals).diagonal = j.columns.map fun u ↦ Linear.dot u u := by
  refine List.ext_getElem ?_ fun i hi hi' ↦ ?_
  · simp [NormalEquations.diagonal, normalEquations]
  · rw [List.length_map] at hi'
    simp [NormalEquations.diagonal, normalEquations, hi']

variable [LawfulRounding R]

theorem nonneg_mean_diagonal
    (h : Scalar.isFinite (Linear.mean (j.normalEquations residuals).diagonal) = true) :
    0 ≤ Linear.mean (j.normalEquations residuals).diagonal := by
  rw [diagonal_normalEquations] at h ⊢
  refine Linear.nonneg_mean (fun a ha hfinite ↦ ?_) h
  obtain ⟨u, -, rfl⟩ := List.mem_map.mp ha
  exact Linear.nonneg_dot_self hfinite

theorem isFinite_of_step? (hcolumns : j.columns ≠ []) {a : R} {step : List R}
    (h : (j.normalEquations residuals).step? a = some step) : Scalar.isFinite a = true := by
  obtain ⟨u, us, hj⟩ := List.exists_cons_of_ne_nil hcolumns
  have hallFinite := NormalEquations.allFinite_of_step? h
  -- The first entry of the damped matrix is as good as any: the damping is a factor of it.
  have hentry : Scalar.isFinite (Linear.dot u u + a * Linear.dot u u) = true := by
    simp only [NormalEquations.damped, normalEquations, hj, List.map_cons, List.mapIdx_cons,
      List.all_cons, Linear.allFinite, if_true, Bool.and_eq_true] at hallFinite
    exact hallFinite.1.1
  exact (LawfulRounding.finite_of_mul (LawfulRounding.finite_of_add hentry).2).1

end Jacobian

namespace NormalEquations

/-- The damping stays within the finite values, and so do its products with the diagonal. -/
def Bears (equations : NormalEquations R) (damping : Amount R) : Prop :=
  Scalar.isFinite damping.toScalar = true ∧
    ∀ a ∈ equations.diagonal, Scalar.isFinite (damping.toScalar * a) = true

theorem overflows_eq_ok {equations : NormalEquations R} {damping : Amount R} {b : Bool}
    (h : equations.overflows damping = .ok b) : b = false ↔ equations.Bears damping := by
  rw [overflows] at h
  cases hread : damping.readWord with
  | error fault =>
    rw [hread] at h
    exact nomatch h
  | ok d =>
    rw [hread] at h
    rw [Bears, Amount.toScalar_of_readWord hread, ← Except.ok.inj h]
    simp

end NormalEquations

/-! ## The equations of a solve -/

namespace Problem

variable (p : Problem R)

/-- The equations that an interaction leads to, `calls` calls after the start. -/
def system? (calls : Nat) : Interaction R → Option (NormalEquations R)
  | .differentiate x residuals _ =>
    (p.jacobianFrom calls x (Tensor.ofList residuals)).outcome.toOption.map
      (·.normalEquations residuals)
  | _ => none

/-- The equations that some interactions lead to, in order. -/
def systemsFrom : Nat → List (Interaction R) → List (NormalEquations R)
  | _, [] => []
  | calls, i :: rest => (p.system? calls i).toList ++ systemsFrom (calls + i.calls.length) rest

/-- The equations of a solve with the given interactions: one system for each Jacobian that could be
computed. -/
def systems (interactions : List (Interaction R)) : List (NormalEquations R) :=
  p.systemsFrom 0 interactions

variable {p} {interactions : List (Interaction R)} {x residuals : List R}

theorem systemsFrom_append (calls : Nat) (interactions : List (Interaction R))
    (i : Interaction R) :
    p.systemsFrom calls (interactions ++ [i])
      = p.systemsFrom calls interactions
        ++ (p.system? (calls + callCount interactions) i).toList := by
  induction interactions generalizing calls with
  | nil => simp [systemsFrom, callCount]
  | cons first rest ih =>
    have hcalls : callCount (first :: rest) = first.calls.length + callCount rest := by
      rw [callCount, List.flatMap_cons, List.length_append]
      rfl
    rw [List.cons_append, systemsFrom, systemsFrom, ih, List.append_assoc, hcalls, Nat.add_assoc]

theorem systems_append (i : Interaction R) :
    p.systems (interactions ++ [i])
      = p.systems interactions ++ (p.system? (callCount interactions) i).toList := by
  rw [systems, systemsFrom_append, Nat.zero_add]
  rfl

theorem systems_append_evaluate (x : List R) :
    p.systems (interactions ++ [.evaluate x]) = p.systems interactions := by
  rw [systems_append]
  exact List.append_nil _

theorem systems_append_commit (x : List R) (accepted : Bool) :
    p.systems (interactions ++ [.commit x accepted]) = p.systems interactions := by
  rw [systems_append]
  exact List.append_nil _

theorem systems_append_of_error {points : List (List R)} {fault : Fault}
    (hcalled : p.jacobianFrom (callCount interactions) x (Tensor.ofList residuals)
      = ⟨points, .error fault⟩) :
    p.systems (interactions ++ [.differentiate x residuals points]) = p.systems interactions := by
  rw [systems_append, system?, hcalled]
  exact List.append_nil _

theorem systems_append_of_ok {points : List (List R)} {j : Jacobian R}
    (hcalled : p.jacobianFrom (callCount interactions) x (Tensor.ofList residuals)
      = ⟨points, .ok j⟩) :
    p.systems (interactions ++ [.differentiate x residuals points])
      = p.systems interactions ++ [j.normalEquations residuals] := by
  rw [systems_append, system?, hcalled]
  rfl

theorem exists_jacobian_of_mem_systemsFrom {calls : Nat} {equations : NormalEquations R}
    (h : equations ∈ p.systemsFrom calls interactions) :
    ∃ (j : Jacobian R) (residuals : List R), j.columns.length = p.active.length ∧
      equations = j.normalEquations residuals := by
  induction interactions generalizing calls with
  | nil => exact nomatch h
  | cons i rest ih =>
    rcases List.mem_append.mp h with h | h
    · cases i with
      | evaluate | commit => exact nomatch h
      | differentiate x residuals points =>
        obtain ⟨j, hj, rfl⟩ := Option.map_eq_some_iff.mp (Option.mem_toList.mp h)
        refine ⟨j, residuals, ?_, rfl⟩
        rcases hcalled : p.jacobianFrom calls x (Tensor.ofList residuals) with ⟨points', outcome⟩
        rw [hcalled] at hj
        cases outcome with
        | error fault => exact nomatch hj
        | ok j' =>
          obtain rfl : j' = j := Option.some.inj hj
          exact (length_jacobianFrom hcalled).2
    · exact ih h

theorem systems_outcome (start : List R) (e : Ending) (s : State R) :
    p.systems (p.outcome start e s).interactions = p.systems s.interactions := by
  cases e with
  | finished => rw [outcome, interactions_commit, systems_append_commit]
  | illPosed | failed => rfl

end Problem

/-! ## The law -/

/-- What becomes of the damping in a trial that was made with the given equations. A damping without
room to grow stays as it is, which must not happen unless the trial may stall. -/
structure Trial.Follows (eta : Amount R) (equations : NormalEquations R) (mayStall : Prop)
    (t : Trial R) : Prop where
  /-- The equations have a step for the damping. -/
  solved : ∃ a step, t.damping.read = .ok a ∧ equations.step? a = some step
  /-- If the trial was accepted then its damping shrinks. -/
  accepted : t.accepted = true → t.damping.div eta = .ok t.dampingAfter
  /-- If it was rejected then its damping grows, unless the equations do not bear that. -/
  rejected : t.accepted = false → ∃ grown, t.damping.mul eta = .ok grown ∧
    (equations.Bears grown → t.dampingAfter = grown) ∧
    (¬equations.Bears grown → t.dampingAfter = t.damping ∧ mayStall)

/-- The law of the damping for trials made with some systems of equations. Only the last trial may
stall, and only if `stops`. -/
structure Damped (settings : Settings R) (systems : List (NormalEquations R))
    (trials : List (Trial R)) (stops : Prop) : Prop where
  /-- The first damping is given, or it is the mean of the diagonal of the first system. -/
  first : ∀ t, trials[0]? = some t → ∃ equations, systems[0]? = some equations ∧
    t.damping = settings.initialDamping.getD (.scalar (Linear.mean equations.diagonal))
  /-- Every other damping is what the trial before it left. -/
  next : trials.IsChain fun t t' ↦ t'.damping = t.dampingAfter
  /-- A trial leaves what its result and its equations demand. -/
  follows : ∀ (k : Nat) (t : Trial R), trials[k]? = some t →
    ∃ equations, systems[t.update]? = some equations ∧
      t.Follows settings.eta equations (k + 1 = trials.length ∧ stops)

/-- The damping that the next trial is due to be made with, unless the first equations decide. -/
def dueDamping (settings : Settings R) (trials : List (Trial R)) : Option (Amount R) :=
  (trials.getLast?.map Trial.dampingAfter).or settings.initialDamping

section

variable {settings : Settings R} {systems : List (NormalEquations R)} {trials : List (Trial R)}
  {stops : Prop} {t : Trial R} {eta : Amount R} {equations : NormalEquations R} {mayStall : Prop}

omit [Scalar R] in
@[simp] theorem dueDamping_append (settings : Settings R) (trials : List (Trial R))
    (t : Trial R) : dueDamping settings (trials ++ [t]) = some t.dampingAfter := by
  rw [dueDamping, List.getLast?_concat]
  rfl

theorem Trial.Follows.imp (h : t.Follows eta equations mayStall) {mayStall' : Prop}
    (himp : mayStall → mayStall') : t.Follows eta equations mayStall' := by
  refine ⟨h.solved, h.accepted, fun hrejected ↦ ?_⟩
  obtain ⟨grown, hgrown, hbears, hstays⟩ := h.rejected hrejected
  exact ⟨grown, hgrown, hbears, fun hoverflow ↦ (hstays hoverflow).imp_right himp⟩

theorem damped_nil (settings : Settings R) (systems : List (NormalEquations R)) (stops : Prop) :
    Damped settings systems [] stops :=
  ⟨nofun, List.isChain_nil, nofun⟩

theorem Damped.imp (h : Damped settings systems trials stops) {stops' : Prop}
    (himp : stops → stops') : Damped settings systems trials stops' := by
  refine ⟨h.first, h.next, fun k t hk ↦ ?_⟩
  obtain ⟨equations, hequations, hfollows⟩ := h.follows k t hk
  exact ⟨equations, hequations, hfollows.imp fun hstall ↦ hstall.imp_right himp⟩

theorem Damped.extend (h : Damped settings systems trials stops)
    (more : List (NormalEquations R)) : Damped settings (systems ++ more) trials stops := by
  have hmore : ∀ {i : Nat} {equations : NormalEquations R}, systems[i]? = some equations →
      (systems ++ more)[i]? = some equations := by
    intro i equations hi
    rwa [List.getElem?_append_left (List.getElem?_eq_some_iff.mp hi).1]
  refine ⟨fun t ht ↦ ?_, h.next, fun k t hk ↦ ?_⟩
  · obtain ⟨equations, hequations, hdamping⟩ := h.first t ht
    exact ⟨equations, hmore hequations, hdamping⟩
  · obtain ⟨equations, hequations, hfollows⟩ := h.follows k t hk
    exact ⟨equations, hmore hequations, hfollows⟩

/-- One more trial keeps to the law if it is made with the damping that is due. -/
theorem Damped.append (h : Damped settings systems trials False)
    (hequations : systems[t.update]? = some equations) (hstart : trials = [] → t.update = 0)
    (hdue : t.damping
      = (dueDamping settings trials).getD (.scalar (Linear.mean equations.diagonal)))
    (hfollows : t.Follows settings.eta equations stops) :
    Damped settings systems (trials ++ [t]) stops := by
  refine ⟨fun t' ht' ↦ ?_, ?_, fun k t' hk ↦ ?_⟩
  · cases trials with
    | nil =>
      obtain rfl := Option.some.inj ht'
      rw [hstart rfl] at hequations
      exact ⟨equations, hequations, hdue⟩
    | cons first rest => exact h.first t' ht'
  · refine h.next.append (List.isChain_singleton t) fun previous hprevious t' ht' ↦ ?_
    obtain rfl := Option.some.inj ht'
    rw [hdue, dueDamping, Option.mem_def.mp hprevious]
    rfl
  · -- The earlier trials have not stalled, and so the new one may come after them.
    rcases Nat.lt_or_ge k trials.length with hlt | hge
    · rw [List.getElem?_append_left hlt] at hk
      obtain ⟨equations', hequations', hfollows'⟩ := h.follows k t' hk
      exact ⟨equations', hequations', hfollows'.imp fun hstall ↦ hstall.2.elim⟩
    · have hlength := (List.getElem?_eq_some_iff.mp hk).1
      rw [List.length_append, List.length_singleton] at hlength
      obtain rfl : k = trials.length := by omega
      rw [List.getElem?_concat_length] at hk
      obtain rfl := Option.some.inj hk
      refine ⟨equations, hequations, hfollows.imp fun hstops ↦ ⟨?_, hstops⟩⟩
      rw [List.length_append, List.length_singleton]

end

/-! ## What a step keeps -/

/-- A decision follows the law. It stalls exactly if the equations do not bear the grown damping. -/
theorem follows_of_decideTrial {eta damping : Amount R} {equations : NormalEquations R}
    {reduction a : R} {step : List R} {d : Decision R} (hread : damping.read = .ok a)
    (hstep : equations.step? a = some step)
    (h : decideTrial eta equations damping reduction = .ok d) (update : Nat) (error : R) :
    (⟨update, d.damping, error, d.accepted, d.dampingAfter⟩ : Trial R).Follows eta equations
      (d.accepted = false ∧ d.stalled = true) := by
  rcases decideTrial_eq_ok h with ⟨-, shrunk, hdiv, rfl⟩ |
    ⟨-, grown, stalled, hmul, hoverflows, rfl⟩
  · exact ⟨⟨a, step, hread, hstep⟩, fun _ ↦ hdiv, nofun⟩
  · refine ⟨⟨a, step, hread, hstep⟩, nofun, fun _ ↦ ?_⟩
    have hbears := NormalEquations.overflows_eq_ok hoverflows
    refine ⟨grown, hmul, fun hok ↦ ?_, fun hoverflow ↦ ?_⟩
    · exact if_neg (Bool.eq_false_iff.mp (hbears.mpr hok))
    · have hstalled : stalled = true := Bool.of_not_eq_false fun hno ↦ hoverflow (hbears.mp hno)
      exact ⟨if_pos hstalled, rfl, hstalled⟩

theorem State.finalAfter_of_stalled {settings : Settings R} {s : State R} {d : Decision R}
    {tried : Nat} {step : List R} {reached : Visited R} (hrejected : d.accepted = false)
    (hstalled : d.stalled = true) : s.finalAfter settings d tried step reached = true := by
  simp [finalAfter, isFinal, hrejected, hstalled]

namespace State

/-- While the iteration goes on, no trial has stalled, and the damping of the next one is due. -/
structure Steered (p : Problem R) (settings : Settings R) (s : State R) : Prop where
  /-- The trials so far keep to the law. -/
  damped : Damped settings (p.systems s.interactions) s.trace.trials False
  /-- An update takes a trial. -/
  start : s.trace.trials = [] → s.trace.updates = 0
  /-- There is a system for each update, and one for the start as soon as it was needed. -/
  phase : match s.phase with
    | .linearise damping => (p.systems s.interactions).length = s.trace.updates ∧
        damping = dueDamping settings s.trace.trials
    | .attempt equations damping _ => ∃ earlier,
        p.systems s.interactions = earlier ++ [equations] ∧ earlier.length = s.trace.updates ∧
        damping = (dueDamping settings s.trace.trials).getD
          (.scalar (Linear.mean equations.diagonal))

end State

/-- A step has kept to the law. When the iteration has ended, the last trial may have stalled. -/
def Progress.Steered (p : Problem R) (settings : Settings R) : Progress R → Prop
  | .running s => s.Steered p settings
  | .ended e s => Damped settings (p.systems s.interactions) s.trace.trials (e = .finished)

namespace State

variable {p : Problem R} {settings : Settings R} {s : State R}

theorem Failure.systems {fault : Fault} {more : List (Interaction R)}
    (h : s.Failure p settings fault more) :
    p.systems (s.interactions ++ more) = p.systems s.interactions := by
  cases h with
  | jacobian _ hcalled => exact Problem.systems_append_of_error hcalled
  | damping | update => rw [List.append_nil]
  | residual | decision => exact Problem.systems_append_evaluate _

namespace Steered

theorem linearised (h : s.Steered p settings) {damping : Option (Amount R)}
    (hphase : s.phase = .linearise damping) {points : List (List R)} {j : Jacobian R}
    (hcalled : p.jacobianFrom (callCount s.interactions) s.best.point
      (Tensor.ofList s.best.residuals) = ⟨points, .ok j⟩) (records : List (Record R)) :
    ({ s with
      interactions := s.interactions ++ [.differentiate s.best.point s.best.residuals points]
      phase := .attempt (j.normalEquations s.best.residuals)
        (damping.getD (.scalar (j.normalEquations s.best.residuals).initialDamping)) 0
      records } : State R).Steered p settings := by
  have hsystems := Problem.systems_append_of_ok hcalled
  have hs := h.phase
  rw [hphase] at hs
  obtain ⟨hlength, rfl⟩ := hs
  refine ⟨?_, h.start, ⟨_, hsystems, hlength, rfl⟩⟩
  simp only [hsystems]
  exact h.damped.extend _

section

variable {equations : NormalEquations R} {damping : Amount R} {tried : Nat} {d : Decision R}
  {step : List R} {reached : Visited R}

theorem exists_earlier (h : s.Steered p settings)
    (hphase : s.phase = .attempt equations damping tried) :
    ∃ earlier, p.systems s.interactions = earlier ++ [equations] ∧
      earlier.length = s.trace.updates ∧ damping = (dueDamping settings s.trace.trials).getD
        (.scalar (Linear.mean equations.diagonal)) := by
  have hs := h.phase
  rwa [hphase] at hs

theorem damped_after (h : s.Steered p settings)
    (htrial : s.Tried p equations damping tried step reached)
    (hdecided : decideTrial settings.eta equations damping (s.best.error - reached.error)
      = .ok d) :
    Damped settings (p.systems (s.interactions ++ [.evaluate reached.point]))
      (s.trace.trials ++ [s.newTrial d reached]) (d.accepted = false ∧ d.stalled = true) := by
  obtain ⟨earlier, hsystems, hlength, hdue⟩ := h.exists_earlier htrial.phase
  obtain ⟨a, hread, hstep⟩ := htrial.solves
  have hequations : (p.systems s.interactions)[s.trace.updates]? = some equations := by
    rw [hsystems, ← hlength, List.getElem?_concat_length]
  rw [Problem.systems_append_evaluate]
  refine h.damped.append hequations h.start ?_ (follows_of_decideTrial hread hstep hdecided _ _)
  exact (damping_of_decideTrial hdecided).trans hdue

theorem after (h : s.Steered p settings)
    (htrial : s.Tried p equations damping tried step reached)
    (hdamped : Damped settings (p.systems (s.interactions ++ [.evaluate reached.point]))
      (s.trace.trials ++ [s.newTrial d reached]) False) :
    (({ s with interactions := s.interactions ++ [.evaluate reached.point] } : State R).after
      settings equations d tried step reached).Steered p settings := by
  obtain ⟨earlier, hsystems, hlength, -⟩ := h.exists_earlier htrial.phase
  refine ⟨hdamped, fun hnil ↦ ?_, ?_⟩
  · exact absurd hnil (List.append_ne_nil_of_right_ne_nil _ (List.cons_ne_nil _ _))
  · cases haccepted : d.accepted with
    | true =>
      rw [phase_after_of_accepted haccepted, updates_after_of_accepted haccepted, trials_after,
        interactions_after, dueDamping_append, Problem.systems_append_evaluate, hsystems,
        List.length_append, hlength]
      exact ⟨rfl, rfl⟩
    | false =>
      rw [phase_after_of_rejected haccepted, updates_after_of_rejected haccepted, trials_after,
        interactions_after, dueDamping_append, Problem.systems_append_evaluate]
      exact ⟨earlier, hsystems, hlength, rfl⟩

end

/-- **A step keeps to the law.** -/
theorem step (h : s.Steered p settings) : Progress.Steered p settings (s.step p settings) := by
  have hmove := move_step p settings s
  generalize s.step p settings = a at hmove ⊢
  cases hmove with
  | linearised hphase hcalled => exact h.linearised hphase hcalled _
  | stuck => exact h.damped.imp False.elim
  | failed hfailure =>
    rw [Progress.Steered, hfailure.systems]
    exact h.damped.imp False.elim
  | @tried _ _ _ _ _ d htrial hdecided =>
    have hdamped := h.damped_after htrial hdecided
    rw [State.conclude]
    split
    · exact hdamped.imp fun _ ↦ rfl
    next hfinal =>
      exact h.after htrial (hdamped.imp fun hstall ↦
        hfinal (finalAfter_of_stalled hstall.1 hstall.2))

end Steered

end State

/-! ## What follows from the law -/

/-- The equations are those of a Jacobian that has columns. -/
def NormalEquations.HasColumns (equations : NormalEquations R) : Prop :=
  ∃ (j : Jacobian R) (residuals : List R), j.columns ≠ [] ∧
    equations = j.normalEquations residuals

section

variable {settings : Settings R} {systems : List (NormalEquations R)} {trials : List (Trial R)}
  {stops : Prop} {t : Trial R} {eta : Amount R} {equations : NormalEquations R} {mayStall : Prop}

theorem Damped.moved (h : Damped settings systems trials stops) {k : Nat}
    (ht : trials[k]? = some t) (hk : k + 1 < trials.length) :
    if t.accepted then t.damping.div settings.eta = .ok t.dampingAfter
    else t.damping.mul settings.eta = .ok t.dampingAfter := by
  obtain ⟨equations, -, hfollows⟩ := h.follows k t ht
  cases haccepted : t.accepted with
  | true => exact hfollows.accepted haccepted
  | false =>
    obtain ⟨grown, hgrown, hbears, hstays⟩ := hfollows.rejected haccepted
    by_cases hok : equations.Bears grown
    · rw [if_neg Bool.false_ne_true, hgrown, hbears hok]
    · exact absurd (hstays hok).2.1 hk.ne

theorem Damped.damping_eq (h : Damped settings systems trials stops) {k : Nat} {t' : Trial R}
    (ht' : trials[k + 1]? = some t') :
    ∃ t, trials[k]? = some t ∧ k + 1 < trials.length ∧ t'.damping = t.dampingAfter := by
  obtain ⟨hlt, rfl⟩ := List.getElem?_eq_some_iff.mp ht'
  have hk : k < trials.length := Nat.lt_of_succ_lt hlt
  exact ⟨trials[k], List.getElem?_eq_getElem hk, hlt, List.isChain_iff_getElem.mp h.next k hlt⟩

section rounding

variable [LawfulRounding R]

theorem Trial.Follows.isFinite_damping (h : t.Follows eta equations mayStall)
    (hcolumns : equations.HasColumns) : Scalar.isFinite t.damping.toScalar = true := by
  obtain ⟨a, step, hread, hstep⟩ := h.solved
  obtain ⟨j, residuals, hj, rfl⟩ := hcolumns
  rw [Amount.toScalar_of_read hread]
  exact j.isFinite_of_step? residuals hj hstep

theorem Trial.Follows.fits_dampingAfter (h : t.Follows eta equations mayStall)
    (hcolumns : equations.HasColumns) (heta : eta.ExceedsOne) (hnonneg : t.damping.Nonneg) :
    Scalar.isFinite t.dampingAfter.toScalar = true ∧ t.dampingAfter.Nonneg := by
  have hfinite := h.isFinite_damping hcolumns
  cases haccepted : t.accepted with
  | true => exact hnonneg.div heta (h.accepted haccepted) hfinite
  | false =>
    obtain ⟨grown, hgrown, hbears, hstays⟩ := h.rejected haccepted
    by_cases hok : equations.Bears grown
    · rw [hbears hok]
      exact ⟨hok.1, hnonneg.mul heta hgrown hok.1⟩
    · rw [(hstays hok).1]
      exact ⟨hfinite, hnonneg⟩

theorem Damped.nonneg_damping (h : Damped settings systems trials stops)
    (hcolumns : ∀ equations ∈ systems, equations.HasColumns)
    (heta : settings.eta.ExceedsOne) (hinitial : ∀ a ∈ settings.initialDamping, a.Nonneg)
    {k : Nat} (ht : trials[k]? = some t) : t.damping.Nonneg := by
  induction k generalizing t with
  | zero =>
    obtain ⟨equations, hequations, hdamping⟩ := h.first t ht
    cases hgiven : settings.initialDamping with
    | some a =>
      rw [hdamping, hgiven]
      exact hinitial a hgiven
    | none =>
      -- The mean is finite because a step was found with it.
      obtain ⟨equations', hequations', hfollows⟩ := h.follows 0 t ht
      have hfinite := hfollows.isFinite_damping
        (hcolumns _ (List.mem_of_getElem? hequations'))
      obtain ⟨j, residuals, -, rfl⟩ := hcolumns _ (List.mem_of_getElem? hequations)
      rw [hdamping, hgiven] at hfinite ⊢
      exact j.nonneg_mean_diagonal residuals hfinite
  | succ k ih =>
    -- What the trial before it left was made from a damping that was not negative.
    obtain ⟨previous, hprevious, -, hdamping⟩ := h.damping_eq ht
    obtain ⟨equations, hequations, hfollows⟩ := h.follows k previous hprevious
    rw [hdamping]
    exact (hfollows.fits_dampingAfter (hcolumns _ (List.mem_of_getElem? hequations)) heta
      (ih hprevious)).2

theorem Damped.fits (h : Damped settings systems trials stops)
    (hcolumns : ∀ equations ∈ systems, equations.HasColumns)
    (heta : settings.eta.ExceedsOne) (hinitial : ∀ a ∈ settings.initialDamping, a.Nonneg)
    (ht : t ∈ trials) :
    (Scalar.isFinite t.damping.toScalar = true ∧ 0 ≤ t.damping.toScalar) ∧
      Scalar.isFinite t.dampingAfter.toScalar = true ∧ 0 ≤ t.dampingAfter.toScalar := by
  obtain ⟨k, hk⟩ := List.mem_iff_getElem?.mp ht
  have hnonneg := h.nonneg_damping hcolumns heta hinitial hk
  obtain ⟨equations, hequations, hfollows⟩ := h.follows k t hk
  have hequations := hcolumns _ (List.mem_of_getElem? hequations)
  obtain ⟨hfinite, hafter⟩ := hfollows.fits_dampingAfter hequations heta hnonneg
  exact ⟨⟨hfollows.isFinite_damping hequations, hnonneg.toScalar⟩, hfinite, hafter.toScalar⟩

/-- Where arithmetic is exact, the damping of a trial is the first one, multiplied once for each
trial rejected before and divided once for each trial accepted before. -/
theorem Damped.value_damping (h : Damped settings systems trials stops)
    (hcolumns : ∀ equations ∈ systems, equations.HasColumns)
    (heta : settings.eta.ExceedsOne) (hinitial : ∀ a ∈ settings.initialDamping, a.Nonneg)
    {K : Type} [Field K] {value : R → K} (hvalue : IsExact value) {first : Trial R}
    (hfirst : trials[0]? = some first) {k : Nat} (ht : trials[k]? = some t) :
    value t.damping.toScalar = value first.damping.toScalar
      * value settings.eta.toScalar ^ (trials.take k).countP (!·.accepted)
      / value settings.eta.toScalar ^ (trials.take k).countP (·.accepted) := by
  induction k generalizing t with
  | zero =>
    obtain rfl := Option.some.inj (hfirst.symm.trans ht)
    rw [List.take_zero, List.countP_nil, List.countP_nil, pow_zero, mul_one, div_one]
  | succ k ih =>
    obtain ⟨previous, hprevious, hlt, hdamping⟩ := h.damping_eq ht
    have hmoved := h.moved hprevious hlt
    have hnonneg := h.nonneg_damping hcolumns heta hinitial hprevious
    rw [hdamping, List.take_add_one, hprevious, Option.toList_some, List.countP_append,
      List.countP_append]
    cases haccepted : previous.accepted with
    | true =>
      rw [haccepted, if_pos rfl] at hmoved
      rw [Amount.value_div hvalue hnonneg heta hmoved, ih hprevious,
        List.countP_singleton, List.countP_singleton]
      simp only [haccepted, Bool.not_true, Bool.false_eq_true, if_false, if_true, Nat.add_zero]
      rw [pow_succ, div_div]
    | false =>
      rw [haccepted, if_neg Bool.false_ne_true] at hmoved
      rw [Amount.value_mul hvalue hnonneg heta hmoved, ih hprevious,
        List.countP_singleton, List.countP_singleton]
      simp only [haccepted, Bool.not_false, Bool.false_eq_true, if_false, if_true, Nat.add_zero]
      rw [pow_succ, ← mul_assoc, div_mul_eq_mul_div]

end rounding

end

/-! ## Solves -/

namespace Problem

variable {p : Problem R} {settings : Settings R}

theorem steered_begin (start : Visited R) :
    Progress.Steered p settings (State.begin settings start) := by
  obtain ⟨records, hstate⟩ := State.exists_begin settings start
  have hinitial : ({ State.initial settings start with records } : State R).Steered p settings :=
    ⟨damped_nil _ _ _, fun _ ↦ rfl, rfl, rfl⟩
  rw [← hstate] at hinitial
  generalize State.begin settings start = a at hinitial ⊢
  cases a with
  | running s => exact hinitial
  | ended e s => exact hinitial.damped.imp False.elim

theorem damped_of_ends {start : List R} {e : Ending} {s : State R}
    (h : p.Ends settings start e s) :
    Damped settings (p.systems s.interactions) s.trace.trials (e = .finished) := by
  obtain ⟨residuals, -, hfinish⟩ := h
  exact Progress.good_of_finish (Progress.Steered p settings) (fun _ hs ↦ hs.step)
    (steered_begin _) hfinish

theorem hasColumns_of_mem_systems (hactive : p.active ≠ []) {interactions : List (Interaction R)}
    {equations : NormalEquations R} (h : equations ∈ p.systems interactions) :
    equations.HasColumns := by
  obtain ⟨j, residuals, hlength, rfl⟩ := exists_jacobian_of_mem_systemsFrom h
  refine ⟨j, residuals, fun hnil ↦ hactive ?_, rfl⟩
  rw [hnil] at hlength
  exact List.length_eq_zero_iff.mp hlength.symm

theorem damped_of_solved {start : Option (List R)} {o : Outcome R}
    (h : p.Solved settings start o) :
    Damped settings (p.systems o.interactions) o.trace.trials
        (o.status = .converged ∨ o.status = .solutionRejected) ∧
      ∀ equations ∈ p.systems o.interactions, equations.HasColumns := by
  cases h with
  | noStart | unevaluated => exact ⟨damped_nil _ _ _, nofun⟩
  | @nothingActive start hactive =>
    rw [trace_commit, interactions_commit]
    exact ⟨damped_nil _ _ _, nofun⟩
  | @iterated start e s hactive hends =>
    rw [trace_outcome, systems_outcome]
    exact ⟨(damped_of_ends hends).imp (p.status_outcome start e s).2,
      fun _ ↦ hasColumns_of_mem_systems hactive⟩

/-- **The law of the damping over a whole solve.** The trials of a solve keep to the law, and one
that leaves its damping for want of room is the last one of a solve that offers its point. Every
damping on record is finite and not negative. Where arithmetic is exact, each is the first one times
a power of the factor over another. Under a limit that counts can reach there is such a solve. -/
theorem damped_of_solve [LawfulRounding R] (heta : settings.eta.ExceedsOne)
    (hinitial : ∀ a ∈ settings.initialDamping, a.Nonneg) (p : Problem R)
    (start : Option (List R)) :
    (∀ bound, settings.limit = .atMost bound → ∃ o, p.solve settings start = some o) ∧
    ∀ o, p.solve settings start = some o →
      Damped settings (p.systems o.interactions) o.trace.trials
        (o.status = .converged ∨ o.status = .solutionRejected) ∧
      (∀ t ∈ o.trace.trials,
        (Scalar.isFinite t.damping.toScalar = true ∧ 0 ≤ t.damping.toScalar) ∧
        Scalar.isFinite t.dampingAfter.toScalar = true ∧ 0 ≤ t.dampingAfter.toScalar) ∧
      ∀ (K : Type) [Field K] (value : R → K), IsExact value → ∀ (k : Nat) (first t : Trial R),
        o.trace.trials[0]? = some first → o.trace.trials[k]? = some t →
        value t.damping.toScalar = value first.damping.toScalar
          * value settings.eta.toScalar ^ (o.trace.trials.take k).countP (!·.accepted)
          / value settings.eta.toScalar ^ (o.trace.trials.take k).countP (·.accepted) := by
  refine ⟨fun bound hlimit ↦ exists_solve hlimit p start, fun o ho ↦ ?_⟩
  obtain ⟨hdamped, hcolumns⟩ := damped_of_solved (solved_of_solve ho)
  refine ⟨hdamped, fun t ht ↦ hdamped.fits hcolumns heta hinitial ht, ?_⟩
  intro K _ value hvalue k first t hfirst ht
  exact hdamped.value_damping hcolumns heta hinitial hvalue hfirst ht

open PartialRat in
/-- Before an undefined wall the damping grows with the first step, shrinks with the second and
grows again with the third. The fourth one is made with the first damping, twice multiplied by eight
and once divided. -/
theorem damped_wall :
    ∃ o, (wall (.ok [⟨none⟩])).solve wallSettings (some [0]) = some o ∧
      o.trace.trials.map (fun t ↦ (t.accepted, t.damping.toScalar)) =
        [(false, ofRat (1 / 8)), (true, ofRat 1), (false, ofRat (1 / 8)), (false, ofRat 1)] ∧
      Damped wallSettings ((wall (.ok [⟨none⟩])).systems o.interactions) o.trace.trials
        (o.status = .converged ∨ o.status = .solutionRejected) ∧
      (∀ t ∈ o.trace.trials, 0 ≤ t.dampingAfter.toScalar) ∧
      ∀ first t : Trial PartialRat, o.trace.trials[0]? = some first →
        o.trace.trials[3]? = some t →
        t.damping.toScalar.value?.getD 0
          = first.damping.toScalar.value?.getD 0 * (8 : ℚ) ^ 2 / (8 : ℚ) ^ 1 := by
  obtain ⟨o, ho, htest⟩ := exists_solve_of_test (wall (.ok [⟨none⟩])) wallSettings [0]
    [ofRat (-3)] 6
    (fun o ↦ decide (o.trace.trials.map (fun t ↦ (t.accepted, t.damping.toScalar)) =
        [(false, ofRat (1 / 8)), (true, ofRat 1), (false, ofRat (1 / 8)), (false, ofRat 1)] ∧
      (o.trace.trials.take 3).countP (!·.accepted) = 2 ∧
      (o.trace.trials.take 3).countP (·.accepted) = 1))
    (by decide) (by decide +kernel) (by decide +kernel)
  obtain ⟨htrials, hrejected, haccepted⟩ := of_decide_eq_true htest
  have heta : wallSettings.eta.ExceedsOne := one_lt_iff.mpr ⟨8, rfl, by decide⟩
  have hinitial : ∀ a ∈ wallSettings.initialDamping, a.Nonneg := by
    intro a ha
    obtain rfl := Option.some.inj ha
    exact nonneg_iff.mpr ⟨1 / 8, rfl, one_div_nonneg.mpr (by decide)⟩
  obtain ⟨-, hsolves⟩ := damped_of_solve heta hinitial (wall (.ok [⟨none⟩])) (some [0])
  obtain ⟨hdamped, hfits, hvalue⟩ := hsolves o ho
  refine ⟨o, ho, htrials, hdamped, fun t ht ↦ (hfits t ht).2.2, fun first t hfirst ht ↦ ?_⟩
  have hpower := hvalue ℚ _ isExact_getD 3 first t hfirst ht
  rw [hrejected, haccepted] at hpower
  exact hpower

end Problem

end DampedLeastSquares
