import DampedLeastSquares.Proofs.Jacobian.Columns
import DampedLeastSquares.Proofs.Solve.Run

/-!
# Inactive variables

Only active variables move. An update adds to their coordinates, a difference quotient to one of
them, and nothing else ever writes into a point. So a point that a solve visits, accepts, returns or
commits has the other coordinates of the start, however many steps were accepted in between. No
assumption is made on the residual function, on the damping, or on how the solve ends.

A Jacobian is computed at the best point. Which point that is at the time can be read off the
history: it is the start, or the point of the last trial that was accepted before.
-/

namespace DampedLeastSquares

/-! ## Points that differ in few places -/

section

variable {R : Type} {here there : List Nat} {x y z : List R}

/-- Two points differ at the given positions only. -/
def SameOff (positions : List Nat) (x y : List R) : Prop :=
  y.length = x.length ∧ ∀ i, i ∉ positions → y[i]? = x[i]?

theorem SameOff.refl (positions : List Nat) (x : List R) : SameOff positions x x :=
  ⟨rfl, fun _ _ ↦ rfl⟩

theorem SameOff.trans (h : SameOff here x y) (h' : SameOff here y z) : SameOff here x z :=
  ⟨h'.1.trans h.1, fun i hi ↦ (h'.2 i hi).trans (h.2 i hi)⟩

theorem SameOff.mono (h : SameOff here x y) (hsub : here ⊆ there) : SameOff there x y :=
  ⟨h.1, fun i hi ↦ h.2 i fun hmem ↦ hi (hsub hmem)⟩

theorem SameOff.take_eq {n : Nat} (h : SameOff here x y) (hn : ∀ i ∈ here, n ≤ i) :
    y.take n = x.take n := by
  refine List.ext_getElem? fun i ↦ ?_
  rw [List.getElem?_take, List.getElem?_take]
  split
  next hi => exact h.2 i fun hmem ↦ absurd hi (Nat.not_lt.mpr (hn i hmem))
  · rfl

end

variable {R : Type} [Scalar R]

theorem sameOff_of_moveEntry {x z : List R} {var : Nat} {amount : Except Fault R}
    (h : moveEntry x var amount = .ok z) : SameOff [var] x z := by
  rw [moveEntry] at h
  by_cases hvar : var < x.length
  · rw [position?_natCast hvar] at h
    cases amount with
    | error fault => cases h
    | ok a =>
      obtain rfl := Except.ok.inj h
      refine ⟨List.length_modify .., fun i hi ↦ ?_⟩
      have hne : var ≠ i := fun heq ↦ hi (List.mem_singleton.mpr heq.symm)
      rw [List.getElem?_modify_ne (· + a) x hne]
  · have hnone : position? (var : Int) x.length = none := by
      rw [position?, if_neg (by omega), if_neg (by omega)]
    rw [hnone] at h
    cases h

namespace Problem

variable {p : Problem R} {x z : List R}

theorem sameOff_of_addUpdate {update : List R} {active : List Nat} {i : Nat}
    (h : addUpdate moveEntry update active i x = .ok z) : SameOff active x z := by
  induction active generalizing i x with
  | nil =>
    obtain rfl := Except.ok.inj h
    exact .refl [] x
  | cons var rest ih =>
    rw [addUpdate] at h
    cases hmoved : moveEntry x var (updateEntry update i) with
    | error fault =>
      rw [hmoved] at h
      exact nomatch h
    | ok y =>
      rw [hmoved] at h
      have hfirst : SameOff (var :: rest) x y :=
        (sameOff_of_moveEntry hmoved).mono (List.cons_subset_cons var (List.nil_subset rest))
      exact hfirst.trans ((ih h).mono (List.subset_cons_self var rest))

theorem sameOff_of_applyUpdate {update : List R} (h : p.applyUpdate x update = .ok z) :
    SameOff p.active x z := by
  rw [applyUpdate] at h
  split at h
  · exact sameOff_of_addUpdate h
  · exact nomatch h

end Problem

/-! ## The points of a Jacobian -/

namespace Jacobian

variable {P : Type} {f : Nat → P → Except Fault (List R)} {move : Int → Except Fault P}
  {baseline : Tensor R} {h : R} {q : P}

theorem move_of_mem_differentiate {calls : Nat} {s : Slice}
    (hq : q ∈ (differentiate f move baseline h calls s).points) : move s.var = .ok q := by
  rw [differentiate] at hq
  cases hmoved : move s.var with
  | error fault =>
    rw [hmoved] at hq
    exact absurd hq List.not_mem_nil
  | ok point =>
    rw [hmoved] at hq
    rw [List.mem_singleton.mp hq]

theorem move_of_mem_runWorker {work : List Slice} {calls : Nat} {matrix : List (List R)}
    (hq : q ∈ (runWorker f move baseline h work calls matrix).points) :
    ∃ s ∈ work, move s.var = .ok q := by
  induction work generalizing calls matrix with
  | nil => exact nomatch hq
  | cons s work ih =>
    rw [runWorker] at hq
    cases hs : (differentiate f move baseline h calls s).outcome with
    | error fault =>
      simp only [hs] at hq
      exact ⟨s, List.mem_cons_self, move_of_mem_differentiate hq⟩
    | ok column =>
      simp only [hs, List.mem_append] at hq
      rcases hq with hq | hq
      · exact ⟨s, List.mem_cons_self, move_of_mem_differentiate hq⟩
      · obtain ⟨t, ht, hmoved⟩ := ih hq
        exact ⟨t, List.mem_cons_of_mem s ht, hmoved⟩

theorem move_of_mem_runWorkers {works : List (List Slice)} {calls : Nat} {matrix : List (List R)}
    (hq : q ∈ (runWorkers f move baseline h works calls matrix).points) :
    ∃ s ∈ works.flatten, move s.var = .ok q := by
  induction works generalizing calls matrix with
  | nil => exact nomatch hq
  | cons work works ih =>
    -- Whether or not the first worker fails, the others run.
    have hsplit : q ∈ (runWorker f move baseline h work calls matrix).points ∨
        ∃ calls' matrix', q ∈ (runWorkers f move baseline h works calls' matrix').points := by
      rw [runWorkers] at hq
      split at hq <;> exact (List.mem_append.mp hq).imp id fun hq ↦ ⟨_, _, hq⟩
    rw [List.flatten_cons]
    rcases hsplit with hq | ⟨calls', matrix', hq⟩
    · obtain ⟨s, hs, hmoved⟩ := move_of_mem_runWorker hq
      exact ⟨s, List.mem_append_left _ hs, hmoved⟩
    · obtain ⟨s, hs, hmoved⟩ := ih hq
      exact ⟨s, List.mem_append_right _ hs, hmoved⟩

theorem move_of_mem_computeBy {calls : Nat} {active : List Int} {workers : Except Fault Workers}
    {pattern : Option (Tensor Bool)}
    (hq : q ∈ (computeBy move f calls baseline active h workers pattern).points) :
    ∃ var ∈ active, move var = .ok q := by
  rw [computeBy] at hq
  cases workers with
  | error fault => exact absurd hq List.not_mem_nil
  | ok w =>
    simp only [Except.bind, slices] at hq
    cases hwork : sliceList active pattern with
    | error fault =>
      rw [hwork] at hq
      exact absurd hq List.not_mem_nil
    | ok work =>
      rw [hwork] at hq
      obtain ⟨s, hs, hmoved⟩ := move_of_mem_runWorkers hq
      rw [((numbered_of_sliceList hwork).perm_deal w.count_pos).mem_iff] at hs
      exact ⟨s.var, List.mem_of_getElem? (getElem?_of_mem_sliceList hwork hs).1, hmoved⟩

end Jacobian

theorem Problem.sameOff_of_jacobianFrom {p : Problem R} {calls : Nat} {x q : List R}
    {baseline : Tensor R} {points : List (List R)} {outcome : Except Fault (Jacobian R)}
    (hcalled : p.jacobianFrom calls x baseline = ⟨points, outcome⟩) (hq : q ∈ points) :
    ∃ var ∈ p.active, SameOff [var] x q := by
  have hpoints : q ∈ (p.jacobianFrom calls x baseline).points := by rwa [hcalled]
  rw [jacobianFrom, jacobianBy] at hpoints
  split at hpoints
  · obtain ⟨_, hmem, hmoved⟩ := Jacobian.move_of_mem_computeBy hpoints
    obtain ⟨var, hvar, rfl⟩ := List.mem_map.mp hmem
    exact ⟨var, hvar, sameOff_of_moveEntry hmoved⟩
  · exact absurd hpoints List.not_mem_nil

/-! ## The best point in the history -/

section

variable {R : Type}

/-- The points at which nothing but the residuals was asked for, in order: the start, and the points
of the trials. -/
def visits (interactions : List (Interaction R)) : List (List R) :=
  interactions.filterMap fun i ↦ match i with
    | .evaluate x => some x
    | _ => none

/-- The points that a use of the problem is about: those of its calls, the one that is
differentiated at, and the one that is offered. -/
def Interaction.points : Interaction R → List (List R)
  | evaluate x => [x]
  | differentiate x _ points => x :: points
  | commit x _ => [x]

/-- The best of some points that were visited: the last one that was accepted, where the first one,
which is the start, counts as accepted. -/
def bestOf (visits : List (List R)) (trials : List (Trial R)) : Option (List R) :=
  ((visits.zip (true :: trials.map Trial.accepted)).filter Prod.snd).getLast?.map Prod.fst

theorem visits_append (interactions : List (Interaction R)) (i : Interaction R) :
    visits (interactions ++ [i])
      = visits interactions ++ match i with | .evaluate x => [x] | _ => [] := by
  rw [visits, List.filterMap_append]
  cases i <;> rfl

theorem bestOf_concat {points : List (List R)} {trials : List (Trial R)} {x : List R} {t : Trial R}
    (hlength : points.length = trials.length + 1) :
    bestOf (points ++ [x]) (trials ++ [t])
      = if t.accepted then some x else bestOf points trials := by
  have hzip : (points ++ [x]).zip (true :: (trials ++ [t]).map Trial.accepted)
      = points.zip (true :: trials.map Trial.accepted) ++ [(x, t.accepted)] := by
    rw [List.map_append, ← List.cons_append, List.zip_append (by simpa using hlength)]
    rfl
  rw [bestOf, hzip, List.filter_append]
  cases haccepted : t.accepted with
  | true =>
    rw [List.filter_cons_of_pos rfl, List.filter_nil, List.getLast?_concat]
    rfl
  | false =>
    rw [List.filter_cons_of_neg Bool.false_ne_true, List.filter_nil, List.append_nil]
    rfl

/-- Later trials do not change which of the earlier points was best. -/
theorem bestOf_append {points : List (List R)} {trials : List (Trial R)} (more : List (Trial R))
    (hlength : points.length ≤ trials.length + 1) :
    bestOf points (trials ++ more) = bestOf points trials := by
  have hzip : points.zip (true :: (trials ++ more).map Trial.accepted)
      = points.zip (true :: trials.map Trial.accepted) := by
    have hle : points.length ≤ (true :: trials.map Trial.accepted).length := by simpa using hlength
    rw [List.map_append, ← List.cons_append, List.zip_eq_zipWith, List.zip_eq_zipWith]
    refine List.ext_getElem? fun i ↦ ?_
    rw [List.getElem?_zipWith, List.getElem?_zipWith]
    by_cases hi : i < points.length
    · rw [List.getElem?_append_left (hi.trans_le hle)]
    · rw [List.getElem?_eq_none (Nat.not_lt.mp hi)]
  rw [bestOf, hzip, bestOf]

theorem length_visits_le {before after : List (Interaction R)} :
    (visits before).length ≤ (visits (before ++ after)).length := by
  rw [visits, visits, List.filterMap_append, List.length_append]
  exact Nat.le_add_right _ _

/-! ## Histories -/

/-- In a history that began at `start` nothing but active variables has moved. -/
structure Problem.Freezes (p : Problem R) (start : List R) (trials : List (Trial R))
    (interactions : List (Interaction R)) : Prop where
  /-- A point at which residuals were asked for differs from the start in active variables only. -/
  evaluated : ∀ x, .evaluate x ∈ interactions → SameOff p.active start x
  /-- A Jacobian was computed at the best point of the time, and its calls were at points that
  differ from that one in one active variable. -/
  differentiated : ∀ before x baseline points after,
    interactions = before ++ .differentiate x baseline points :: after →
    bestOf (visits before) trials = some x ∧ SameOff p.active start x ∧
      ∀ q ∈ points, ∃ var ∈ p.active, SameOff [var] x q
  /-- A point that was offered as the solution differs from the start in active variables only. -/
  committed : ∀ x accepted, .commit x accepted ∈ interactions → SameOff p.active start x

/-- The invariant: the best point can be read off the history, and nothing but active variables has
moved. -/
structure State.Frozen (p : Problem R) (start : List R) (s : State R) : Prop where
  /-- The best point differs from the start in active variables only. -/
  best : SameOff p.active start s.best.point
  /-- Apart from the start, a point was visited for each trial. -/
  visited : (visits s.interactions).length = s.trace.trials.length + 1
  /-- The best point is the best of those visited. -/
  current : bestOf (visits s.interactions) s.trace.trials = some s.best.point
  /-- Every point so far differs from the start in active variables only. -/
  history : p.Freezes start s.trace.trials s.interactions

namespace Problem.Freezes

variable {p : Problem R} {start : List R} {trials : List (Trial R)}
  {interactions : List (Interaction R)}

theorem append (h : p.Freezes start trials interactions) {i : Interaction R}
    (hevaluate : ∀ x, i = .evaluate x → SameOff p.active start x)
    (hdifferentiate : ∀ x baseline points, i = .differentiate x baseline points →
      bestOf (visits interactions) trials = some x ∧ SameOff p.active start x ∧
        ∀ q ∈ points, ∃ var ∈ p.active, SameOff [var] x q)
    (hcommit : ∀ x accepted, i = .commit x accepted → SameOff p.active start x) :
    p.Freezes start trials (interactions ++ [i]) where
  evaluated x hmem := by
    rcases List.mem_append.mp hmem with hmem | hmem
    · exact h.evaluated x hmem
    · exact hevaluate x (List.mem_singleton.mp hmem).symm
  differentiated before x baseline points after heq := by
    rcases List.eq_nil_or_concat after with rfl | ⟨after', j, rfl⟩
    · obtain ⟨rfl, hlast⟩ := List.append_inj' heq rfl
      exact hdifferentiate x baseline points (List.cons.inj hlast).1
    · rw [List.concat_eq_append, ← List.cons_append, ← List.append_assoc] at heq
      exact h.differentiated before x baseline points after' (List.append_inj_left' heq rfl)
  committed x accepted hmem := by
    rcases List.mem_append.mp hmem with hmem | hmem
    · exact h.committed x accepted hmem
    · exact hcommit x accepted (List.mem_singleton.mp hmem).symm

theorem evaluate (h : p.Freezes start trials interactions) {x : List R}
    (hx : SameOff p.active start x) : p.Freezes start trials (interactions ++ [.evaluate x]) :=
  h.append (fun _ heq ↦ Interaction.evaluate.inj heq ▸ hx) nofun nofun

theorem commit (h : p.Freezes start trials interactions) {x : List R} {accepted : Bool}
    (hx : SameOff p.active start x) :
    p.Freezes start trials (interactions ++ [.commit x accepted]) :=
  h.append nofun nofun fun _ _ heq ↦ (Interaction.commit.inj heq).1 ▸ hx

theorem mono (h : p.Freezes start trials interactions)
    (hlength : (visits interactions).length ≤ trials.length + 1) (t : Trial R) :
    p.Freezes start (trials ++ [t]) interactions where
  evaluated := h.evaluated
  differentiated before x baseline points after heq := by
    obtain ⟨hbest, hpoints⟩ := h.differentiated before x baseline points after heq
    rw [heq] at hlength
    exact ⟨(bestOf_append [t] (length_visits_le.trans hlength)).trans hbest, hpoints⟩
  committed := h.committed

theorem nil (p : Problem R) (start : List R) : p.Freezes start [] [] :=
  ⟨nofun, fun before x baseline points after heq ↦ by simp at heq, nofun⟩

theorem sameOff (h : p.Freezes start trials interactions) {i : Interaction R}
    (hi : i ∈ interactions) {z : List R} (hz : z ∈ i.points) : SameOff p.active start z := by
  cases i with
  | evaluate x =>
    obtain rfl := List.mem_singleton.mp hz
    exact h.evaluated z hi
  | commit x accepted =>
    obtain rfl := List.mem_singleton.mp hz
    exact h.committed z accepted hi
  | differentiate x baseline points =>
    obtain ⟨before, after, heq⟩ := List.append_of_mem hi
    obtain ⟨-, hx, hpoints⟩ := h.differentiated before x baseline points after heq
    rcases List.mem_cons.mp hz with rfl | hz
    · exact hx
    · obtain ⟨var, hvar, hsame⟩ := hpoints z hz
      exact hx.trans (hsame.mono (List.cons_subset.mpr ⟨hvar, List.nil_subset _⟩))

end Problem.Freezes

/-- What a step has led to, with the other variables where they were. -/
def Progress.Frozen (p : Problem R) (start : List R) : Progress R → Prop
  | .running s => s.Frozen p start
  | .ended _ s =>
    SameOff p.active start s.best.point ∧ p.Freezes start s.trace.trials s.interactions

theorem State.Frozen.ended {p : Problem R} {start : List R} {s : State R} (h : s.Frozen p start)
    (e : Ending) : (Progress.ended e s).Frozen p start :=
  ⟨h.best, h.history⟩

end

/-! ## Runs -/

namespace State

variable {p : Problem R} {settings : Settings R} {s : State R} {start : List R}

theorem frozen_initial (p : Problem R) (settings : Settings R) (start residuals : List R)
    (records : List (Record R)) :
    State.Frozen p start
      { State.initial settings (.ofResiduals start residuals) with records } where
  best := .refl p.active start
  visited := rfl
  current := rfl
  history := (Problem.Freezes.nil p start).evaluate (.refl p.active start)

theorem frozen_begin (p : Problem R) (settings : Settings R) (start residuals : List R) :
    (State.begin settings (.ofResiduals start residuals)).Frozen p start := by
  obtain ⟨records, hbegin⟩ := State.exists_begin settings (.ofResiduals start residuals)
  have hfrozen := frozen_initial p settings start residuals records
  rw [← hbegin] at hfrozen
  generalize State.begin settings (.ofResiduals start residuals) = a at hfrozen
  cases a with
  | running s => exact hfrozen
  | ended e s => exact hfrozen.ended e

theorem Frozen.differentiate (h : s.Frozen p start) {baseline : Tensor R} {values : List R}
    {points : List (List R)} {outcome : Except Fault (Jacobian R)} {calls : Nat}
    (hcalled : p.jacobianFrom calls s.best.point baseline = ⟨points, outcome⟩) :
    p.Freezes start s.trace.trials
      (s.interactions ++ [.differentiate s.best.point values points]) := by
  refine h.history.append nofun (fun x values' points' heq ↦ ?_) nofun
  obtain ⟨rfl, -, rfl⟩ := Interaction.differentiate.inj heq
  exact ⟨h.current, h.best, fun q hq ↦ Problem.sameOff_of_jacobianFrom hcalled hq⟩

theorem Frozen.reached (h : s.Frozen p start) {step point : List R}
    (hmoved : p.applyUpdate s.best.point step = .ok point) : SameOff p.active start point :=
  h.best.trans (Problem.sameOff_of_applyUpdate hmoved)

theorem Failure.freezes (h : s.Frozen p start) {fault : Fault} {more : List (Interaction R)}
    (hfailure : s.Failure p settings fault more) :
    p.Freezes start s.trace.trials (s.interactions ++ more) := by
  cases hfailure with
  | jacobian _ hcalled => exact h.differentiate hcalled
  | damping | update =>
    rw [List.append_nil]
    exact h.history
  | residual _ hmoved => exact h.history.evaluate (h.reached hmoved)
  | decision htrial => exact h.history.evaluate (h.reached htrial.moved)

theorem Frozen.after (h : s.Frozen p start) {equations : NormalEquations R} {d : Decision R}
    {tried : Nat} {step : List R} {reached : Visited R}
    (hreached : SameOff p.active start reached.point) :
    State.Frozen p start
      ({ s with interactions := s.interactions ++ [Interaction.evaluate reached.point] }.after
        settings equations d tried step reached) where
  best := by
    cases haccepted : d.accepted with
    | true =>
      rw [best_after_of_accepted haccepted]
      exact hreached
    | false =>
      rw [best_after_of_rejected haccepted]
      exact h.best
  visited := by
    rw [interactions_after, trials_after, visits_append, List.length_append, List.length_append,
      h.visited]
    rfl
  current := by
    rw [interactions_after, trials_after, visits_append, bestOf_concat h.visited, h.current]
    cases haccepted : d.accepted with
    | true => rw [best_after_of_accepted haccepted, newTrial, haccepted, if_pos rfl]
    | false =>
      rw [best_after_of_rejected haccepted, newTrial, haccepted, if_neg Bool.false_ne_true]
  history := by
    rw [interactions_after, trials_after]
    exact (h.history.mono h.visited.le _).evaluate hreached

/-- **No step moves another variable.** -/
theorem Frozen.step (h : s.Frozen p start) : (s.step p settings).Frozen p start := by
  have hmove := move_step p settings s
  generalize s.step p settings = a at hmove ⊢
  cases hmove with
  | linearised _ hcalled =>
    refine ⟨h.best, ?_, ?_, h.differentiate hcalled⟩
    · rw [visits_append, List.append_nil]
      exact h.visited
    · rw [visits_append, List.append_nil]
      exact h.current
  | stuck => exact ⟨h.best, h.history⟩
  | failed hfailure => exact ⟨h.best, hfailure.freezes h⟩
  | @tried equations damping tried step reached d htrial hdecided =>
    have hafter : ({ s with
        interactions := s.interactions ++ [Interaction.evaluate reached.point] }.after settings
          equations d tried step reached).Frozen p start := h.after (h.reached htrial.moved)
    rw [conclude]
    split
    · exact hafter.ended _
    · exact hafter

end State

/-! ## Solves -/

namespace Problem

variable {p : Problem R} {settings : Settings R} {start : List R}

theorem freezes_of_ends {e : Ending} {s : State R} (h : p.Ends settings start e s) :
    SameOff p.active start s.best.point ∧ p.Freezes start s.trace.trials s.interactions := by
  obtain ⟨residuals, -, hfinish⟩ := h
  exact Progress.good_of_finish (Progress.Frozen p start) (fun _ hs ↦ hs.step)
    (State.frozen_begin p settings start residuals) hfinish

/-- **A solve moves active variables only.** Whatever becomes of it, the point that it returns
differs from the start in active variables only, and so do all points that it evaluates,
differentiates at or commits. -/
theorem freezes_of_solve {o : Outcome R} (h : p.solve settings (some start) = some o) :
    (∀ x ∈ o.point, SameOff p.active start x) ∧
      p.Freezes start o.trace.trials o.interactions := by
  have hrefl := SameOff.refl p.active start
  cases solved_of_solve h with
  | nothingActive hactive =>
    rw [point_commit, trace_commit, interactions_commit]
    refine ⟨fun x hx ↦ ?_, (Freezes.nil p start).commit hrefl⟩
    rwa [← Option.mem_some_iff.mp hx]
  | unevaluated =>
    refine ⟨fun x hx ↦ ?_, (Freezes.nil p start).evaluate hrefl⟩
    rwa [← Option.mem_some_iff.mp hx]
  | @iterated _ e s hactive hends =>
    obtain ⟨hbest, hfreezes⟩ := freezes_of_ends hends
    cases e with
    | finished =>
      rw [outcome, point_commit, trace_commit, interactions_commit]
      refine ⟨fun x hx ↦ ?_, hfreezes.commit hbest⟩
      rwa [← Option.mem_some_iff.mp hx]
    | illPosed =>
      refine ⟨fun x hx ↦ ?_, hfreezes⟩
      rwa [← Option.mem_some_iff.mp hx]
    | failed fault =>
      refine ⟨fun x hx ↦ ?_, hfreezes⟩
      rwa [← Option.mem_some_iff.mp hx]

end Problem

end DampedLeastSquares
