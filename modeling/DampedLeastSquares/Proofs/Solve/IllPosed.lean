import DampedLeastSquares.Proofs.Linear.Gram

/-!
# Ill-posed equations

The iteration gives up when a variable has no effect or when the damped equations have no solution.
Over the real numbers the second reason adds little to the first: with damping the equations have a
solution unless a variable has no effect, and without it they have one unless the columns of the
Jacobian are dependent.

Damping that was positive once stays so, because it is only ever multiplied and divided. A solve
that starts with damping therefore has a single way to end with ill-posed equations. Where the first
damping is taken from the first Jacobian, it is the mean of the square lengths of the columns, which
is zero only if all of them are.
-/

namespace DampedLeastSquares

/-! ## Steps that end the iteration -/

section

variable {R : Type} [Scalar R] {p : Problem R} {settings : Settings R} {s s' : State R}
  {equations : NormalEquations R} {damping : Amount R} {tried : Nat} {a : R}

namespace State

theorem step_of_singular (hphase : s.phase = .attempt equations damping tried)
    (hread : damping.read = .ok a)
    (hsingular : equations.unresponsive ≠ [] ∨ equations.step? a = none) :
    s.step p settings = .ended .illPosed { s with
      records := s.records ++
        equations.unresponsive.map (fun i ↦ Record.unresponsive (p.active.getD i 0)) ++
        [.illPosed] } := by
  have hattempt : s.step p settings = s.attempt p settings equations damping tried := by
    rw [step, hphase]
  rw [hattempt, attempt, hread]
  dsimp only
  split
  next step hresponsive hstep =>
    rcases hsingular with h | h
    · exact absurd hresponsive h
    · cases hstep.symm.trans h
  · rfl

theorem singular_of_step (hphase : s.phase = .attempt equations damping tried)
    (hread : damping.read = .ok a) (h : s.step p settings = .ended .illPosed s') :
    equations.unresponsive ≠ [] ∨ equations.step? a = none := by
  have hmove := move_step p settings s
  rw [h] at hmove
  generalize hended : Progress.ended .illPosed s' = b at hmove
  cases hmove with
  | linearised => cases hended
  | failed => cases hended
  | tried =>
    rw [conclude] at hended
    split at hended <;> cases hended
  | stuck hphase' hread' hsingular =>
    obtain ⟨rfl, rfl, -⟩ := Phase.attempt.inj (hphase.symm.trans hphase')
    obtain rfl := Except.ok.inj (hread.symm.trans hread')
    exact hsingular

end State

end

/-! ## Columns without effect -/

namespace Jacobian

variable {j : Jacobian ℝ} {y : List ℝ} {active : List Nat}

/-- The Jacobian as a matrix. -/
def toMatrix (j : Jacobian ℝ) : Matrix (Fin j.conditions) (Fin j.columns.length) ℝ :=
  Linear.ofColumns j.conditions j.columns

/-- The active variables without effect, whose columns are zero, in the order of the columns. -/
noncomputable def ineffective (j : Jacobian ℝ) (active : List Nat) : List Nat :=
  ((active.zip j.columns).filter fun q ↦ decide (∀ b ∈ q.2, b = 0)).map Prod.fst

theorem unresponsive_normalEquations (j : Jacobian ℝ) (y : List ℝ) :
    (j.normalEquations y).unresponsive
      = (j.columns.zipIdx.filter fun q ↦ decide (∀ b ∈ q.1, b = 0)).map Prod.snd := by
  rw [NormalEquations.unresponsive, diagonal_normalEquations, List.zipIdx_map, List.filterMap_map,
    ← List.filterMap_eq_map, ← List.filterMap_eq_filter, List.filterMap_filterMap]
  refine congrArg (List.filterMap · _) (funext fun q ↦ ?_)
  have hzero : Scalar.isZero (Linear.dot q.1 q.1) = true ↔ ∀ b ∈ q.1, b = 0 := by
    rw [Scalar.isZero_iff, Linear.dot_self_eq_zero_iff]
  change (if Scalar.isZero (Linear.dot q.1 q.1) then some q.2 else none) = _
  by_cases h : ∀ b ∈ q.1, b = 0
  · rw [if_pos (hzero.mpr h), Option.guard, if_pos (decide_eq_true h)]
    rfl
  · rw [if_neg (mt hzero.mp h), Option.guard, if_neg (mt of_decide_eq_true h)]
    rfl

theorem mem_unresponsive_iff {i : Nat} : i ∈ (j.normalEquations y).unresponsive ↔
    ∃ u, j.columns[i]? = some u ∧ ∀ b ∈ u, b = 0 := by
  rw [unresponsive_normalEquations, List.mem_map]
  constructor
  · rintro ⟨⟨u, i⟩, hu, rfl⟩
    obtain ⟨hmem, hzero⟩ := List.mem_filter.mp hu
    exact ⟨u, List.mem_zipIdx_iff_getElem?.mp hmem, of_decide_eq_true hzero⟩
  · rintro ⟨u, hu, hzero⟩
    exact ⟨(u, i), List.mem_filter.mpr
      ⟨List.mem_zipIdx_iff_getElem?.mpr hu, decide_eq_true hzero⟩, rfl⟩

theorem unresponsive_ne_nil_iff :
    (j.normalEquations y).unresponsive ≠ [] ↔ ∃ u ∈ j.columns, ∀ b ∈ u, b = 0 := by
  constructor
  · intro h
    obtain ⟨i, hi⟩ := List.exists_mem_of_ne_nil _ h
    obtain ⟨u, hu, hzero⟩ := mem_unresponsive_iff.mp hi
    exact ⟨u, List.mem_of_getElem? hu, hzero⟩
  · rintro ⟨u, hu, hzero⟩
    obtain ⟨i, hi⟩ := List.getElem?_of_mem hu
    exact List.ne_nil_of_mem (mem_unresponsive_iff.mpr ⟨u, hi, hzero⟩)

/-- The equations cannot be used exactly for a zero column, or for dependent columns without
damping. -/
theorem singular_iff {m : ℕ} (h : ∀ u ∈ j.columns, u.length ≤ m) {a : ℝ} (ha : 0 ≤ a) :
    ((j.normalEquations y).unresponsive ≠ [] ∨ (j.normalEquations y).step? a = none) ↔
      (∃ u ∈ j.columns, ∀ b ∈ u, b = 0) ∨
        a = 0 ∧ ¬LinearIndependent ℝ (Linear.ofColumns m j.columns).col := by
  rw [unresponsive_ne_nil_iff, step?_eq_none_iff h y ha, ← or_assoc, or_self]

theorem map_unresponsive (h : active.length = j.columns.length) (y : List ℝ) :
    (j.normalEquations y).unresponsive.map (active.getD · 0) = j.ineffective active := by
  have hzip : active.zip j.columns = j.columns.zipIdx.map fun q ↦ (active.getD q.2 0, q.1) := by
    refine List.ext_getElem (by simp [h]) fun i hi hi' ↦ ?_
    have hi : i < active.length := by simpa [h] using hi'
    simp [hi]
  rw [unresponsive_normalEquations, ineffective, hzip, List.filter_map, List.map_map, List.map_map]
  rfl

end Jacobian

/-! ## The last Jacobian -/

section

variable {R : Type} [Scalar R] {p : Problem R} {interactions : List (Interaction R)}
  {x y : List R} {j : Jacobian R}

/-- The last Jacobian that some interactions asked for is `j`. It was computed at `x`, given the
residuals `y`. -/
def Problem.LastJacobian (p : Problem R) (interactions : List (Interaction R)) (x y : List R)
    (j : Jacobian R) : Prop :=
  ∃ before points after, interactions = before ++ .differentiate x y points :: after ∧
    (∀ i ∈ after, ∃ z, i = .evaluate z) ∧
    p.jacobianFrom (callCount before) x (Tensor.ofList y) = ⟨points, .ok j⟩

theorem Problem.LastJacobian.append_evaluate (h : p.LastJacobian interactions x y j)
    (z : List R) : p.LastJacobian (interactions ++ [.evaluate z]) x y j := by
  obtain ⟨before, points, after, rfl, hafter, hcalled⟩ := h
  refine ⟨before, points, after ++ [.evaluate z], by simp, fun i hi ↦ ?_, hcalled⟩
  rcases List.mem_append.mp hi with hi | hi
  · exact hafter i hi
  · exact ⟨z, List.mem_singleton.mp hi⟩

theorem Problem.lastJacobian_append_differentiate {points : List (List R)}
    (hcalled : p.jacobianFrom (callCount interactions) x (Tensor.ofList y) = ⟨points, .ok j⟩) :
    p.LastJacobian (interactions ++ [.differentiate x y points]) x y j :=
  ⟨interactions, points, [], rfl, nofun, hcalled⟩

theorem Problem.LastJacobian.length_columns (h : p.LastJacobian interactions x y j) :
    j.columns.length = p.active.length := by
  obtain ⟨before, points, after, -, -, hcalled⟩ := h
  exact (length_jacobianFrom hcalled).2

end

/-! ## Positive damping -/

/-- An active variable has no effect at the point `x`: its column of the last Jacobian, which was
computed there, is zero, and it was reported. -/
def Problem.HasNoEffect (p : Problem ℝ) (interactions : List (Interaction ℝ))
    (records : List (Record ℝ)) (x : List ℝ) : Prop :=
  ∃ (y : List ℝ) (j : Jacobian ℝ) (i var : Nat) (column : List ℝ),
    p.LastJacobian interactions x y j ∧ p.active[i]? = some var ∧ j.columns[i]? = some column ∧
    (∀ a ∈ column, a = 0) ∧ Record.unresponsive var ∈ records

theorem Jacobian.initialDamping_pos {j : Jacobian ℝ} (hcolumns : j.columns ≠ [])
    (h : ¬∃ u ∈ j.columns, ∀ a ∈ u, a = 0) (y : List ℝ) :
    0 < (j.normalEquations y).initialDamping := by
  rw [NormalEquations.initialDamping, diagonal_normalEquations, Linear.mean_eq, List.length_map]
  have hdiagonal : j.columns.map (fun u ↦ Linear.dot u u) ≠ [] := by simpa using hcolumns
  refine div_pos (List.sum_pos _ (fun a ha ↦ ?_) hdiagonal)
    (Nat.cast_pos.mpr (List.length_pos_of_ne_nil hcolumns))
  obtain ⟨u, hu, rfl⟩ := List.mem_map.mp ha
  exact (Linear.dot_self_nonneg u).lt_of_ne' fun hzero ↦
    h ⟨u, hu, Linear.dot_self_eq_zero_iff.mp hzero⟩

/-- With positive damping only a zero column keeps equations from being used. -/
theorem Jacobian.exists_zero_of_singular {j : Jacobian ℝ} {y : List ℝ} {a : ℝ} (ha : 0 < a)
    (h : (j.normalEquations y).unresponsive ≠ [] ∨ (j.normalEquations y).step? a = none) :
    ∃ u ∈ j.columns, ∀ b ∈ u, b = 0 := by
  have hlength : ∀ u ∈ j.columns, u.length ≤ (j.columns.map List.length).sum := fun u hu ↦
    List.single_le_sum (fun _ _ ↦ Nat.zero_le _) _ (List.mem_map_of_mem hu)
  exact ((singular_iff hlength ha.le).mp h).resolve_right fun hundamped ↦ ha.ne' hundamped.1

theorem dampingAfter_pos_of_decideTrial {eta damping : Amount ℝ} {equations : NormalEquations ℝ}
    {reduction : ℝ} {d : Decision ℝ} (heta : 0 < eta.toScalar) (hpos : 0 < damping.toScalar)
    (h : decideTrial eta equations damping reduction = .ok d) : 0 < d.dampingAfter.toScalar := by
  rcases decideTrial_eq_ok h with ⟨-, shrunk, hdiv, rfl⟩ | ⟨-, grown, stalled, hmul, -, rfl⟩
  · obtain ⟨c, hc, hvalue⟩ := Amount.exists_div damping eta
    obtain rfl := Except.ok.inj (hdiv.symm.trans hc)
    rw [hvalue]
    exact div_pos hpos heta
  · obtain ⟨c, hc, hvalue⟩ := Amount.exists_mul damping eta
    obtain rfl := Except.ok.inj (hmul.symm.trans hc)
    cases stalled with
    | true => exact hpos
    | false =>
      rw [if_neg Bool.false_ne_true, hvalue]
      exact mul_pos hpos heta

namespace State

variable {p : Problem ℝ} {settings : Settings ℝ} {s : State ℝ}

/-- The damping is positive, or else the last Jacobian has a zero column. -/
def Positive (p : Problem ℝ) (s : State ℝ) : Prop :=
  match s.phase with
  | .linearise damping => ∀ a ∈ damping, 0 < a.toScalar
  | .attempt equations damping _ => ∃ j,
      p.LastJacobian s.interactions s.best.point s.best.residuals j ∧
      equations = j.normalEquations s.best.residuals ∧
      (0 < damping.toScalar ∨ ∃ u ∈ j.columns, ∀ a ∈ u, a = 0)

end State

/-- Damping stays positive, and ill-posed equations have their reason. -/
def Progress.Positive (p : Problem ℝ) : Progress ℝ → Prop
  | .running s => s.Positive p
  | .ended .illPosed s => p.HasNoEffect s.interactions s.records s.best.point
  | .ended _ _ => True

namespace State

variable {p : Problem ℝ} {settings : Settings ℝ} {s : State ℝ}

theorem Positive.linearised {damping : Option (Amount ℝ)} {j : Jacobian ℝ}
    {points : List (List ℝ)} (hactive : p.active ≠ []) (h : s.Positive p)
    (hphase : s.phase = .linearise damping)
    (hcalled : p.jacobianFrom (callCount s.interactions) s.best.point
      (Tensor.ofList s.best.residuals) = ⟨points, .ok j⟩) (records : List (Record ℝ)) :
    ({ s with
      interactions := s.interactions ++ [.differentiate s.best.point s.best.residuals points]
      phase := .attempt (j.normalEquations s.best.residuals)
        (damping.getD (.scalar (j.normalEquations s.best.residuals).initialDamping)) 0
      records } : State ℝ).Positive p := by
  rw [Positive, hphase] at h
  refine ⟨j, Problem.lastJacobian_append_differentiate hcalled, rfl, ?_⟩
  cases damping with
  | some a => exact Or.inl (h a rfl)
  | none =>
    refine or_iff_not_imp_right.mpr fun hzero ↦ Jacobian.initialDamping_pos ?_ hzero _
    have hlength := (Problem.length_jacobianFrom hcalled).2
    exact List.ne_nil_of_length_pos (hlength ▸ List.length_pos_of_ne_nil hactive)

theorem Positive.stuck {equations : NormalEquations ℝ} {damping : Amount ℝ} {tried : Nat}
    (h : s.Positive p) (hphase : s.phase = .attempt equations damping tried)
    (hsingular : equations.unresponsive ≠ [] ∨ equations.step? damping.toScalar = none) :
    p.HasNoEffect s.interactions (s.records ++
      equations.unresponsive.map (fun i ↦ Record.unresponsive (p.active.getD i 0)) ++
      [.illPosed]) s.best.point := by
  rw [Positive, hphase] at h
  obtain ⟨j, hlast, rfl, hpositive⟩ := h
  have hzero : ∃ u ∈ j.columns, ∀ b ∈ u, b = 0 := by
    rcases hpositive with hpos | hzero
    · exact Jacobian.exists_zero_of_singular hpos hsingular
    · exact hzero
  obtain ⟨u, hu, hu0⟩ := hzero
  obtain ⟨i, hi, rfl⟩ := List.getElem_of_mem hu
  have hactive : i < p.active.length := hlast.length_columns ▸ hi
  refine ⟨_, j, i, p.active[i], _, hlast, List.getElem?_eq_getElem hactive,
    List.getElem?_eq_getElem hi, hu0, ?_⟩
  have hmem : i ∈ (j.normalEquations s.best.residuals).unresponsive :=
    Jacobian.mem_unresponsive_iff.mpr ⟨_, List.getElem?_eq_getElem hi, hu0⟩
  refine List.mem_append_left _ (List.mem_append_right _ (List.mem_map.mpr ⟨i, hmem, ?_⟩))
  rw [List.getD_eq_getElem _ 0 hactive]

theorem Positive.after {equations : NormalEquations ℝ} {damping : Amount ℝ} {tried : Nat}
    {d : Decision ℝ} {step : List ℝ} {reached : Visited ℝ} (heta : 0 < settings.eta.toScalar)
    (h : s.Positive p) (htrial : s.Tried p equations damping tried step reached)
    (hdecided : decideTrial settings.eta equations damping (s.best.error - reached.error)
      = .ok d) :
    (({ s with interactions := s.interactions ++ [.evaluate reached.point] } : State ℝ).after
      settings equations d tried step reached).Positive p := by
  rw [Positive, htrial.phase] at h
  obtain ⟨j, hlast, rfl, hpositive⟩ := h
  have hpos : 0 < damping.toScalar := hpositive.resolve_right fun hzero ↦
    Jacobian.unresponsive_ne_nil_iff.mpr hzero htrial.responsive
  have hafter := dampingAfter_pos_of_decideTrial heta hpos hdecided
  cases haccepted : d.accepted with
  | true =>
    rw [Positive, phase_after_of_accepted haccepted]
    intro a ha
    rwa [← Option.some.inj ha]
  | false =>
    rw [Positive, phase_after_of_rejected haccepted, best_after_of_rejected haccepted]
    exact ⟨j, hlast.append_evaluate reached.point, rfl, Or.inl hafter⟩

/-- **A step keeps the damping positive, and has a reason where it finds the equations ill-posed.**
-/
theorem Positive.step (heta : 0 < settings.eta.toScalar) (hactive : p.active ≠ [])
    (h : s.Positive p) : Progress.Positive p (s.step p settings) := by
  have hmove := move_step p settings s
  generalize s.step p settings = b at hmove ⊢
  cases hmove with
  | failed => trivial
  | linearised hphase hcalled => exact h.linearised hactive hphase hcalled _
  | stuck hphase hread hsingular =>
    rw [← Amount.toScalar_of_read hread] at hsingular
    exact h.stuck hphase hsingular
  | tried htrial hdecided =>
    rw [conclude]
    split
    · trivial
    · exact h.after heta htrial hdecided

end State

/-! ## Solves -/

namespace Problem

variable {p : Problem ℝ} {settings : Settings ℝ}

theorem positive_begin (hinitial : ∀ a ∈ settings.initialDamping, 0 < a.toScalar)
    (start : Visited ℝ) : Progress.Positive p (State.begin settings start) := by
  have hphase := State.phase_begin settings start
  cases hbegin : State.begin settings start with
  | running s =>
    rw [hbegin, Progress.state_running] at hphase
    rw [Progress.Positive, State.Positive, hphase]
    exact hinitial
  | ended e s =>
    obtain ⟨fault, rfl⟩ := State.exists_fault_of_begin hbegin
    trivial

/-- **Ill-posedness is reported exactly when it is real.** A trial is given up exactly if a column
of the Jacobian is zero, or if its columns are dependent and there is no damping. What is reported
then are the variables without effect, in the order of the columns. A solve that starts with
positive damping ends with ill-posed equations only because of a variable without effect, at the
point where the last Jacobian was computed. -/
theorem illPosed_iff_of_step_and_solve (p : Problem ℝ) (settings : Settings ℝ) :
    (∀ (s : State ℝ) (j : Jacobian ℝ) (y : List ℝ) (damping : Amount ℝ) (tried : Nat),
      s.phase = .attempt (j.normalEquations y) damping tried →
      (∀ u ∈ j.columns, u.length = j.conditions) → j.columns.length = p.active.length →
      0 ≤ damping.toScalar →
      ((∃ s', s.step p settings = .ended .illPosed s') ↔
        (∃ u ∈ j.columns, ∀ a ∈ u, a = 0) ∨
          damping.toScalar = 0 ∧ ¬LinearIndependent ℝ j.toMatrix.col) ∧
      ∀ s', s.step p settings = .ended .illPosed s' → s' = { s with
        records := s.records ++ (j.ineffective p.active).map Record.unresponsive ++
          [.illPosed] }) ∧
    (0 < settings.eta.toScalar → (∀ a ∈ settings.initialDamping, 0 < a.toScalar) →
      ∀ start o, p.solve settings start = some o → o.status = .illPosed →
        ∃ x, o.point = some x ∧ p.HasNoEffect o.interactions o.records x) := by
  constructor
  · intro s j y damping tried hphase hrows hcolumns hdamping
    have hread : damping.read = .ok damping.toScalar := Amount.read_eq damping
    have hsingular := j.singular_iff (fun u hu ↦ (hrows u hu).le) hdamping (y := y)
    have hreported (s' : State ℝ) (h : s.step p settings = .ended .illPosed s') : s' = { s with
        records := s.records ++ (j.ineffective p.active).map Record.unresponsive ++
          [.illPosed] } := by
      rw [State.step_of_singular hphase hread (State.singular_of_step hphase hread h)] at h
      rw [← j.map_unresponsive hcolumns.symm y, List.map_map]
      exact (Progress.ended.inj h).2.symm
    refine ⟨⟨fun ⟨s', h⟩ ↦ ?_, fun h ↦ ?_⟩, hreported⟩
    · exact hsingular.mp (State.singular_of_step hphase hread h)
    · exact ⟨_, State.step_of_singular hphase hread (hsingular.mpr h)⟩
  · intro heta hinitial start o ho hstatus
    cases solved_of_solve ho with
    | noStart => cases hstatus
    | unevaluated => cases hstatus
    | nothingActive hactive =>
      rw [status_commit] at hstatus
      split at hstatus <;> cases hstatus
    | @iterated start e s hactive hends =>
      obtain ⟨residuals, -, hfinish⟩ := hends
      have hgood := Progress.good_of_finish (Progress.Positive p)
        (fun s hs ↦ State.Positive.step heta hactive hs) (positive_begin hinitial _) hfinish
      cases e with
      | finished =>
        rw [outcome, status_commit] at hstatus
        split at hstatus <;> cases hstatus
      | failed => cases hstatus
      | illPosed => exact ⟨s.best.point, rfl, hgood⟩

/-- A problem whose only residual does not see the second of two variables. -/
noncomputable def blind : Problem ℝ where
  conditions := 1
  dimension := 2
  residual _ x := .ok (x.take 1)
  diffStep := .scalar 1
  workers := (Number.truth true).workers
  pattern := none
  active := [0, 1]
  accepts x := x.length = 2
  pattern_shape := by simp
  active_nodup := by simp
  active_lt := by simp

/-- Some damping to begin with, and one update at most. -/
noncomputable def blindSettings : Settings ℝ where
  limit := .atMost 1
  epsilon := 0
  initialDamping := some (.whole 1)
  eta := .whole 8
  verbose := false

/-- The second variable has no effect, and damping or not, the first trial shows it. -/
theorem illPosed_blind : ∃ o, blind.solve blindSettings (some [0, 0]) = some o ∧
    o.status = .illPosed ∧ o.records = [.differentiated 1 2 1, .unresponsive 1, .illPosed] ∧
    ∃ x, o.point = some x ∧ blind.HasNoEffect o.interactions o.records x := by
  obtain ⟨htrial, hsolve⟩ := illPosed_iff_of_step_and_solve blind blindSettings
  let j : Jacobian ℝ := ⟨1, [[(0 + 1 - 0) / 1], [(0 - 0) / 1]]⟩
  let start : State ℝ := State.initial blindSettings (.ofResiduals [0, 0] [0])
  let poised : State ℝ := { start with
    interactions := start.interactions ++
      [.differentiate [0, 0] [0] [[0 + 1, 0], [0, 0 + 1]]]
    phase := .attempt (j.normalEquations [0]) (.whole 1) 0
    records := [.differentiated 1 2 1] }
  have hpoised : start.step blind blindSettings = .running poised := rfl
  have hdamping : (Amount.whole 1 : Amount ℝ).toScalar = 1 := by simp [Amount.toScalar]
  obtain ⟨hiff, hreported⟩ := htrial poised j [0] (.whole 1) 0 rfl (by simp [j]) rfl
    (hdamping.symm ▸ zero_le_one)
  obtain ⟨s, hs⟩ := hiff.mpr (Or.inl ⟨[(0 - 0) / 1], by simp [j], by simp⟩)
  have hsolved : blind.solve blindSettings (some [0, 0])
      = some (blind.outcome [0, 0] .illPosed s) := by
    have hrun : start.run blind blindSettings = some (.illPosed, s) := by
      rw [State.run_eq_finish, hpoised, Progress.finish, State.run_eq_finish, hs]
      rfl
    exact congrArg (Option.map _) hrun
  refine ⟨_, hsolved, rfl, ?_, hsolve ?_ ?_ _ _ hsolved rfl⟩
  · change s.records = _
    rw [hreported s hs]
    have hineffective : j.ineffective blind.active = [1] := by
      simp [Jacobian.ineffective, blind, j]
    rw [hineffective]
    rfl
  · simp [blindSettings, Amount.toScalar]
  · intro a ha
    obtain rfl := Option.some.inj ha
    exact hdamping.symm ▸ zero_lt_one

end Problem

end DampedLeastSquares
