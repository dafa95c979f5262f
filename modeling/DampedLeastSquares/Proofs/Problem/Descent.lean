import DampedLeastSquares.Proofs.Problem.LeastSquares
import DampedLeastSquares.Proofs.Solve.Best

/-!
# Damped steps on a linear model

For residuals `A x + b` and damping `λ > 0` let `v` solve `(JᵀJ + λ diag(JᵀJ)) v = -Jᵀy`. Then

  `|y + J v|² = |y|² - |J v|² - 2 λ ∑ᵢ |Jᵢ|² vᵢ²`,

whatever the rank of `J`. If no column is zero the last sum is positive unless `v` is, and `v` is
zero only with the gradient `Jᵀy`. So a damped step is accepted just if there is something to gain,
and a step that is rejected shows that the residuals are least already.

The damping of a step is not known beforehand, since it changes with every decision. All that is
used of it is that it stays positive. A run need not end, and so everything is said of the trials so
far.
-/

open scoped Matrix

namespace DampedLeastSquares

/-! ## A damped step -/

section gram

variable {m n : ℕ} {B : Matrix (Fin m) (Fin n) ℝ} {a : ℝ} {v : Fin n → ℝ} {y : Fin m → ℝ}

/-- What the squares of the residuals lose by a damped step. -/
theorem dotProduct_add_mulVec_self (h : dampedGram B a *ᵥ v = -(Bᵀ *ᵥ y)) :
    (y + B *ᵥ v) ⬝ᵥ (y + B *ᵥ v)
      = y ⬝ᵥ y - (B *ᵥ v ⬝ᵥ B *ᵥ v + 2 * (a * ∑ i, (B.col i ⬝ᵥ B.col i) * v i ^ 2)) := by
  have hcross : y ⬝ᵥ B *ᵥ v
      = -(B *ᵥ v ⬝ᵥ B *ᵥ v + a * ∑ i, (B.col i ⬝ᵥ B.col i) * v i ^ 2) := by
    rw [← dotProduct_dampedGram_mulVec, h, dotProduct_neg, neg_neg, Matrix.dotProduct_mulVec,
      ← Matrix.mulVec_transpose, dotProduct_comm]
  rw [dotProduct_add, add_dotProduct, add_dotProduct, dotProduct_comm (B *ᵥ v) y, hcross]
  ring

theorem sum_pos_of_ne_zero (hcolumns : ∀ i, B.col i ≠ 0) (hv : v ≠ 0) :
    0 < ∑ i, (B.col i ⬝ᵥ B.col i) * v i ^ 2 := by
  obtain ⟨i, hi⟩ := Function.ne_iff.mp hv
  have hcolumn : 0 < B.col i ⬝ᵥ B.col i :=
    (dotProduct_self_nonneg _).lt_of_ne' fun hzero ↦ hcolumns i (dotProduct_self_eq_zero.mp hzero)
  refine Finset.sum_pos' (fun k _ ↦ mul_nonneg (dotProduct_self_nonneg _) (sq_nonneg _))
    ⟨i, Finset.mem_univ i, mul_pos hcolumn (sq_pos_of_ne_zero hi)⟩

/-- **A damped step reduces the squares of the residuals unless the gradient is zero.** -/
theorem dotProduct_add_mulVec_self_lt_iff (ha : 0 < a) (hcolumns : ∀ i, B.col i ≠ 0)
    (h : dampedGram B a *ᵥ v = -(Bᵀ *ᵥ y)) :
    (y + B *ᵥ v) ⬝ᵥ (y + B *ᵥ v) < y ⬝ᵥ y ↔ Bᵀ *ᵥ y ≠ 0 := by
  have hnonneg := dotProduct_self_nonneg (B *ᵥ v)
  rw [dotProduct_add_mulVec_self h, sub_lt_self_iff]
  by_cases hv : v = 0
  · have hgradient : Bᵀ *ᵥ y = 0 := by rwa [hv, Matrix.mulVec_zero, zero_eq_neg] at h
    exact iff_of_false (by simp [hv]) (not_not.mpr hgradient)
  · have hsum := mul_pos ha (sum_pos_of_ne_zero hcolumns hv)
    refine iff_of_true (by linarith) fun hzero ↦ ?_
    have hsquares := dotProduct_dampedGram_mulVec B a v
    rw [h, hzero, neg_zero, dotProduct_zero] at hsquares
    linarith

end gram

variable {m n : ℕ} {A : Matrix (Fin m) (Fin n) ℝ} {b : Fin m → ℝ} {p : Problem ℝ}
  {S : List (Fin n)} {x : List ℝ}

/-! ## The equations of an affine function -/

theorem not_exists_zero_of_columns (hcolumns : ∀ c ∈ S, A.col c ≠ 0) :
    ¬∃ u ∈ Linear.columns A S, ∀ a ∈ u, a = 0 := by
  rintro ⟨u, hu, hzero⟩
  obtain ⟨c, hc, rfl⟩ := List.mem_map.mp hu
  exact hcolumns c hc (funext fun r ↦ hzero _ (List.mem_ofFn.mpr ⟨r, rfl⟩))

theorem gradient_equationsAt_ne_zero_iff : (∃ d ∈ (equationsAt A b S x).gradient, d ≠ 0) ↔
    (Linear.ofColumns m (Linear.columns A S))ᵀ *ᵥ (A *ᵥ Linear.vector n x + b) ≠ 0 := by
  have hgradient : (equationsAt A b S x).gradient
      = S.map fun c ↦ A.col c ⬝ᵥ (A *ᵥ Linear.vector n x + b) := by
    change (Linear.columns A S).map (Linear.dot · (Linear.affine A b x)) = _
    rw [Linear.columns, List.map_map]
    exact List.map_congr_left fun c _ ↦ Linear.dot_ofFn _ _
  rw [hgradient, ne_eq, transpose_mulVec_eq_zero_iff, not_forall]
  simp

/-- **A damped step reduces the error just if the gradient is not zero.** -/
theorem rms_lt_rms_iff_of_step? (hS : p.active = S.map Fin.val) (hcolumns : ∀ c ∈ S, A.col c ≠ 0)
    (hx : x.length = n) {a : ℝ} (ha : 0 < a) {step x' : List ℝ}
    (hstep : (equationsAt A b S x).step? a = some step) (hmoved : p.applyUpdate x step = .ok x') :
    p.Agrees x x' ∧ (Linear.rms (Linear.affine A b x') < Linear.rms (Linear.affine A b x) ↔
      ∃ d ∈ (equationsAt A b S x).gradient, d ≠ 0) := by
  have hnodup : S.Nodup := List.Nodup.of_map _ (hS ▸ p.active_nodup)
  obtain ⟨x'', v, hmoved', hagrees, hv, hvalues⟩ := exists_applyUpdate_of_step? hnodup hS hx hstep
  obtain rfl := Except.ok.inj (hmoved.symm.trans hmoved')
  have hnonzero : ∀ i, (Linear.ofColumns m (Linear.columns A S)).col i ≠ 0 := by
    intro i
    rw [col_ofColumns_columns]
    exact hcolumns _ (List.get_mem S _)
  refine ⟨hagrees, ?_⟩
  rw [gradient_equationsAt_ne_zero_iff, ← dotProduct_add_mulVec_self_lt_iff ha hnonzero hv,
    ← hvalues, ← not_le, Linear.rms_le_rms_iff (by simp), not_le, Linear.affine, Linear.affine,
    Linear.dot_ofFn, Linear.dot_ofFn]

theorem Problem.IsAffine.equationsAt?_eq (hp : p.IsAffine A b) (hS : p.active = S.map Fin.val)
    (hx : x.length = n) : p.equationsAt? x = some (equationsAt A b S x) := by
  obtain ⟨points, hcalled⟩ := hp.exists_jacobianFrom hx hS 0
  exact Problem.equationsAt?_of_jacobianFrom (hp.residual 0 x) hcalled

/-! ## Trials -/

/-- Each trial was accepted just if the gradient was not zero at the point that it was made from.
That is where the accepted trials before it lead from the start. -/
def Problem.Descends (p : Problem ℝ) (start : List ℝ) (trials : List (Trial ℝ)) : Prop :=
  ∀ before t after, trials = before ++ t :: after → ∃ x equations,
    p.retrace? start before = some x ∧ p.equationsAt? x = some equations ∧
    (t.accepted = true ↔ ∃ d ∈ equations.gradient, d ≠ 0)

theorem Problem.Descends.append {start : List ℝ} {trials : List (Trial ℝ)} {t : Trial ℝ}
    {equations : NormalEquations ℝ} (h : p.Descends start trials)
    (hx : p.retrace? start trials = some x) (hequations : p.equationsAt? x = some equations)
    (ht : t.accepted = true ↔ ∃ d ∈ equations.gradient, d ≠ 0) :
    p.Descends start (trials ++ [t]) :=
  forall_of_append_singleton h ⟨x, equations, hx, hequations, ht⟩

namespace State

/-- The damping, if it is known already, is positive. -/
def IsDamped (s : State ℝ) : Prop :=
  match s.phase with
  | .linearise damping => ∀ a ∈ damping, 0 < a.toScalar
  | .attempt _ damping _ => 0 < damping.toScalar

/-- The invariant: the course leads to the best point, the damping is positive, and the best point
has the least residuals if a trial was rejected. -/
structure Descending (p : Problem ℝ) (A : Matrix (Fin m) (Fin n) ℝ) (b : Fin m → ℝ)
    (start : List ℝ) (s : State ℝ) : Prop extends s.Retraced p start where
  /-- The best point has an entry for each variable. -/
  length : s.best.point.length = n
  /-- The damping is positive. -/
  damped : s.IsDamped
  /-- The gradients so far have decided. -/
  descends : p.Descends start s.trace.trials
  /-- A trial that was rejected shows that nothing is better. -/
  least : ∀ t ∈ s.trace.trials, t.accepted = false → p.IsLeast A b s.best.point

variable {settings : Settings ℝ} {s : State ℝ} {start : List ℝ}

section

variable (hp : p.IsAffine A b) (hS : p.active = S.map Fin.val)

include hp

theorem Descending.residuals_eq (h : s.Descending p A b start) :
    s.best.residuals = Linear.affine A b s.best.point :=
  Except.ok.inj (h.residuals.symm.trans (hp.residual 0 _))

include hS

theorem Descending.equations_eq (h : s.Descending p A b start) {equations : NormalEquations ℝ}
    {damping : Amount ℝ} {tried : Nat} (hphase : s.phase = .attempt equations damping tried) :
    equations = equationsAt A b S s.best.point := by
  have hequations := h.equations _ _ _ hphase
  rw [hp.equationsAt?_eq hS h.length] at hequations
  exact (Option.some.inj hequations).symm

variable (hcolumns : ∀ c ∈ S, A.col c ≠ 0)

include hcolumns

/-- A trial is accepted just if it reduces the error, and just if the gradient is not zero. -/
theorem Descending.accepted_iff (h : s.Descending p A b start) {equations : NormalEquations ℝ}
    {damping : Amount ℝ} {tried : Nat} {step : List ℝ} {reached : Visited ℝ} {d : Decision ℝ}
    (htrial : s.Tried p equations damping tried step reached)
    (hdecided : decideTrial settings.eta equations damping (s.best.error - reached.error) = .ok d) :
    p.Agrees s.best.point reached.point ∧
      (d.accepted = true ↔ Linear.rms (Linear.affine A b reached.point)
        < Linear.rms (Linear.affine A b s.best.point)) ∧
      (d.accepted = true ↔ ∃ d ∈ (equationsAt A b S s.best.point).gradient, d ≠ 0) := by
  have hdamped : 0 < damping.toScalar := by
    have hdamped := h.damped
    rwa [IsDamped, htrial.phase] at hdamped
  obtain ⟨a, hread, hstep⟩ := htrial.solves
  rw [h.equations_eq hp hS htrial.phase, ← Amount.toScalar_of_read hread] at hstep
  obtain ⟨hagrees, hgradient⟩ :=
    rms_lt_rms_iff_of_step? hS hcolumns h.length hdamped hstep htrial.moved
  have hresiduals : reached.residuals = Linear.affine A b reached.point :=
    Except.ok.inj (htrial.evaluated.symm.trans (hp.residual _ _))
  have hreduces := accepted_iff_of_decideTrial hdecided
  rw [sub_pos, h.error, htrial.error, h.residuals_eq hp, hresiduals] at hreduces
  exact ⟨hagrees, hreduces, hreduces.trans hgradient⟩

theorem Descending.after (h : s.Descending p A b start) (heta : 0 < settings.eta.toScalar)
    {equations : NormalEquations ℝ} {damping : Amount ℝ} {tried : Nat} {step : List ℝ}
    {reached : Visited ℝ} {d : Decision ℝ} (htrial : s.Tried p equations damping tried step reached)
    (hdecided : decideTrial settings.eta equations damping (s.best.error - reached.error) = .ok d) :
    ({ s with interactions := s.interactions ++ [Interaction.evaluate reached.point] }.after
      settings equations d tried step reached).Descending p A b start := by
  have hpure : p.IsPure := fun calls y ↦ by rw [hp.residual, hp.residual]
  have hretraced : ({ s with
      interactions := s.interactions ++ [Interaction.evaluate reached.point] }.after settings
        equations d tried step reached).Retraced p start :=
    h.toRetraced.after hpure htrial (damping_of_decideTrial hdecided)
  obtain ⟨hagrees, hreduces, hgradient⟩ := h.accepted_iff hp hS hcolumns htrial hdecided
  have hdescends := h.descends.append h.best (hp.equationsAt?_eq hS h.length)
    (t := s.newTrial d reached) hgradient
  have hdamped : 0 < d.dampingAfter.toScalar := by
    have hdamped := h.damped
    rw [IsDamped, htrial.phase] at hdamped
    exact dampingAfter_pos_of_decideTrial heta hdamped hdecided
  cases haccepted : d.accepted with
  | true =>
    refine ⟨hretraced, ?_, ?_, hdescends, fun t ht hrejected ↦ ?_⟩
    · rw [best_after_of_accepted haccepted, hagrees.1, h.length]
    · rw [IsDamped, phase_after_of_accepted haccepted]
      exact fun a ha ↦ Option.some.inj ha ▸ hdamped
    · -- After a rejected trial there was nothing to gain, and so no trial is accepted any more.
      rcases List.mem_append.mp ht with hmem | hmem
      · have hle := h.least t hmem hrejected _ hagrees
        exact absurd (hreduces.mp haccepted) hle.not_gt
      · rw [List.mem_singleton.mp hmem] at hrejected
        exact absurd (hrejected.symm.trans haccepted) Bool.false_ne_true
  | false =>
    refine ⟨hretraced, ?_, ?_, hdescends, fun t _ _ ↦ ?_⟩
    · rw [best_after_of_rejected haccepted]
      exact h.length
    · rw [IsDamped, phase_after_of_rejected haccepted]
      exact hdamped
    · rw [best_after_of_rejected haccepted]
      have hzero := mt hgradient.mpr (by rw [haccepted]; exact Bool.false_ne_true)
      rw [gradient_equationsAt_ne_zero_iff, not_not, transpose_mulVec_eq_zero_iff] at hzero
      exact Problem.isLeast_of_orthogonal hS hzero

/-- With the Jacobian at hand the damping is positive, also if it is taken from the Jacobian. -/
theorem Descending.linearised (h : s.Descending p A b start) (hactive : p.active ≠ [])
    {damping : Option (Amount ℝ)} {j : Jacobian ℝ} {points : List (List ℝ)}
    (hphase : s.phase = .linearise damping)
    (hcalled : p.jacobianFrom (callCount s.interactions) s.best.point
      (Tensor.ofList s.best.residuals) = ⟨points, .ok j⟩) :
    0 < (damping.getD (.scalar (j.normalEquations s.best.residuals).initialDamping)).toScalar := by
  have hdamped := h.damped
  rw [IsDamped, hphase] at hdamped
  cases damping with
  | some a => exact hdamped a rfl
  | none =>
    rw [h.residuals_eq hp] at hcalled
    obtain ⟨_, hcalled'⟩ := hp.exists_jacobianFrom h.length hS (callCount s.interactions)
    obtain rfl := Except.ok.inj (Called.mk.inj (hcalled.symm.trans hcalled')).2
    refine Jacobian.initialDamping_pos ?_ ?_ _
    · have hne : S ≠ [] := by
        rintro rfl
        exact hactive hS
      simpa [Linear.columns] using hne
    · exact not_exists_zero_of_columns hcolumns

/-- **A step keeps the invariant, and never finds the equations ill-posed.** -/
theorem Descending.step (h : s.Descending p A b start) (hactive : p.active ≠ [])
    (heta : 0 < settings.eta.toScalar) :
    (s.step p settings).state.Descending p A b start ∧
      ∀ s', s.step p settings ≠ .ended .illPosed s' := by
  have hpure : p.IsPure := fun calls y ↦ by rw [hp.residual, hp.residual]
  have hretraced : (s.step p settings).state.Retraced p start := h.toRetraced.step hpure
  have hmove := move_step p settings s
  generalize s.step p settings = a at hmove hretraced ⊢
  cases hmove with
  | linearised hphase hcalled =>
    refine ⟨⟨hretraced, h.length, h.linearised hp hS hcolumns hactive hphase hcalled, h.descends,
      h.least⟩, ?_⟩
    rintro s' ⟨⟩
  | failed =>
    refine ⟨⟨hretraced, h.length, h.damped, h.descends, h.least⟩, ?_⟩
    rintro s' ⟨⟩
  | stuck hphase hread hsingular =>
    have hdamped := h.damped
    rw [IsDamped, hphase] at hdamped
    rw [h.equations_eq hp hS hphase, ← Amount.toScalar_of_read hread] at hsingular
    exact absurd (Jacobian.exists_zero_of_singular hdamped hsingular)
      (not_exists_zero_of_columns hcolumns)
  | tried htrial hdecided =>
    rw [state_conclude]
    refine ⟨h.after hp hS hcolumns heta htrial hdecided, fun s' ↦ ?_⟩
    rw [conclude]
    split
    · rintro ⟨⟩
    · rintro ⟨⟩

omit hS hcolumns in
theorem descending_begin (hinitial : ∀ a ∈ settings.initialDamping, 0 < a.toScalar)
    (hx : start.length = n) :
    (State.begin settings (.ofResiduals start (Linear.affine A b start))).state.Descending p A b
      start where
  toRetraced := retraced_begin (hp.residual 0 start)
  length := by rwa [best_begin]
  damped := by
    rw [IsDamped, phase_begin]
    exact hinitial
  descends before t after heq := by
    rw [trace_begin] at heq
    simp at heq
  least t ht := by
    rw [trace_begin] at ht
    exact absurd ht List.not_mem_nil

end

end State

/-! ## Runs and solves -/

/-- What is known of a run so far. -/
def Progress.Descending (p : Problem ℝ) (A : Matrix (Fin m) (Fin n) ℝ) (b : Fin m → ℝ)
    (start : List ℝ) (a : Progress ℝ) : Prop :=
  a.state.Descending p A b start ∧ ∀ s, a ≠ .ended .illPosed s

/-- **On a linear model no damped step is wasted.** Let the residuals be `A x + b`, with no column
of an active variable zero, and let the first damping be positive or taken from the Jacobian.
However far a run gets, it does not find the equations ill-posed; a trial of it was accepted just if
the gradient was not zero where it was made, and if any was rejected, then no point that agrees with
the best one in the other variables has smaller residuals. The same is true of the outcome of a
solve, and the best point is the one that is returned unless the solve fails. -/
theorem FunctionModel.descends_affine {diffStep : Amount ℝ} (hstep : 0 < diffStep.toScalar)
    {w : Workers} {pattern : Option (Tensor Bool)}
    (hpattern : ∀ t ∈ pattern, ∀ kept ∈ t.entries, kept = true) {solution : Option (Tensor ℝ)}
    {made model : FunctionModel ℝ}
    (hmade : make m n (fun _ x ↦ .ok (Linear.affine A b x)) diffStep (.ok w) pattern solution
      = .ok made)
    (hmodel : model = made ∨ ∃ indices, made.setActive? indices = .ok (some model))
    (hactive : model.problem.active ≠ [])
    (hcolumns : ∀ c : Fin n, (c : ℕ) ∈ model.problem.active → A.col c ≠ 0)
    {settings : Settings ℝ} (heta : 0 < settings.eta.toScalar)
    (hinitial : ∀ a ∈ settings.initialDamping, 0 < a.toScalar) {x : Tensor ℝ} (hx : x.size = n) :
    (∀ k, (∀ s, (Progress.next model.problem settings)^[k] (State.begin settings
        (.ofResiduals x.entries (Linear.affine A b x.entries))) ≠ .ended .illPosed s) ∧
      ∀ s, s = model.problem.stateAfter settings x.entries (Linear.affine A b x.entries) k →
        model.problem.Descends x.entries s.trace.trials ∧
        ∀ t ∈ s.trace.trials, t.accepted = false → ∀ z, model.problem.Agrees s.best.point z →
          Linear.rms (Linear.affine A b s.best.point) ≤ Linear.rms (Linear.affine A b z)) ∧
    ∀ start o model', (start.orElse fun _ ↦ model.initialGuess) = some x →
      model.solve settings start = some (o, model') →
      o.status ≠ .illPosed ∧ model.problem.Descends x.entries o.trace.trials ∧
      ∃ best, model.problem.retrace? x.entries o.trace.trials = some best ∧
        (o.status ≠ .evaluationError → o.point = some best) ∧
        ∀ t ∈ o.trace.trials, t.accepted = false → ∀ z, model.problem.Agrees best z →
          Linear.rms (Linear.affine A b best) ≤ Linear.rms (Linear.affine A b z) := by
  have hp : model.problem.IsAffine A b := by
    have hp := isAffine_of_make hstep hpattern hmade
    rcases hmodel with rfl | ⟨indices, hset⟩
    · exact hp
    · exact isAffine_of_setActive? hp hset
  obtain ⟨S, hS⟩ := hp.exists_active
  have hcolumns' : ∀ c ∈ S, A.col c ≠ 0 := fun c hc ↦
    hcolumns c (hS ▸ List.mem_map_of_mem hc)
  have hbegin : (State.begin settings (.ofResiduals x.entries
      (Linear.affine A b x.entries))).Descending model.problem A b x.entries := by
    refine ⟨State.descending_begin hp hinitial hx, fun s hs ↦ ?_⟩
    obtain ⟨fault, hfault⟩ := State.exists_fault_of_begin hs
    cases hfault
  have hnext : ∀ s, (Progress.running s).Descending model.problem A b x.entries →
      (s.step model.problem settings).Descending model.problem A b x.entries :=
    fun s hs ↦ hs.1.step hp hS hcolumns' hactive heta
  refine ⟨fun k ↦ ?_, fun start o model' hstart hsolve ↦ ?_⟩
  · obtain ⟨hdescending, hposed⟩ := Progress.good_iterate_next _ hnext hbegin k
    exact ⟨hposed, fun s hs ↦ hs ▸ ⟨hdescending.descends, hdescending.least⟩⟩
  · rw [solve, hstart] at hsolve
    obtain ⟨o', hproblem, heq⟩ := Option.map_eq_some_iff.mp hsolve
    obtain ⟨rfl, -⟩ := Prod.mk.inj heq
    cases Problem.solved_of_solve hproblem with
    | nothingActive hnone => exact absurd hnone hactive
    | unevaluated _ hevaluated => cases hevaluated.symm.trans (hp.residual 0 _)
    | @iterated _ e s _ hends =>
      obtain ⟨residuals, hevaluated, hfinish⟩ := hends
      obtain rfl := Except.ok.inj (hevaluated.symm.trans (hp.residual 0 _))
      obtain ⟨hdescending, hposed⟩ := Progress.good_of_finish _ hnext hbegin hfinish
      rw [Problem.trace_outcome]
      refine ⟨?_, hdescending.descends, s.best.point, hdescending.best, ?_, hdescending.least⟩
      · cases e with
        | finished =>
          rw [Problem.outcome, Problem.status_commit]
          split
          · rintro ⟨⟩
          · rintro ⟨⟩
        | illPosed => exact absurd rfl (hposed s)
        | failed => rintro ⟨⟩
      · cases e with
        | finished => exact fun _ ↦ Problem.point_commit _ _ _ _ _
        | illPosed => exact fun _ ↦ rfl
        | failed => exact fun hstatus ↦ absurd rfl hstatus

/-- One update at most, and damping that is taken from the first Jacobian. -/
noncomputable def dampedLineSettings : Settings ℝ := { lineSettings with initialDamping := none }

/-- A line is fitted to three heights with damping. -/
theorem FunctionModel.descends_affine_line : ∃ made model o model',
    make 3 2 (fun _ x ↦ .ok (Linear.affine lineMatrix lineOffset x)) (.scalar 1)
      (.ok { count := 1 }) none none = .ok made ∧
    made.setActive? [.int 1, .int 0] = .ok (some model) ∧
    model.solve dampedLineSettings (some (.ofList [0, 0])) = some (o, model') ∧
    o.status ≠ .illPosed ∧ model.problem.Descends [0, 0] o.trace.trials := by
  obtain ⟨made, hmade⟩ : ∃ made, make 3 2 (fun _ x ↦ .ok (Linear.affine lineMatrix lineOffset x))
      (.scalar 1) (.ok { count := 1 }) none none = .ok made := ⟨_, rfl⟩
  obtain ⟨model, hset, hactive⟩ : ∃ model, made.setActive? [.int 1, .int 0] = .ok (some model) ∧
      model.problem.active = [1, 0] := by
    obtain rfl := Except.ok.inj hmade
    exact ⟨_, rfl, rfl⟩
  have hlimit : dampedLineSettings.limit = .atMost 1 := rfl
  obtain ⟨o, ho⟩ := Problem.exists_solve hlimit model.problem (some [0, 0])
  have hsolve : model.solve dampedLineSettings (some (.ofList [0, 0]))
      = some (o, model.afterSolve o) := Option.map_eq_some_iff.mpr ⟨o, ho, rfl⟩
  have hstep : (0 : ℝ) < (Amount.scalar 1 : Amount ℝ).toScalar := zero_lt_one
  have heta : (0 : ℝ) < dampedLineSettings.eta.toScalar := by
    simp [dampedLineSettings, lineSettings, Amount.toScalar]
  have hinitial : ∀ a ∈ dampedLineSettings.initialDamping, 0 < a.toScalar := by
    rintro a ⟨⟩
  obtain ⟨-, houtcome⟩ := descends_affine hstep (by simp) hmade (.inr ⟨_, hset⟩)
    (by simp [hactive]) (fun c _ ↦ linearIndependent_lineMatrix.ne_zero c) heta hinitial
    (x := .ofList [0, 0]) rfl
  obtain ⟨hstatus, hdescends, -⟩ := houtcome _ o _ Option.orElse_some hsolve
  exact ⟨made, model, o, _, hmade, hset, hsolve, hstatus, hdescends⟩

end DampedLeastSquares
