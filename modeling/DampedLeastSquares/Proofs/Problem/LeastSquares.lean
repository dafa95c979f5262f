import DampedLeastSquares.Proofs.Problem.Affine
import DampedLeastSquares.Proofs.Solve.Commit
import DampedLeastSquares.Proofs.Solve.IllPosed

/-!
# Linear least squares

For residuals `A x + b` one step without damping is all it takes. Wherever it starts, it leads to a
point where the residuals are orthogonal to the columns of the active variables, and there their
squares are least. Whether the step is accepted shows what the start was worth: if it is rejected,
then the start was as good. A second step is tried from where the first has led, and it cannot be
accepted, since nothing is better. Being undamped, the step that is rejected is the last.

So neither the bound on updates nor the ratios of progress have anything to say about the outcome,
and nor has the factor by which damping changes. The statement below leaves them free.
-/

open scoped Matrix

namespace DampedLeastSquares

variable {m n : ℕ} {A : Matrix (Fin m) (Fin n) ℝ} {b : Fin m → ℝ} {p : Problem ℝ}

/-! ## Points of least residuals -/

namespace Problem

/-- Two points differ in active variables only. -/
def Agrees (p : Problem ℝ) (x y : List ℝ) : Prop :=
  y.length = x.length ∧ ∀ c, c ∉ p.active → y[c]? = x[c]?

theorem Agrees.refl (p : Problem ℝ) (x : List ℝ) : p.Agrees x x := ⟨rfl, fun _ _ ↦ rfl⟩

theorem Agrees.symm {x y : List ℝ} (h : p.Agrees x y) : p.Agrees y x :=
  ⟨h.1.symm, fun c hc ↦ (h.2 c hc).symm⟩

theorem Agrees.trans {x y z : List ℝ} (h : p.Agrees x y) (h' : p.Agrees y z) : p.Agrees x z :=
  ⟨h'.1.trans h.1, fun c hc ↦ (h'.2 c hc).trans (h.2 c hc)⟩

/-- Of all points that agree with it, this one has the least residuals. -/
def IsLeast (p : Problem ℝ) (A : Matrix (Fin m) (Fin n) ℝ) (b : Fin m → ℝ) (x : List ℝ) : Prop :=
  ∀ z, p.Agrees x z → Linear.rms (Linear.affine A b x) ≤ Linear.rms (Linear.affine A b z)

theorem dotProduct_self_le_of_orthogonal {u v : Fin m → ℝ} (h : u ⬝ᵥ v = 0) :
    v ⬝ᵥ v ≤ (u + v) ⬝ᵥ (u + v) := by
  rw [dotProduct_add, add_dotProduct, add_dotProduct, dotProduct_comm v u, h, add_zero, zero_add]
  exact le_add_of_nonneg_left (dotProduct_self_nonneg u)

/-- Residuals that are orthogonal to the columns in use are least. -/
theorem isLeast_of_orthogonal {S : List (Fin n)} (hS : p.active = S.map Fin.val) {x : List ℝ}
    (h : ∀ c ∈ S, A.col c ⬝ᵥ (A *ᵥ Linear.vector n x + b) = 0) : p.IsLeast A b x := by
  intro z hz
  have hunmoved : ∀ c, c ∉ S → (Linear.vector n z - Linear.vector n x) c = 0 := by
    intro c hc
    have hactive : (c : ℕ) ∉ p.active := by
      rw [hS, List.mem_map]
      rintro ⟨c', hc', heq⟩
      exact hc (Fin.ext heq ▸ hc')
    have hentry := hz.2 c hactive
    rw [Pi.sub_apply, Linear.vector, Linear.vector, List.getD_eq_getElem?_getD,
      List.getD_eq_getElem?_getD, hentry, sub_self]
  have hcross :
      A *ᵥ (Linear.vector n z - Linear.vector n x) ⬝ᵥ (A *ᵥ Linear.vector n x + b) = 0 := by
    rw [dotProduct_comm, Matrix.dotProduct_mulVec, dotProduct_comm]
    refine Finset.sum_eq_zero fun c _ ↦ ?_
    by_cases hc : c ∈ S
    · refine mul_eq_zero_of_right _ ?_
      rw [← h c hc, dotProduct_comm]
      rfl
    · rw [hunmoved c hc, zero_mul]
  have hsplit : A *ᵥ Linear.vector n z + b
      = A *ᵥ (Linear.vector n z - Linear.vector n x) + (A *ᵥ Linear.vector n x + b) := by
    rw [Matrix.mulVec_sub]
    abel
  rw [Linear.rms_le_rms_iff (by simp), Linear.affine, Linear.affine, Linear.dot_ofFn,
    Linear.dot_ofFn, hsplit]
  exact dotProduct_self_le_of_orthogonal hcross

end Problem

/-! ## An undamped step -/

section

variable {S : List (Fin n)}

theorem col_ofColumns_columns (A : Matrix (Fin m) (Fin n) ℝ)
    (i : Fin (Linear.columns A S).length) :
    (Linear.ofColumns m (Linear.columns A S)).col i
      = A.col (S.get (i.cast (Linear.length_columns A S))) := by
  have hcolumn : (Linear.columns A S)[i]
      = List.ofFn (A.col (S.get (i.cast (Linear.length_columns A S)))) := List.getElem_map _
  change Linear.vector m (Linear.columns A S)[i] = _
  rw [hcolumn, Linear.vector_ofFn]

theorem linearIndependent_ofColumns (hS : S.Nodup)
    (h : LinearIndepOn ℝ A.col {c | c ∈ S}) :
    LinearIndependent ℝ (Linear.ofColumns m (Linear.columns A S)).col := by
  have hcomp := LinearIndependent.comp h
    (fun i : Fin (Linear.columns A S).length ↦
      ⟨S.get (i.cast (Linear.length_columns A S)), List.get_mem S _⟩) fun i k hik ↦ by
      have hget := List.nodup_iff_injective_get.mp hS (Subtype.ext_iff.mp hik)
      exact Fin.cast_injective _ hget
  have hcol : (Linear.ofColumns m (Linear.columns A S)).col
      = fun i ↦ A.col (S.get (i.cast (Linear.length_columns A S))) :=
    funext (col_ofColumns_columns A)
  rw [hcol]
  exact hcomp

/-- The equations of a function with independent columns. -/
noncomputable def equationsAt (A : Matrix (Fin m) (Fin n) ℝ) (b : Fin m → ℝ) (S : List (Fin n))
    (x : List ℝ) : NormalEquations ℝ :=
  Jacobian.normalEquations ⟨m, Linear.columns A S⟩ (Linear.affine A b x)

variable (hnodup : S.Nodup) (hindependent : LinearIndepOn ℝ A.col {c | c ∈ S})

include hnodup hindependent

theorem exists_step_equationsAt (b : Fin m → ℝ) (x : List ℝ) :
    (equationsAt A b S x).unresponsive = [] ∧
      ∃ step, (equationsAt A b S x).step? 0 = some step := by
  have hlength : ∀ u ∈ Linear.columns A S, u.length ≤ m := fun u hu ↦
    (Linear.length_of_mem_columns hu).le
  have hcolumns := linearIndependent_ofColumns hnodup hindependent
  have hregular : ¬((equationsAt A b S x).unresponsive ≠ [] ∨
      (equationsAt A b S x).step? 0 = none) := by
    rw [equationsAt, Jacobian.singular_iff hlength le_rfl]
    rintro (hzero | ⟨-, hdependent⟩)
    · obtain ⟨i, hi⟩ := (Linear.exists_col_eq_zero_iff hlength).mpr hzero
      exact hcolumns.ne_zero i hi
    · exact hdependent hcolumns
  rw [not_or, not_not] at hregular
  exact ⟨hregular.1, Option.ne_none_iff_exists'.mp hregular.2⟩

omit hindependent in
theorem exists_applyUpdate_of_step? (hS : p.active = S.map Fin.val) {x step : List ℝ} {a : ℝ}
    (hx : x.length = n) (hstep : (equationsAt A b S x).step? a = some step) :
    ∃ x' v, p.applyUpdate x step = .ok x' ∧ p.Agrees x x' ∧
      dampedGram (Linear.ofColumns m (Linear.columns A S)) a *ᵥ v
        = -((Linear.ofColumns m (Linear.columns A S))ᵀ *ᵥ (A *ᵥ Linear.vector n x + b)) ∧
      A *ᵥ Linear.vector n x' + b
        = A *ᵥ Linear.vector n x + b + Linear.ofColumns m (Linear.columns A S) *ᵥ v := by
  obtain ⟨v, rfl, hv⟩ := Jacobian.mulVec_of_step? (m := m)
    (fun u hu ↦ (Linear.length_of_mem_columns hu).le) hstep
  obtain ⟨x', hx', hlength, hframe, hvalues⟩ :=
    Problem.exists_addUpdate A (List.ofFn v) S (i := 0) (by simp) hx
  have hcard : (List.ofFn v).length ≤ x.length := by
    have hle := hnodup.length_le_card
    rw [Fintype.card_fin] at hle
    rw [List.length_ofFn, Linear.length_columns, hx]
    exact hle
  have hentries : (fun k : Fin (Linear.columns A S).length ↦ (List.ofFn v).getD (0 + k) 0) = v := by
    simp only [Nat.zero_add]
    exact Linear.vector_ofFn v
  rw [hentries] at hvalues
  rw [Linear.affine, Linear.vector_ofFn] at hv
  refine ⟨x', v, ?_, ⟨hlength.trans hx.symm, hS ▸ hframe⟩, hv, ?_⟩
  · rw [Problem.applyUpdate, if_pos hcard, hS]
    exact hx'
  · rw [hvalues, add_right_comm]

omit hnodup hindependent in
theorem transpose_mulVec_eq_zero_iff (y : Fin m → ℝ) :
    (Linear.ofColumns m (Linear.columns A S))ᵀ *ᵥ y = 0 ↔ ∀ c ∈ S, A.col c ⬝ᵥ y = 0 := by
  have hentry (i : Fin (Linear.columns A S).length) :
      ((Linear.ofColumns m (Linear.columns A S))ᵀ *ᵥ y) i
        = A.col (S.get (i.cast (Linear.length_columns A S))) ⬝ᵥ y := by
    rw [← col_ofColumns_columns]
    rfl
  constructor
  · intro hzero c hc
    obtain ⟨k, rfl⟩ := List.mem_iff_get.mp hc
    have hk := congrFun hzero (k.cast (Linear.length_columns A S).symm)
    rwa [hentry, Fin.cast_cast, Fin.cast_eq_self] at hk
  · intro hzero
    exact funext fun i ↦ (hentry i).trans (hzero _ (List.get_mem S _))

omit hindependent in
/-- **An undamped step makes the residuals orthogonal to the columns in use.** -/
theorem exists_applyUpdate_of_undamped (hS : p.active = S.map Fin.val) {x step : List ℝ}
    (hx : x.length = n) (hstep : (equationsAt A b S x).step? 0 = some step) :
    ∃ x', p.applyUpdate x step = .ok x' ∧ p.Agrees x x' ∧
      ∀ c ∈ S, A.col c ⬝ᵥ (A *ᵥ Linear.vector n x' + b) = 0 := by
  obtain ⟨x', v, hmoved, hagrees, hv, hvalues⟩ := exists_applyUpdate_of_step? hnodup hS hx hstep
  refine ⟨x', hmoved, hagrees, transpose_mulVec_eq_zero_iff _ |>.mp ?_⟩
  rw [dampedGram_mulVec, zero_smul, add_zero] at hv
  rw [hvalues, Matrix.mulVec_add, hv, add_neg_cancel]

end

/-! ## Two trials -/

theorem NormalEquations.overflows_of_zero (equations : NormalEquations ℝ) {damping : Amount ℝ}
    (h : damping.toScalar = 0) : equations.overflows damping = .ok false := by
  have hword : damping.readWord = .ok 0 := by
    cases damping with
    | scalar a => exact congrArg Except.ok h
    | whole n =>
      rw [Amount.toScalar, Amount.ofWhole_eq, Int.cast_eq_zero] at h
      rw [h]
      exact congrArg Except.ok (by simp)
  rw [overflows, hword]
  simp [Except.map, Scalar.isFinite]

theorem exists_decideTrial_of_zero (eta : Amount ℝ) (equations : NormalEquations ℝ)
    {damping : Amount ℝ} (h : damping.toScalar = 0) (reduction : ℝ) :
    ∃ d, decideTrial eta equations damping reduction = .ok d ∧ d.dampingAfter.toScalar = 0 := by
  rw [decideTrial]
  split
  · obtain ⟨shrunk, hshrunk, hvalue⟩ := Amount.exists_div damping eta
    rw [hshrunk]
    exact ⟨_, rfl, by rw [hvalue, h, zero_div]⟩
  · obtain ⟨grown, hgrown, hvalue⟩ := Amount.exists_mul damping eta
    rw [h, zero_mul] at hvalue
    simp only [hgrown, bind, Except.bind, equations.overflows_of_zero hvalue]
    exact ⟨_, rfl, hvalue⟩

/-- **An undamped trial that is rejected is the last.** -/
theorem State.finalAfter_of_rejected {settings : Settings ℝ} {s : State ℝ} {d : Decision ℝ}
    (hrejected : d.accepted = false) (h : d.dampingAfter.toScalar = 0) (tried : ℕ) (step : List ℝ)
    (reached : Visited ℝ) : s.finalAfter settings d tried step reached = true := by
  have hzero : Scalar.isZero d.dampingAfter.toScalar = true := Scalar.isZero_iff.mpr h
  rw [finalAfter, isFinal, hrejected, hzero]
  simp

theorem State.finish_conclude_of_rejected (p : Problem ℝ) {settings : Settings ℝ} {s : State ℝ}
    {d : Decision ℝ} (hrejected : d.accepted = false) (h : d.dampingAfter.toScalar = 0)
    (equations : NormalEquations ℝ) (tried : ℕ) (step : List ℝ) (reached : Visited ℝ) :
    (s.conclude settings equations d tried step reached).finish p settings
      = some (.finished, s.after settings equations d tried step reached) := by
  rw [conclude, if_pos (finalAfter_of_rejected hrejected h tried step reached)]
  rfl

namespace State

/-- The iteration is about to compute the Jacobian of an affine function at `x`, without damping. -/
structure Undamped (A : Matrix (Fin m) (Fin n) ℝ) (b : Fin m → ℝ) (x : List ℝ) (s : State ℝ) :
    Prop where
  /-- The point has an entry for each variable. -/
  length : x.length = n
  /-- It is the best so far. -/
  best : s.best = .ofResiduals x (Linear.affine A b x)
  /-- There is no damping. -/
  phase : ∃ damping, s.phase = .linearise (some damping) ∧ damping.toScalar = 0

section

variable (settings : Settings ℝ) {s : State ℝ} {S : List (Fin n)} {x : List ℝ}
  (hp : p.IsAffine A b) (hS : p.active = S.map Fin.val)

include hp hS

theorem Undamped.exists_step (hs : s.Undamped A b x) :
    ∃ s' damping, s.step p settings = .running s' ∧ s'.best = s.best ∧ s'.trace = s.trace ∧
      s'.phase = .attempt (equationsAt A b S x) damping 0 ∧ damping.toScalar = 0 := by
  obtain ⟨damping, hphase, hdamping⟩ := hs.phase
  obtain ⟨points, hcalled⟩ := hp.exists_jacobianFrom hs.length hS (callCount s.interactions)
  have hstep : s.step p settings = s.linearise p (some damping) := by rw [step, hphase]
  rw [hstep, linearise, hs.best]
  simp only [Visited.ofResiduals, hcalled]
  exact ⟨_, damping, rfl, rfl, rfl, rfl, hdamping⟩

/-- The step leads to a point of least residuals, and is accepted if they are less than before. -/
theorem exists_conclude (hindependent : LinearIndepOn ℝ A.col {c | c ∈ S}) (hx : x.length = n)
    (hbest : s.best = .ofResiduals x (Linear.affine A b x)) {damping : Amount ℝ} {tried : ℕ}
    (hphase : s.phase = .attempt (equationsAt A b S x) damping tried)
    (hdamping : damping.toScalar = 0) :
    ∃ (s' : State ℝ) (d : Decision ℝ) (step x' : List ℝ),
      s.step p settings = s'.conclude settings (equationsAt A b S x) d tried step
        (.ofResiduals x' (Linear.affine A b x')) ∧
      s'.best = s.best ∧ s'.trace = s.trace ∧ p.Agrees x x' ∧ p.IsLeast A b x' ∧
      d.dampingAfter.toScalar = 0 ∧
      (d.accepted = true ↔
        Linear.rms (Linear.affine A b x') < Linear.rms (Linear.affine A b x)) := by
  have hnodup : S.Nodup := List.Nodup.of_map _ (hS ▸ p.active_nodup)
  obtain ⟨hresponsive, step, hsolved⟩ := exists_step_equationsAt hnodup hindependent b x
  obtain ⟨x', hmoved, hagrees, horthogonal⟩ :=
    exists_applyUpdate_of_undamped hnodup hS hx hsolved
  obtain ⟨d, hdecided, hafter⟩ := exists_decideTrial_of_zero settings.eta (equationsAt A b S x)
    hdamping (Linear.rms (Linear.affine A b x) - Linear.rms (Linear.affine A b x'))
  refine ⟨{ s with interactions := s.interactions ++ [.evaluate x'] }, d, step, x', ?_, rfl, rfl,
    hagrees, Problem.isLeast_of_orthogonal hS horthogonal, hafter, ?_⟩
  · have hstep : s.step p settings = s.attempt p settings (equationsAt A b S x) damping tried := by
      rw [State.step, hphase]
    rw [hstep, attempt, Amount.read_eq, hdamping]
    simp only [hresponsive, hsolved, hbest, Visited.ofResiduals, hmoved, hp.residual, judge,
      hdecided]
  · rw [accepted_iff_of_decideTrial hdecided, sub_pos]

theorem Undamped.exists_round (hindependent : LinearIndepOn ℝ A.col {c | c ∈ S})
    (hs : s.Undamped A b x) :
    ∃ (s' : State ℝ) (d : Decision ℝ) (step x' : List ℝ),
      s.run p settings = (s'.conclude settings (equationsAt A b S x) d 0 step
        (.ofResiduals x' (Linear.affine A b x'))).finish p settings ∧
      s'.best = .ofResiduals x (Linear.affine A b x) ∧ s'.trace = s.trace ∧ p.Agrees x x' ∧
      p.IsLeast A b x' ∧ d.dampingAfter.toScalar = 0 ∧
      (d.accepted = true ↔
        Linear.rms (Linear.affine A b x') < Linear.rms (Linear.affine A b x)) := by
  obtain ⟨s₁, damping, hstep, hbest, htrace, hphase, hdamping⟩ := hs.exists_step settings hp hS
  obtain ⟨s₂, d, step, x', hstep', hbest', htrace', hround⟩ := exists_conclude settings hp hS
    hindependent hs.length (hbest.trans hs.best) hphase hdamping
  refine ⟨s₂, d, step, x', ?_, hbest'.trans (hbest.trans hs.best), htrace'.trans htrace, hround⟩
  rw [run_eq_finish, hstep, Progress.finish, run_eq_finish, hstep']

theorem exists_run_of_isLeast (hindependent : LinearIndepOn ℝ A.col {c | c ∈ S})
    (hs : s.Undamped A b x) (hleast : p.IsLeast A b x) :
    ∃ s', s.run p settings = some (.finished, s') ∧ s'.best.point = x ∧
      s'.trace.updates = s.trace.updates := by
  obtain ⟨s', d, step, x', hrun, hbest, htrace, hagrees, -, hafter, haccepted⟩ :=
    hs.exists_round settings hp hS hindependent
  have hrejected : d.accepted = false :=
    Bool.eq_false_iff.mpr fun h ↦ (hleast x' hagrees).not_gt (haccepted.mp h)
  refine ⟨_, hrun.trans (finish_conclude_of_rejected p hrejected hafter _ _ _ _), ?_, ?_⟩
  · rw [best_after_of_rejected hrejected, hbest, Visited.ofResiduals]
  · rw [updates_after_of_rejected hrejected, htrace]

/-- **An undamped iteration finishes at a point of least residuals after at most one update.** -/
theorem exists_run_of_undamped (hindependent : LinearIndepOn ℝ A.col {c | c ∈ S})
    (hs : s.Undamped A b x) :
    ∃ s', s.run p settings = some (.finished, s') ∧ p.Agrees x s'.best.point ∧
      p.IsLeast A b s'.best.point ∧ s'.trace.updates ≤ s.trace.updates + 1 := by
  obtain ⟨s', d, step, x', hrun, hbest, htrace, hagrees, hleast, hafter, haccepted⟩ :=
    hs.exists_round settings hp hS hindependent
  cases hd : d.accepted with
  | false =>
    have hle : Linear.rms (Linear.affine A b x) ≤ Linear.rms (Linear.affine A b x') :=
      not_lt.mp fun h ↦ Bool.eq_false_iff.mp hd (haccepted.mpr h)
    refine ⟨_, hrun.trans (finish_conclude_of_rejected p hd hafter _ _ _ _), ?_⟩
    rw [best_after_of_rejected hd, updates_after_of_rejected hd, hbest, htrace, Visited.ofResiduals]
    exact ⟨.refl p x, fun z hz ↦ hle.trans (hleast z (hagrees.symm.trans hz)), Nat.le_succ _⟩
  | true =>
    have hbest' : (s'.after settings (equationsAt A b S x) d 0 step
        (.ofResiduals x' (Linear.affine A b x'))).best
        = .ofResiduals x' (Linear.affine A b x') := best_after_of_accepted hd
    have hupdates : (s'.after settings (equationsAt A b S x) d 0 step
        (.ofResiduals x' (Linear.affine A b x'))).trace.updates = s.trace.updates + 1 := by
      rw [updates_after_of_accepted hd, htrace]
    rw [hrun, conclude]
    -- The trial may be final because of the limit, and then nothing follows the update.
    split
    · refine ⟨_, rfl, ?_, ?_, hupdates.le⟩
      · rwa [hbest', Visited.ofResiduals]
      · rwa [hbest', Visited.ofResiduals]
    · have hundamped : (s'.after settings (equationsAt A b S x) d 0 step
          (.ofResiduals x' (Linear.affine A b x'))).Undamped A b x' :=
        ⟨hagrees.1.trans hs.length, hbest', d.dampingAfter, phase_after_of_accepted hd, hafter⟩
      obtain ⟨s'', hrun', rfl, hupdates'⟩ := exists_run_of_isLeast settings hp hS hindependent
        hundamped hleast
      exact ⟨s'', hrun', hagrees, hleast, (hupdates'.trans hupdates).le⟩

end

theorem exists_begin_eq_running (settings : Settings ℝ) (start : Visited ℝ) :
    ∃ s, begin settings start = .running s := by
  cases hbegin : begin settings start with
  | running s => exact ⟨s, rfl⟩
  | ended e s =>
    rw [begin] at hbegin
    cases hinitial : settings.initialDamping with
    | none =>
      rw [hinitial] at hbegin
      split at hbegin <;> cases hbegin
    | some damping =>
      have hread : (some damping).mapM Amount.read = .ok (some damping.toScalar) := by
        rw [Option.mapM_some, Amount.read_eq]
        rfl
      rw [hinitial, hread] at hbegin
      split at hbegin <;> cases hbegin

end State

/-! ## Solves -/

theorem Problem.IsAffine.exists_solve {settings : Settings ℝ} {x : List ℝ} (hp : p.IsAffine A b)
    (hactive : p.active ≠ []) (hindependent : LinearIndepOn ℝ A.col {c | (c : ℕ) ∈ p.active})
    (hinitial : ∃ damping, settings.initialDamping = some damping ∧ damping.toScalar = 0)
    (hx : x.length = n) :
    ∃ o, p.solve settings (some x) = some o ∧ o.status = .converged ∧ o.trace.updates ≤ 1 ∧
      ∃ x', o.point = some x' ∧ p.Agrees x x' ∧ p.IsLeast A b x' := by
  obtain ⟨S, hS⟩ := hp.exists_active
  have hcolumns : {c : Fin n | (c : ℕ) ∈ p.active} = {c | c ∈ S} := by
    ext c
    rw [Set.mem_ofPred, hS, List.mem_map_of_injective Fin.val_injective, Set.mem_ofPred]
  obtain ⟨damping, hdamping, hzero⟩ := hinitial
  obtain ⟨s, hs⟩ := State.exists_begin_eq_running settings (.ofResiduals x (Linear.affine A b x))
  have hstate : (State.begin settings (.ofResiduals x (Linear.affine A b x))).state = s := by
    rw [hs, Progress.state_running]
  have hundamped : s.Undamped A b x :=
    ⟨hx, by rw [← hstate, State.best_begin], damping,
      by rw [← hstate, State.phase_begin, hdamping], hzero⟩
  obtain ⟨s', hrun, hagrees, hleast, hupdates⟩ :=
    State.exists_run_of_undamped settings hp hS (hcolumns ▸ hindependent) hundamped
  rw [← hstate, State.trace_begin, Nat.zero_add] at hupdates
  have hsolve : p.solve settings (some x) = some (p.outcome x .finished s') := by
    rw [solve, if_neg (by rwa [List.isEmpty_iff]), iterate, hp.residual]
    dsimp only
    rw [hs, Progress.finish, hrun, Option.map_some]
  have haccepts : p.accepts s'.best.point = true := by
    rw [hp.accepts, FunctionModel.fits, hagrees.1, hx, decide_eq_true rfl]
  refine ⟨_, hsolve, ?_, by rwa [trace_outcome], s'.best.point, ?_, hagrees, hleast⟩
  · rw [outcome, status_commit, haccepts, if_pos rfl]
  · rw [outcome, point_commit]

/-- **Linear least squares is solved exactly.** The model of an affine function, whichever of its
variables are active, has a solution after an undamped solve from any start, provided that the
columns of the active variables are independent. It takes at most one update, and no point that
agrees with the start in the other variables has smaller residuals. -/
theorem FunctionModel.solve_affine {diffStep : Amount ℝ} (hstep : 0 < diffStep.toScalar)
    {w : Workers} {pattern : Option (Tensor Bool)}
    (hpattern : ∀ t ∈ pattern, ∀ kept ∈ t.entries, kept = true) {solution : Option (Tensor ℝ)}
    {made model : FunctionModel ℝ}
    (hmade : make m n (fun _ x ↦ .ok (Linear.affine A b x)) diffStep (.ok w) pattern solution
      = .ok made)
    (hmodel : model = made ∨ ∃ indices, made.setActive? indices = .ok (some model))
    (hactive : model.problem.active ≠ [])
    (hindependent : LinearIndepOn ℝ A.col {c | (c : ℕ) ∈ model.problem.active})
    {settings : Settings ℝ}
    (hinitial : ∃ damping, settings.initialDamping = some damping ∧ damping.toScalar = 0)
    {start : Option (Tensor ℝ)} {x : List ℝ} (hx : x.length = n)
    (hstart : (start.orElse fun _ ↦ model.initialGuess) = some (.ofList x)) :
    ∃ o model', model.solve settings start = some (o, model') ∧ o.status = .converged ∧
      o.trace.updates ≤ 1 ∧ ∃ x', o.point = some x' ∧ model'.solution = some (.ofList x') ∧
        model.problem.Agrees x x' ∧ ∀ z, model.problem.Agrees x z →
          Linear.rms (Linear.affine A b x') ≤ Linear.rms (Linear.affine A b z) := by
  have hp : model.problem.IsAffine A b := by
    have hp := isAffine_of_make hstep hpattern hmade
    rcases hmodel with rfl | ⟨indices, hset⟩
    · exact hp
    · exact isAffine_of_setActive? hp hset
  obtain ⟨o, hsolve, hstatus, hupdates, x', hpoint, hagrees, hleast⟩ :=
    hp.exists_solve hactive hindependent hinitial hx
  have hsolved : model.solve settings start = some (o, model.afterSolve o) := by
    rw [solve, hstart]
    exact congrArg (Option.map _) hsolve
  obtain ⟨x'', hpoint', hsolution⟩ := afterSolve_of_converged hsolved hstatus
  obtain rfl := Option.some.inj (hpoint.symm.trans hpoint')
  refine ⟨o, _, hsolved, hstatus, hupdates, x', hpoint, ?_, hagrees, fun z hz ↦ ?_⟩
  · rw [hsolution]
  · exact hleast z (hagrees.symm.trans hz)

/-- The heights of a line at `-1`, `0` and `1`: the variables are the height at zero and the slope.
-/
def lineMatrix : Matrix (Fin 3) (Fin 2) ℝ := !![1, -1; 1, 0; 1, 1]

/-- What is taken off the heights: three heights that are on no line. -/
def lineOffset : Fin 3 → ℝ := ![0, -1, 0]

/-- No damping, and one update at most. -/
noncomputable def lineSettings : Settings ℝ where
  limit := .atMost 1
  epsilon := 0
  initialDamping := some (.whole 0)
  eta := .scalar 10
  verbose := true

theorem linearIndependent_lineMatrix : LinearIndependent ℝ lineMatrix.col := by
  have hcol : lineMatrix.col = ![![1, 1, 1], ![-1, 0, 1]] := by
    ext c r
    fin_cases c <;> fin_cases r <;> rfl
  rw [hcol, LinearIndependent.pair_iff]
  intro s t h
  have hfirst : s * 1 + t * -1 = 0 := congrFun h 0
  have hsecond : s * 1 + t * 0 = 0 := congrFun h 1
  exact ⟨by linarith, by linarith⟩

/-- A line is fitted to three heights, and its slope is the first of the variables. -/
theorem FunctionModel.solve_affine_line : ∃ made model o model',
    make 3 2 (fun _ x ↦ .ok (Linear.affine lineMatrix lineOffset x)) (.scalar 1)
      (.ok { count := 1 }) none none = .ok made ∧
    made.setActive? [.int 1, .int 0] = .ok (some model) ∧
    model.solve lineSettings (some (.ofList [0, 0])) = some (o, model') ∧
    o.status = .converged ∧ o.trace.updates ≤ 1 ∧
    ∃ x', o.point = some x' ∧ ∀ z : List ℝ, z.length = 2 →
      Linear.rms (Linear.affine lineMatrix lineOffset x')
        ≤ Linear.rms (Linear.affine lineMatrix lineOffset z) := by
  obtain ⟨made, hmade⟩ : ∃ made, make 3 2 (fun _ x ↦ .ok (Linear.affine lineMatrix lineOffset x))
      (.scalar 1) (.ok { count := 1 }) none none = .ok made := ⟨_, rfl⟩
  obtain ⟨model, hset, hactive⟩ : ∃ model, made.setActive? [.int 1, .int 0] = .ok (some model) ∧
      model.problem.active = [1, 0] := by
    obtain rfl := Except.ok.inj hmade
    exact ⟨_, rfl, rfl⟩
  have hcolumns : {c : Fin 2 | (c : ℕ) ∈ model.problem.active} = Set.univ := by
    rw [hactive]
    ext c
    fin_cases c <;> simp
  have hstep : (0 : ℝ) < (Amount.scalar 1 : Amount ℝ).toScalar := zero_lt_one
  have hinitial : ∃ damping, lineSettings.initialDamping = some damping ∧ damping.toScalar = 0 :=
    ⟨.whole 0, rfl, by simp [Amount.toScalar]⟩
  obtain ⟨o, model', hsolve, hstatus, hupdates, x, hpoint, -, -, hleast⟩ :=
    solve_affine hstep (by simp) hmade (.inr ⟨_, hset⟩) (by simp [hactive])
      (hcolumns ▸ linearIndepOn_univ_iff.mpr linearIndependent_lineMatrix) hinitial
      (x := [0, 0]) rfl Option.orElse_some
  refine ⟨made, model, o, model', hmade, hset, hsolve, hstatus, hupdates, x, hpoint, ?_⟩
  intro z hz
  refine hleast z ⟨hz, fun c hc ↦ ?_⟩
  have hbeyond : 2 ≤ c := by
    rw [hactive] at hc
    simp at hc
    omega
  rw [List.getElem?_eq_none (hz.trans_le hbeyond), List.getElem?_eq_none hbeyond]

end DampedLeastSquares
