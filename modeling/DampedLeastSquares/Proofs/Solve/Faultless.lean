import DampedLeastSquares.Proofs.Jacobian.Sequential
import DampedLeastSquares.Proofs.Linear.Shapes
import DampedLeastSquares.Proofs.Solve.Inactive
import Mathlib.Data.List.Perm.Subperm

/-!
# Solves without faults

A step of the iteration can fail in five ways, and each is a matter of shapes or of reading a
setting as a scalar. A residual function that answers everywhere, and always with as many residuals
as the problem has conditions, leaves none of them: the Jacobian gets its columns, a step has an
entry for each active variable, and where it leads there are residuals again. What the numbers are
does not matter. They may be infinite or undefined; then the equations are ill-posed or a step is
rejected, and that is no fault.

So the solve of such a problem converges, or it finds the equations ill-posed.
-/

namespace DampedLeastSquares

variable {R : Type} [Scalar R]

/-! ## Jacobians that come out -/

namespace Jacobian

variable {P : Type} {f : Nat → P → Except Fault (List R)} {move : Int → Except Fault P}
  {baseline : Tensor R} {h : R}

theorem exists_runWorker {work : List Slice}
    (hwork : ∀ s ∈ work, ∀ calls, ∃ column,
      (differentiate f move baseline h calls s).outcome = .ok column)
    (calls : Nat) (matrix : List (List R)) :
    ∃ filled, (runWorker f move baseline h work calls matrix).outcome = .ok filled := by
  induction work generalizing calls matrix with
  | nil => exact ⟨matrix, rfl⟩
  | cons s work ih =>
    rw [List.forall_mem_cons] at hwork
    obtain ⟨column, hcolumn⟩ := hwork.1 calls
    rw [runWorker]
    simp only [hcolumn]
    exact ih hwork.2 _ _

theorem exists_runWorkers {works : List (List Slice)}
    (hworks : ∀ s ∈ works.flatten, ∀ calls, ∃ column,
      (differentiate f move baseline h calls s).outcome = .ok column)
    (calls : Nat) (matrix : List (List R)) :
    ∃ filled, (runWorkers f move baseline h works calls matrix).outcome = .ok filled := by
  induction works generalizing calls matrix with
  | nil => exact ⟨matrix, rfl⟩
  | cons work works ih =>
    rw [List.flatten_cons, List.forall_mem_append] at hworks
    obtain ⟨filled, hfilled⟩ := exists_runWorker hworks.1 calls matrix
    rw [runWorkers]
    simp only [hfilled]
    exact ih hworks.2 _ _

theorem exists_computeBy {active : List Int} {w : Workers} {pattern : Option (Tensor Bool)}
    {work : List Slice} (hwork : sliceList active pattern = .ok work)
    (hcolumns : ∀ s ∈ work, ∀ calls, ∃ column,
      (differentiate f move baseline h calls s).outcome = .ok column) (calls : Nat) :
    ∃ points j, computeBy move f calls baseline active h (.ok w) pattern = ⟨points, .ok j⟩ := by
  have hdealt := (numbered_of_sliceList hwork).perm_deal w.count_pos
  have hhands : ∀ s ∈ (deal w.count work).flatten, ∀ calls, ∃ column,
      (differentiate f move baseline h calls s).outcome = .ok column :=
    fun s hs ↦ hcolumns s (hdealt.mem_iff.mp hs)
  obtain ⟨filled, hfilled⟩ := exists_runWorkers hhands calls
    (List.replicate active.length (List.replicate baseline.size 0))
  simp only [computeBy, Except.bind, slices, hwork, Except.map, hfilled]
  exact ⟨_, _, rfl⟩

end Jacobian

/-! ## Problems that always answer -/

/-- A problem whose parts do what they should: there are residuals at every point of the right
length, as many as there are conditions. -/
structure Problem.IsFaultless (p : Problem R) : Prop where
  /-- There is a residual for each condition, whenever and wherever they are asked for. -/
  residual : ∀ calls x, (x.length : Int) = p.dimension →
    ∃ y, p.residual calls x = .ok y ∧ (y.length : Int) = p.conditions
  /-- The step of a difference quotient is a scalar. -/
  diffStep : ∃ h, p.diffStep.read = .ok h
  /-- There are workers. -/
  workers : ∃ w, p.workers = .ok w
  /-- A point of the right length can be committed. -/
  accepts : ∀ x, (x.length : Int) = p.dimension → p.accepts x = true

/-- Damping is a scalar from the first, and stays one. -/
structure Settings.IsPlain (settings : Settings R) : Prop where
  /-- The first damping is a scalar, if it is given. -/
  initialDamping : ∀ damping ∈ settings.initialDamping, ∃ a, damping = .scalar a
  /-- The factor is a scalar. -/
  eta : ∃ a, settings.eta = .scalar a

namespace Problem

variable {p : Problem R} {x y : List R}

omit [Scalar R] in
theorem lt_length_of_active (hx : (x.length : Int) = p.dimension) : ∀ i ∈ p.active, i < x.length :=
  fun i hi ↦ Int.ofNat_lt.mp (hx ▸ p.active_lt i hi)

omit [Scalar R] in
theorem pattern_shape_eq (hx : (x.length : Int) = p.dimension)
    (hy : (y.length : Int) = p.conditions) : ∀ t ∈ p.pattern, t.shape = [y.length, x.length] := by
  intro t ht
  have hshape := p.pattern_shape t ht
  rw [← hx, ← hy] at hshape
  exact List.map_injective_iff.mpr (fun _ _ ↦ Int.ofNat.inj) hshape

theorem IsFaultless.exists_jacobianFrom (hp : p.IsFaultless) (hx : (x.length : Int) = p.dimension)
    (hy : (y.length : Int) = p.conditions) (calls : Nat) :
    ∃ points j, p.jacobianFrom calls x (.ofList y) = ⟨points, .ok j⟩ := by
  obtain ⟨h, hread⟩ := hp.diffStep
  obtain ⟨w, hw⟩ := hp.workers
  have hposition : ∀ var ∈ p.active.map Int.ofNat, ∃ i, position? var x.length = some i ∧
      moveEntry x var (.ok h) = .ok (x.modify i (· + h)) := by
    intro var hvar
    obtain ⟨i, hi, rfl⟩ := List.mem_map.mp hvar
    have hlt := position?_natCast (lt_length_of_active hx i hi)
    exact ⟨i, hlt, by rw [moveEntry, Int.ofNat_eq_natCast, hlt]; rfl⟩
  obtain ⟨work, hwork⟩ :
      ∃ work, Jacobian.sliceList (p.active.map Int.ofNat) p.pattern = .ok work := by
    refine Jacobian.exists_sliceList fun t ht var hvar ↦ ?_
    obtain ⟨i, hi, -⟩ := hposition var hvar
    obtain ⟨mask, hmask, -⟩ := Tensor.exists_column (pattern_shape_eq hx hy t ht) hi
    exact ⟨mask, hmask⟩
  rw [jacobianFrom, jacobianBy, Tensor.size_ofList, if_pos hy, hw]
  refine Jacobian.exists_computeBy hwork (fun s hs calls ↦ ?_) calls
  obtain ⟨hvar, hmasked⟩ := Jacobian.getElem?_of_mem_sliceList hwork hs
  obtain ⟨i, hi, hmoved⟩ := hposition s.var (List.mem_of_getElem? hvar)
  obtain ⟨z, hz, hlength⟩ := hp.residual calls (x.modify i (· + h)) (by rwa [List.length_modify])
  obtain ⟨column, hcolumn, -⟩ := Jacobian.exists_quotient hmasked hi (pattern_shape_eq hx hy)
    (Int.ofNat.inj (hy.trans hlength.symm)) p.diffStep.toScalar
  exact ⟨column, by simp only [Jacobian.differentiate, hread, hmoved, hz, Except.bind, hcolumn]⟩

/-! ## Steps that lead somewhere -/

theorem exists_addUpdate_eq_ok {update : List R} {active : List Nat} {i : Nat}
    (hactive : ∀ var ∈ active, var < x.length) (hlength : i + active.length ≤ update.length) :
    ∃ z, addUpdate moveEntry update active i x = .ok z := by
  induction active generalizing i x with
  | nil => exact ⟨x, rfl⟩
  | cons var rest ih =>
    rw [List.forall_mem_cons] at hactive
    rw [List.length_cons] at hlength
    have hi : i < update.length := by omega
    have hmoved : moveEntry x var (updateEntry update i)
        = .ok (x.modify var (· + update[i])) := by
      rw [moveEntry, position?_natCast hactive.1, updateEntry, List.getElem?_eq_getElem hi]
      rfl
    rw [addUpdate, hmoved]
    exact ih (fun var' hvar' ↦ by rw [List.length_modify]; exact hactive.2 var' hvar') (by omega)

theorem exists_applyUpdate (hx : (x.length : Int) = p.dimension) {step : List R}
    (hstep : step.length = p.active.length) : ∃ z, p.applyUpdate x step = .ok z := by
  have hactive := lt_length_of_active hx
  have hle : p.active.length ≤ x.length := by
    have hsub : p.active ⊆ List.range x.length := fun i hi ↦ List.mem_range.mpr (hactive i hi)
    simpa using (p.active_nodup.subperm hsub).length_le
  rw [applyUpdate, if_pos (hstep.trans_le hle)]
  exact exists_addUpdate_eq_ok hactive (by rw [hstep, Nat.zero_add])

end Problem

/-! ## Runs -/

/-- What is next can be done: the damping is a scalar, and every step that solves the equations has
an entry for each active variable. -/
inductive Phase.IsSound (p : Problem R) : Phase R → Prop
  /-- A Jacobian is needed. -/
  | linearise {damping} (h : ∀ d ∈ damping, ∃ a, d = .scalar a) : IsSound p (.linearise damping)
  /-- A step is tried. -/
  | attempt {equations a tried} (h : ∀ damping step, equations.step? damping = some step →
      step.length = p.active.length) : IsSound p (.attempt equations (.scalar a) tried)

theorem Phase.IsSound.exists_scalar {p : Problem R} {damping : Option (Amount R)}
    (h : (Phase.linearise damping).IsSound p) (first : R) :
    ∃ a, damping.getD (.scalar first) = .scalar a := by
  cases h with
  | linearise h =>
    cases damping with
    | none => exact ⟨first, rfl⟩
    | some d => exact h d rfl

/-- The invariant: the best point and its residuals have the right lengths, and what is next can be
done. -/
structure State.IsSound (p : Problem R) (s : State R) : Prop where
  /-- The best point has a coordinate for each variable. -/
  point : (s.best.point.length : Int) = p.dimension
  /-- There is a residual for each condition. -/
  residuals : (s.best.residuals.length : Int) = p.conditions
  /-- What is next can be done. -/
  phase : s.phase.IsSound p

/-- What a step has led to is sound, and it is no failure. -/
def Progress.IsSound (p : Problem R) : Progress R → Prop
  | .running s => s.IsSound p
  | .ended e s => (s.best.point.length : Int) = p.dimension ∧ ∀ fault, e ≠ .failed fault

/-- With scalars a decision is always made, and the next damping is a scalar again. -/
theorem exists_decideTrial (e a : R) (equations : NormalEquations R) (reduction : R) :
    ∃ d b, decideTrial (.scalar e) equations (.scalar a) reduction = .ok d ∧
      d.dampingAfter = .scalar b := by
  rw [decideTrial]
  by_cases hpos : 0 < reduction
  · rw [if_pos hpos, Amount.div_scalar]
    exact ⟨_, a / e, rfl, rfl⟩
  · rw [if_neg hpos, Amount.mul_scalar]
    obtain ⟨stalled, hstalled⟩ : ∃ stalled, equations.overflows (.scalar (a * e)) = .ok stalled :=
      ⟨_, rfl⟩
    refine ⟨⟨.scalar a, false, stalled, if stalled then .scalar a else .scalar (a * e)⟩,
      if stalled then a else a * e, ?_, ?_⟩
    · simp only [bind, Except.bind, hstalled, pure, Except.pure]
    · cases stalled <;> rfl

namespace State

variable {p : Problem R} {settings : Settings R} {s : State R}

theorem IsSound.not_failure (hp : p.IsFaultless) (hsettings : settings.IsPlain) (h : s.IsSound p)
    {fault : Fault} {more : List (Interaction R)} : ¬s.Failure p settings fault more := by
  intro hfailure
  have hphase := h.phase
  cases hfailure with
  | jacobian _ hcalled =>
    obtain ⟨_, _, hok⟩ := hp.exists_jacobianFrom h.point h.residuals (callCount s.interactions)
    exact nomatch (Called.mk.inj (hok.symm.trans hcalled)).2
  | damping hattempt hread =>
    rw [hattempt] at hphase
    cases hphase with
    | attempt => exact nomatch hread
  | update hpoised hmoved =>
    obtain ⟨hattempt, -, a, -, hstep⟩ := hpoised
    rw [hattempt] at hphase
    cases hphase with
    | attempt hlength =>
      obtain ⟨z, hz⟩ := Problem.exists_applyUpdate h.point (hlength _ _ hstep)
      exact nomatch hz.symm.trans hmoved
  | residual _ hmoved hevaluated =>
    have hlength := (Problem.sameOff_of_applyUpdate hmoved).1
    obtain ⟨y, hy, -⟩ := hp.residual (callCount s.interactions) _ (hlength ▸ h.point)
    exact nomatch hy.symm.trans hevaluated
  | decision htrial hdecided =>
    obtain ⟨e, he⟩ := hsettings.eta
    rw [htrial.phase] at hphase
    cases hphase with
    | attempt =>
      obtain ⟨d, b, hd, -⟩ := exists_decideTrial e _ _ _
      rw [he] at hdecided
      exact nomatch hd.symm.trans hdecided

theorem IsSound.reached (hp : p.IsFaultless) (h : s.IsSound p) {equations : NormalEquations R}
    {damping : Amount R} {tried : Nat} {step : List R} {reached : Visited R}
    (htrial : s.Tried p equations damping tried step reached) :
    (reached.point.length : Int) = p.dimension ∧
      (reached.residuals.length : Int) = p.conditions := by
  have hlength := (Problem.sameOff_of_applyUpdate htrial.moved).1
  have hpoint : (reached.point.length : Int) = p.dimension := hlength ▸ h.point
  obtain ⟨y, hy, hylength⟩ := hp.residual (callCount s.interactions) _ hpoint
  rw [htrial.evaluated] at hy
  obtain rfl := Except.ok.inj hy
  exact ⟨hpoint, hylength⟩

/-- Whatever is decided on a step with a scalar as the next damping, the state is sound again. -/
theorem IsSound.after (h : s.IsSound p) {equations : NormalEquations R} {d : Decision R}
    {tried : Nat} {step : List R} {reached : Visited R}
    (hpoint : (reached.point.length : Int) = p.dimension)
    (hresiduals : (reached.residuals.length : Int) = p.conditions)
    (hlength : ∀ damping step, equations.step? damping = some step →
      step.length = p.active.length) {a : R} (ha : d.dampingAfter = .scalar a) :
    (s.after settings equations d tried step reached).IsSound p := by
  cases haccepted : d.accepted with
  | true =>
    refine ⟨?_, ?_, ?_⟩
    · rwa [best_after_of_accepted haccepted]
    · rwa [best_after_of_accepted haccepted]
    · rw [phase_after_of_accepted haccepted]
      exact .linearise fun damping hdamping ↦ ⟨a, by rw [← Option.some.inj hdamping, ha]⟩
  | false =>
    refine ⟨?_, ?_, ?_⟩
    · rw [best_after_of_rejected haccepted]
      exact h.point
    · rw [best_after_of_rejected haccepted]
      exact h.residuals
    · rw [phase_after_of_rejected haccepted, ha]
      exact .attempt hlength

/-- **A step is sound, and it is no failure.** -/
theorem IsSound.step (hp : p.IsFaultless) (hsettings : settings.IsPlain) (h : s.IsSound p) :
    (s.step p settings).IsSound p := by
  have hmove := move_step p settings s
  generalize s.step p settings = a at hmove ⊢
  cases hmove with
  | failed hfailure => exact absurd hfailure (h.not_failure hp hsettings)
  | stuck =>
    refine ⟨h.point, ?_⟩
    rintro fault ⟨⟩
  | @linearised damping jacobian _ hlinearise hcalled =>
    have hphase := h.phase
    rw [hlinearise] at hphase
    obtain ⟨a, ha⟩ := hphase.exists_scalar
      (jacobian.normalEquations s.best.residuals).initialDamping
    refine ⟨h.point, h.residuals, ?_⟩
    dsimp only
    rw [ha]
    exact .attempt fun _ _ hstep ↦
      (Jacobian.length_of_step? hstep).trans (Problem.length_jacobianFrom hcalled).2
  | @tried equations _ tried step reached d htrial hdecided =>
    have hreached := h.reached hp htrial
    have hphase := h.phase
    rw [htrial.phase] at hphase
    cases hphase with
    | @attempt _ a _ hlength =>
      obtain ⟨e, he⟩ := hsettings.eta
      obtain ⟨d', b, hd', hb⟩ := exists_decideTrial e a equations
        (s.best.error - reached.error)
      rw [he, hd'] at hdecided
      obtain rfl := Except.ok.inj hdecided
      -- Whether or not the trial is final, the state is the same.
      have hnext : (s.after settings equations d' tried step reached).IsSound p :=
        h.after hreached.1 hreached.2 hlength hb
      rw [conclude]
      split
      · refine ⟨hnext.point, ?_⟩
        rintro fault ⟨⟩
      · exact ⟨hnext.point, hnext.residuals, hnext.phase⟩

theorem isSound_begin (hsettings : settings.IsPlain) {start residuals : List R}
    (hstart : (start.length : Int) = p.dimension)
    (hresiduals : (residuals.length : Int) = p.conditions) :
    (State.begin settings (.ofResiduals start residuals)).IsSound p := by
  have hphase : (Phase.linearise settings.initialDamping).IsSound p :=
    .linearise hsettings.initialDamping
  obtain ⟨shown, hshown⟩ : ∃ shown, settings.initialDamping.mapM Amount.read = .ok shown := by
    cases hdamping : settings.initialDamping with
    | none => exact ⟨none, rfl⟩
    | some damping =>
      obtain ⟨a, rfl⟩ := hsettings.initialDamping damping hdamping
      exact ⟨some a, rfl⟩
  rw [State.begin]
  split
  · simp only [hshown]
    exact ⟨hstart, hresiduals, hphase⟩
  · exact ⟨hstart, hresiduals, hphase⟩

end State

/-- **A solve of a problem that always answers converges or finds the equations ill-posed.** -/
theorem Problem.IsFaultless.status_of_solve {p : Problem R} {settings : Settings R}
    (hp : p.IsFaultless) (hsettings : settings.IsPlain) {start : List R}
    (hstart : (start.length : Int) = p.dimension) {o : Outcome R}
    (h : p.solve settings (some start) = some o) :
    o.status = .converged ∨ o.status = .illPosed := by
  cases solved_of_solve h with
  | nothingActive => exact Or.inl (by rw [status_commit, if_pos (hp.accepts _ hstart)])
  | unevaluated _ hevaluated =>
    obtain ⟨y, hy, -⟩ := hp.residual 0 start hstart
    exact nomatch hy.symm.trans hevaluated
  | @iterated _ e s _ hends =>
    obtain ⟨residuals, hevaluated, hfinish⟩ := hends
    obtain ⟨y, hy, hylength⟩ := hp.residual 0 start hstart
    obtain rfl := Except.ok.inj (hy.symm.trans hevaluated)
    obtain ⟨hpoint, hfault⟩ : (Progress.ended e s).IsSound p :=
      Progress.good_of_finish (Progress.IsSound p)
        (fun _ hs ↦ State.IsSound.step hp hsettings hs)
        (State.isSound_begin hsettings hstart hylength) hfinish
    cases e with
    | finished => exact Or.inl (by rw [outcome, status_commit, if_pos (hp.accepts _ hpoint)])
    | illPosed => exact Or.inr rfl
    | failed fault => exact absurd rfl (hfault fault)

end DampedLeastSquares
