import DampedLeastSquares.Proofs.Problem.Affine
import DampedLeastSquares.Proofs.Solve.IllPosed
import DampedLeastSquares.Proofs.Solve.WorkerCount

/-!
# The variables in another order

The columns of a Jacobian, the rows and columns of the equations, and the entries of a step all
stand in the order in which the active variables are listed. In another order the numbers are the
same, each with its variable, because none of them was ever made from the number of a column. Here
this is shown of each of them in turn: a column is a function of its variable, the equations are
made from the columns, the step is the only solution of the equations, and moving a point takes each
entry to the variable it belongs to.

The last two need exact arithmetic. A sum in another order rounds differently, and elimination in
another order divides by other numbers.
-/

namespace DampedLeastSquares

/-! ## Columns -/

section

variable {P R : Type}

/-- What came of computing the same Jacobian for two lists of variables: each variable has one
column, in whichever list, and the calls were the same in another order; or both have failed. -/
inductive Called.Relisted (active active' : List Nat) :
    Called P (Jacobian R) → Called P (Jacobian R) → Prop
  /-- Each variable has its column. -/
  | ok {conditions points points'} (column : Nat → List R) (perm : List.Perm points points') :
      Called.Relisted active active' ⟨points, .ok ⟨conditions, active.map column⟩⟩
        ⟨points', .ok ⟨conditions, active'.map column⟩⟩
  /-- Both have a fault. -/
  | error {fault fault' points points'} :
      Called.Relisted active active' ⟨points, .error fault⟩ ⟨points', .error fault'⟩

variable [Scalar R]

namespace Jacobian

/-- The work on the column of a variable, wherever the column stands. -/
def sliceOf (pattern : Option (Tensor Bool)) (var : Int) : Slice :=
  ⟨0, var, pattern.bind fun p ↦ (p.column var).toOption⟩

variable {f : Nat → P → Except Fault (List R)} {move : Int → Except Fault P} {baseline : Tensor R}
  {h : R} {pattern : Option (Tensor Bool)} {active active' : List Int} {work works : List Slice}

theorem differentiate_sliceOf {s : Slice} (hs : s.Masked pattern) :
    differentiate f move baseline h 0 (sliceOf pattern s.var)
      = differentiate f move baseline h 0 s := by
  obtain ⟨column, var, mask⟩ := s
  cases pattern with
  | none =>
    obtain rfl : mask = none := hs
    rfl
  | some p =>
    obtain ⟨kept, hkept, hmask⟩ := hs
    obtain rfl : mask = some kept := hmask
    simp only [sliceOf, Option.bind_some, hkept]
    rfl

/-- The column of a variable, if it can be computed. -/
def columnOf (f : Nat → P → Except Fault (List R)) (move : Int → Except Fault P)
    (baseline : Tensor R) (h : R) (pattern : Option (Tensor Bool)) (var : Int) : List R :=
  (differentiate f move baseline h 0 (sliceOf pattern var)).outcome.toOption.getD []

/-- The column of a variable can be computed. -/
def Computable (f : Nat → P → Except Fault (List R)) (move : Int → Except Fault P)
    (baseline : Tensor R) (h : R) (pattern : Option (Tensor Bool)) (var : Int) : Prop :=
  ∃ column, (differentiate f move baseline h 0 (sliceOf pattern var)).outcome = .ok column

theorem firstFault_eq_none_iff_computable (hwork : sliceList active pattern = .ok work)
    (hperm : works.Perm work) : firstFault f move baseline h works = none ↔
      ∀ var ∈ active, Computable f move baseline h pattern var := by
  rw [firstFault_eq_none_iff]
  constructor
  · intro hall var hvar
    obtain ⟨i, hi⟩ := List.mem_iff_getElem?.mp hvar
    obtain ⟨s, hs, -, rfl, hmasked⟩ := exists_slice hwork hi
    rw [Computable, differentiate_sliceOf hmasked]
    exact hall s (hperm.mem_iff.mpr (List.mem_of_getElem? hs))
  · intro hall s hs
    obtain ⟨hvar, hmasked⟩ := getElem?_of_mem_sliceList hwork (hperm.mem_iff.mp hs)
    rw [← differentiate_sliceOf hmasked]
    exact hall s.var (List.mem_of_getElem? hvar)

theorem fill_eq_map_columnOf (hwork : sliceList active pattern = .ok work)
    (hperm : works.Perm work) (hall : ∀ var ∈ active, Computable f move baseline h pattern var)
    (blank : List R) :
    fill f move baseline h (List.replicate active.length blank) works
      = active.map (columnOf f move baseline h pattern) := by
  have hnodup : (works.map Slice.column).Nodup := by
    rw [(hperm.map _).nodup_iff, List.Nodup, List.pairwise_map]
    exact (numbered_of_sliceList hwork).pairwise.imp Nat.ne_of_lt
  refine List.ext_getElem? fun i ↦ ?_
  rw [List.getElem?_map]
  cases hi : active[i]? with
  | none =>
    rw [List.getElem?_eq_none_iff] at hi
    rw [List.getElem?_eq_none (by rwa [length_fill, List.length_replicate]), Option.map_none]
  | some var =>
    obtain ⟨s, hs, rfl, rfl, hmasked⟩ := exists_slice hwork hi
    obtain ⟨column, hcolumn⟩ := hall s.var (List.mem_of_getElem? hi)
    rw [Option.map_some, columnOf, hcolumn]
    rw [differentiate_sliceOf hmasked] at hcolumn
    refine getElem?_fill hnodup (hperm.mem_iff.mpr (List.mem_of_getElem? hs)) hcolumn ?_
    rw [List.length_replicate]
    exact (List.getElem?_eq_some_iff.mp hi).1

theorem perm_pointsOf_flatMap (hwork : sliceList active pattern = .ok work)
    (hperm : works.Perm work) : (pointsOf f move baseline h works).Perm (active.flatMap fun var ↦
      (differentiate f move baseline h 0 (sliceOf pattern var)).points) := by
  have hpoints : pointsOf f move baseline h work = active.flatMap fun var ↦
      (differentiate f move baseline h 0 (sliceOf pattern var)).points := by
    rw [← map_var_sliceList hwork, List.flatMap_map, pointsOf]
    refine List.flatMap_congr fun s hs ↦ ?_
    rw [differentiate_sliceOf (getElem?_of_mem_sliceList hwork hs).2]
  rw [← hpoints]
  exact hperm.flatMap_right _

theorem computeBy_eq_map_columnOf (hf : ∀ n x, f n x = f 0 x)
    (hwork : sliceList active pattern = .ok work) (w : Workers) (calls : Nat) :
    ((∀ var ∈ active, Computable f move baseline h pattern var) →
      ∃ points, computeBy move f calls baseline active h (.ok w) pattern
        = ⟨points, .ok ⟨baseline.size, active.map (columnOf f move baseline h pattern)⟩⟩ ∧
      points.Perm (active.flatMap fun var ↦
        (differentiate f move baseline h 0 (sliceOf pattern var)).points)) ∧
    ((¬∀ var ∈ active, Computable f move baseline h pattern var) →
      ∃ points fault, computeBy move f calls baseline active h (.ok w) pattern
        = ⟨points, .error fault⟩) := by
  have hdealt := (numbered_of_sliceList hwork).perm_deal w.count_pos
  have hnone : firstFault f move baseline h (deal w.count work).flatten = none ↔
      ∀ var ∈ active, Computable f move baseline h pattern var :=
    firstFault_eq_none_iff_computable hwork hdealt
  have hran : Ran f move baseline h (deal w.count work).flatten
      (List.replicate active.length (List.replicate baseline.size 0)) _ :=
    (ranInOrder_runWorkers hf (deal w.count work) calls _).ran
  simp only [computeBy, Except.bind, slices, hwork, Except.map]
  constructor
  · intro hall
    obtain ⟨log, hlog, houtcome, hpoints⟩ := hran.filled (hnone.mpr hall)
    have hlog' := hlog.trans hdealt
    rw [houtcome, hpoints, fill_eq_map_columnOf hwork hlog' hall]
    exact ⟨_, rfl, perm_pointsOf_flatMap hwork hlog'⟩
  · intro hnot
    obtain ⟨fault, hfault⟩ := Option.ne_none_iff_exists'.mp (mt hnone.mp hnot)
    rw [hran.fault fault hfault]
    exact ⟨_, fault, rfl⟩

theorem exists_move_of_computeBy (hf : ∀ n x, f n x = f 0 x) {calls : Nat}
    {workers : Except Fault Workers} {points : List P} {j : Jacobian R}
    (hcalled : computeBy move f calls baseline active h workers pattern = ⟨points, .ok j⟩) :
    ∀ var ∈ active, ∃ point, move var = .ok point := by
  have hall : ∀ var ∈ active, Computable f move baseline h pattern var := by
    by_contra hnot
    cases workers with
    | error fault => cases (Called.mk.inj hcalled).2
    | ok w =>
      cases hwork : sliceList active pattern with
      | error fault =>
        simp only [computeBy, Except.bind, slices, hwork, Except.map] at hcalled
        cases (Called.mk.inj hcalled).2
      | ok work =>
        obtain ⟨-, herror⟩ := computeBy_eq_map_columnOf hf hwork w calls
        obtain ⟨points', fault, hcalled'⟩ := herror hnot
        cases (Called.mk.inj (hcalled.symm.trans hcalled')).2
  intro var hvar
  obtain ⟨column, hcolumn⟩ := hall var hvar
  cases hmove : move var with
  | ok point => exact ⟨point, rfl⟩
  | error fault =>
    rw [differentiate, sliceOf, hmove] at hcolumn
    cases hcolumn

theorem exists_sliceList_of_perm (hperm : active'.Perm active)
    (hwork : sliceList active pattern = .ok work) :
    ∃ work', sliceList active' pattern = .ok work' := by
  refine exists_sliceList fun p hp var hvar ↦ ?_
  obtain ⟨i, hi⟩ := List.mem_iff_getElem?.mp (hperm.mem_iff.mp hvar)
  obtain ⟨s, -, -, rfl, hmasked⟩ := exists_slice hwork hi
  obtain rfl : pattern = some p := hp
  obtain ⟨mask, hmask, -⟩ := hmasked
  exact ⟨mask, hmask⟩

/-- **A column is a function of its variable.** -/
theorem computeBy_relisted (hf : ∀ n x, f n x = f 0 x) {active active' : List Nat}
    (hperm : active'.Perm active) (calls calls' : Nat) (workers : Except Fault Workers) :
    (computeBy move f calls baseline (active.map Int.ofNat) h workers pattern).Relisted active
      active' (computeBy move f calls' baseline (active'.map Int.ofNat) h workers pattern) := by
  have hperm' : (active'.map Int.ofNat).Perm (active.map Int.ofNat) := hperm.map _
  cases workers with
  | error fault => exact .error
  | ok w =>
    cases hwork : sliceList (active.map Int.ofNat) pattern with
    | error fault =>
      cases hwork' : sliceList (active'.map Int.ofNat) pattern with
      | error fault' =>
        simp only [computeBy, Except.bind, slices, hwork, hwork', Except.map]
        exact .error
      | ok work' =>
        obtain ⟨work, hok⟩ := exists_sliceList_of_perm hperm'.symm hwork'
        cases hwork.symm.trans hok
    | ok work =>
      obtain ⟨work', hwork'⟩ := exists_sliceList_of_perm hperm' hwork
      obtain ⟨hok, herror⟩ := computeBy_eq_map_columnOf hf hwork w calls
      obtain ⟨hok', herror'⟩ := computeBy_eq_map_columnOf hf hwork' w calls'
      by_cases hall : ∀ var ∈ active.map Int.ofNat, Computable f move baseline h pattern var
      · obtain ⟨points, hcalled, hpoints⟩ := hok hall
        obtain ⟨points', hcalled', hpoints'⟩ := hok' fun var hvar ↦
          hall var (hperm'.mem_iff.mp hvar)
        rw [hcalled, hcalled', List.map_map, List.map_map]
        exact .ok _ (hpoints.trans ((hperm'.symm.flatMap_right _).trans hpoints'.symm))
      · obtain ⟨points, fault, hcalled⟩ := herror hall
        obtain ⟨points', fault', hcalled'⟩ := herror' fun hall' ↦
          hall fun var hvar ↦ hall' var (hperm'.mem_iff.mpr hvar)
        rw [hcalled, hcalled']
        exact .error

end Jacobian

namespace Problem

/-- The problem with the same active variables in another order. -/
def relist (p : Problem R) {active : List Nat} (hperm : active.Perm p.active) : Problem R :=
  { p with
    active
    active_nodup := hperm.nodup_iff.mpr p.active_nodup
    active_lt := fun i hi ↦ p.active_lt i (hperm.mem_iff.mp hi) }

omit [Scalar R] in
/-- Who restricts the variables to the same ones in another order gets the same problem with the
variables in that order. -/
theorem exists_relist_of_setActive? {q p : Problem R} {indices indices' : List Number}
    (hindices : indices'.Perm indices) (h : q.setActive? indices = .ok (some p)) :
    ∃ (active : List Nat) (hperm : active.Perm p.active),
      q.setActive? indices' = .ok (some (p.relist hperm)) := by
  rw [setActive?] at h ⊢
  cases hread : indices.mapM Number.truncate with
  | error fault =>
    rw [hread] at h
    cases h
  | ok read =>
    obtain ⟨read', hforall, hperm⟩ :=
      List.perm_comp_forall₂ hindices (Jacobian.mapM_eq_ok_iff.mp hread)
    have hread' : indices'.mapM Number.truncate = .ok read' := Jacobian.mapM_eq_ok_iff.mpr hforall
    simp only [hread, hread', bind, Except.bind, pure, Except.pure] at h ⊢
    split at h
    next hnodup =>
      split at h
      next hrange =>
        obtain rfl := Option.some.inj (Except.ok.inj h)
        refine ⟨read'.map Int.toNat, hperm.map _, ?_⟩
        rw [dif_pos (hperm.nodup_iff.mpr hnodup),
          dif_pos fun i hi ↦ hrange i (hperm.mem_iff.mp hi)]
        rfl
      · cases h
    · cases h

variable {p : Problem R} {active : List Nat} (hperm : active.Perm p.active)

/-- **Jacobians of a pure function for two orders of the variables have the same columns.** -/
theorem jacobianBy_relisted {move : Int → Except Fault P} {f : Nat → P → Except Fault (List R)}
    (hf : ∀ n x, f n x = f 0 x) (calls calls' : Nat) (baseline : Tensor R) :
    (p.jacobianBy move f calls baseline).Relisted p.active active
      ((p.relist hperm).jacobianBy move f calls' baseline) := by
  change Called.Relisted _ _ _ (if (baseline.size : Int) = p.conditions then _ else _)
  rw [jacobianBy]
  split
  · exact Jacobian.computeBy_relisted hf hperm calls calls' p.workers
  · exact .error

theorem jacobianAt_relisted {move : Int → Except Fault P} {f : Nat → P → Except Fault (List R)}
    (hf : ∀ n x, f n x = f 0 x) (x : P) :
    (p.jacobianAt move f x).Relisted p.active active ((p.relist hperm).jacobianAt move f x) := by
  rw [jacobianAt, jacobianAt]
  cases f 0 x with
  | error fault => exact .error
  | ok baseline =>
    have hrelisted := @jacobianBy_relisted P R _ p active hperm move f hf 1 1
      (Tensor.ofList baseline)
    dsimp only
    generalize p.jacobianBy move f 1 _ = called at hrelisted ⊢
    generalize (p.relist hperm).jacobianBy move f 1 _ = called' at hrelisted ⊢
    cases hrelisted with
    | ok column hpoints => exact .ok column (hpoints.cons x)
    | error => exact .error

theorem jacobianFrom_relisted (hp : p.IsPure) (calls calls' : Nat) (x : List R)
    (baseline : Tensor R) :
    (p.jacobianFrom calls x baseline).Relisted p.active active
      ((p.relist hperm).jacobianFrom calls' x baseline) :=
  jacobianBy_relisted hperm hp calls calls' baseline

omit [Scalar R] in
theorem reportJacobian_relist (conditions : Nat) (column : Nat → List R) :
    (p.relist hperm).reportJacobian ⟨conditions, active.map column⟩
      = p.reportJacobian ⟨conditions, p.active.map column⟩ := by
  simp only [reportJacobian, List.length_map, hperm.length_eq, relist]

theorem IsPure.lt_length_of_jacobianFrom (hp : p.IsPure) {calls : Nat} {x : List R}
    {baseline : Tensor R} {points : List (List R)} {j : Jacobian R}
    (hcalled : p.jacobianFrom calls x baseline = ⟨points, .ok j⟩) :
    ∀ var ∈ p.active, var < x.length := by
  intro var hvar
  rw [Problem.jacobianFrom, jacobianBy] at hcalled
  split at hcalled
  · obtain ⟨point, hmove⟩ :=
      Jacobian.exists_move_of_computeBy hp hcalled _ (List.mem_map_of_mem hvar)
    by_contra houtside
    have hnone : position? (Int.ofNat var) x.length = none := by
      rw [position?, Int.ofNat_eq_natCast, if_neg (by omega), if_neg (by omega)]
    rw [moveEntry, hnone] at hmove
    cases hmove
  · cases (Called.mk.inj hcalled).2

end Problem

end

/-! ## Equations -/

namespace Linear

variable {active active' : List Nat}

theorem exists_map_eq (hnodup : active.Nodup) {xs : List ℝ} (hlength : xs.length = active.length) :
    ∃ d : Nat → ℝ, xs = active.map d := by
  refine ⟨fun var ↦ xs.getD (active.idxOf var) 0, List.ext_getElem ?_ fun i hi hi' ↦ ?_⟩
  · rw [hlength, List.length_map]
  · have hi' : i < active.length := by rwa [List.length_map] at hi'
    rw [List.getElem_map, hnodup.idxOf_getElem i hi', List.getD_eq_getElem _ 0 hi]

theorem dot_map_map (active : List Nat) (u v : Nat → ℝ) :
    dot (active.map u) (active.map v) = (active.map fun i ↦ u i * v i).sum := by
  rw [dot_eq, List.zipWith_map, List.zipWith_self]

/-- The equations of some variables: `N u v` is the coefficient of `v` in the equation of `u`. -/
def equationsFor (active : List Nat) (N : Nat → Nat → ℝ) (b : Nat → ℝ) : List (Equation ℝ) :=
  active.map fun u ↦ ⟨active.map (N u), b u⟩

variable {N : Nat → Nat → ℝ} {b : Nat → ℝ}

theorem isSquare_equationsFor (active : List Nat) (N : Nat → Nat → ℝ) (b : Nat → ℝ) :
    IsSquare active.length (equationsFor active N b) where
  length_eq := List.length_map ..
  length_coefficients e he := by
    obtain ⟨u, -, rfl⟩ := List.mem_map.mp he
    exact List.length_map ..

theorem dot_equationsFor_of_perm (hperm : active'.Perm active) (u d : Nat → ℝ) :
    dot (active'.map u) (active'.map d) = dot (active.map u) (active.map d) := by
  rw [dot_map_map, dot_map_map]
  exact (hperm.map _).sum_eq

theorem forall_mem_equationsFor {holds : Equation ℝ → Prop} :
    (∀ e ∈ equationsFor active N b, holds e) ↔ ∀ u ∈ active, holds ⟨active.map (N u), b u⟩ :=
  List.forall_mem_map

theorem Nonsingular.of_perm (hperm : active'.Perm active) (hnodup : active.Nodup)
    (h : Nonsingular active.length (equationsFor active N b)) :
    Nonsingular active'.length (equationsFor active' N b) := by
  intro zs hlength hzero
  obtain ⟨d, rfl⟩ := exists_map_eq (hperm.nodup_iff.mpr hnodup) hlength
  have hall : ∀ a ∈ active.map d, a = 0 := by
    refine h _ (List.length_map ..) (forall_mem_equationsFor.mpr fun u hu ↦ ?_)
    rw [← dot_equationsFor_of_perm hperm]
    exact forall_mem_equationsFor.mp hzero u (hperm.mem_iff.mpr hu)
  intro a ha
  exact hall a ((hperm.map d).mem_iff.mp ha)

theorem zipWith_equationsFor (active : List Nat) (N : Nat → Nat → ℝ) (b : Nat → ℝ) :
    List.zipWith Equation.mk (active.map fun u ↦ active.map (N u)) (active.map b)
      = equationsFor active N b := by
  rw [List.zipWith_map, List.zipWith_self]
  rfl

/-- **The order of the variables has no bearing on the solution.** -/
theorem IsSolver.of_perm {solve : List (List ℝ) → List ℝ → Option (List ℝ)} (h : IsSolver solve)
    (hperm : active'.Perm active) (hnodup : active.Nodup) (N : Nat → Nat → ℝ) (b : Nat → ℝ) :
    (solve (active.map fun u ↦ active.map (N u)) (active.map b) = none →
      solve (active'.map fun u ↦ active'.map (N u)) (active'.map b) = none) ∧
    ∀ xs, solve (active.map fun u ↦ active.map (N u)) (active.map b) = some xs →
      ∃ d, xs = active.map d ∧
        solve (active'.map fun u ↦ active'.map (N u)) (active'.map b) = some (active'.map d) := by
  have hsquare : ∀ l : List Nat, IsSquare (l.map b).length
      (List.zipWith Equation.mk (l.map fun u ↦ l.map (N u)) (l.map b)) := by
    intro l
    rw [zipWith_equationsFor, List.length_map]
    exact isSquare_equationsFor l N b
  have hnodup' : active'.Nodup := hperm.nodup_iff.mpr hnodup
  constructor
  · rw [h.eq_none_iff (hsquare active), h.eq_none_iff (hsquare active'), zipWith_equationsFor,
      zipWith_equationsFor, List.length_map, List.length_map]
    exact mt (Nonsingular.of_perm hperm.symm hnodup')
  · intro xs hxs
    have hnonsingular := h.nonsingular (hsquare active) hxs
    obtain ⟨hlength, hsolves⟩ := h.solves (hsquare active) hxs
    rw [zipWith_equationsFor, List.length_map] at hnonsingular
    rw [zipWith_equationsFor] at hsolves
    rw [List.length_map] at hlength
    obtain ⟨d, rfl⟩ := exists_map_eq hnodup hlength
    refine ⟨d, rfl, ?_⟩
    cases hxs' : solve (active'.map fun u ↦ active'.map (N u)) (active'.map b) with
    | none =>
      have hsingular := (h.eq_none_iff (hsquare active')).mp hxs'
      rw [zipWith_equationsFor, List.length_map] at hsingular
      exact absurd (hnonsingular.of_perm hperm hnodup) hsingular
    | some xs' =>
      obtain ⟨hlength', hsolves'⟩ := h.solves (hsquare active') hxs'
      rw [zipWith_equationsFor] at hsolves'
      rw [List.length_map] at hlength'
      obtain ⟨d', rfl⟩ := exists_map_eq hnodup' hlength'
      -- Both solve the first equations, which have one solution only.
      have hsolves'' : ∀ e ∈ equationsFor active N b,
          dot e.coefficients (active.map d') = e.rhs := by
        refine forall_mem_equationsFor.mpr fun u hu ↦ ?_
        rw [← dot_equationsFor_of_perm hperm]
        exact forall_mem_equationsFor.mp hsolves' u (hperm.mem_iff.mpr hu)
      have heq : active.map d' = active.map d :=
        hnonsingular.unique (List.length_map ..) (List.length_map ..) hsolves'' hsolves
      refine congrArg some (List.map_congr_left fun i hi ↦ ?_)
      exact List.map_inj_left.mp heq i (hperm.mem_iff.mp hi)

theorem norm_of_perm {xs ys : List ℝ} (h : xs.Perm ys) : norm xs = norm ys := by
  rw [norm, norm, sumSquares, sumSquares, sum_eq, sum_eq]
  exact congrArg Scalar.sqrt (h.map _).sum_eq

end Linear

namespace Jacobian

variable {active active' : List Nat} {column : Nat → List ℝ} {conditions : Nat}

/-- The coefficient of the variable `v` in the damped equation of `u`. -/
noncomputable def dampedCoefficient (column : Nat → List ℝ) (a : ℝ) (u v : Nat) : ℝ :=
  Linear.dot (column u) (column v)
    + a * (if u = v then Linear.dot (column u) (column v) else 0)

theorem damped_normalEquations_map (hnodup : active.Nodup) (y : List ℝ) (a : ℝ) :
    (normalEquations ⟨conditions, active.map column⟩ y).damped a
      = active.map fun u ↦ active.map (dampedCoefficient column a u) := by
  refine List.ext_getElem ?_ fun i hi hi' ↦ List.ext_getElem ?_ fun k hk hk' ↦ ?_
  · simp [NormalEquations.damped, normalEquations]
  · simp [NormalEquations.damped, normalEquations]
  · have hi : i < active.length := by simpa using hi'
    have hk : k < active.length := by simpa using hk'
    simp only [NormalEquations.damped, normalEquations, dampedCoefficient, List.getElem_mapIdx,
      List.getElem_map, hnodup.getElem_inj_iff]

theorem step?_eq_solve?_map (hnodup : active.Nodup) (y : List ℝ) (a : ℝ) :
    (normalEquations ⟨conditions, active.map column⟩ y).step? a
      = Linear.solve? (active.map fun u ↦ active.map (dampedCoefficient column a u))
        (active.map fun u ↦ -Linear.dot (column u) y) := by
  have hgradient : (normalEquations ⟨conditions, active.map column⟩ y).gradient.map (- ·)
      = active.map fun u ↦ -Linear.dot (column u) y := by
    rw [normalEquations, List.map_map, List.map_map]
    rfl
  rw [NormalEquations.step?_eq, damped_normalEquations_map hnodup, hgradient]

theorem ineffective_map (active : List Nat) (column : Nat → List ℝ) :
    ineffective ⟨conditions, active.map column⟩ active
      = active.filter fun var ↦ decide (∀ b ∈ column var, b = 0) := by
  have hzip : active.zip (active.map column) = active.map fun var ↦ (var, column var) := by
    rw [List.zip, List.zipWith_map_right, List.zipWith_self]
  rw [ineffective, hzip, List.filter_map, List.map_map]
  exact List.map_id _

end Jacobian

namespace NormalEquations

/-- The equations for two lists of the same variables, made from the same columns. -/
inductive Relisted (active active' : List Nat) : NormalEquations ℝ → NormalEquations ℝ → Prop
  /-- Each variable has its column. -/
  | of_columns (conditions : Nat) (column : Nat → List ℝ) (residuals : List ℝ) :
      Relisted active active' (Jacobian.normalEquations ⟨conditions, active.map column⟩ residuals)
        (Jacobian.normalEquations ⟨conditions, active'.map column⟩ residuals)

namespace Relisted

variable {active active' : List Nat} {equations equations' : NormalEquations ℝ}

theorem initialDamping (h : equations.Relisted active active' equations')
    (hperm : active'.Perm active) : equations.initialDamping = equations'.initialDamping := by
  cases h with
  | of_columns conditions column residuals =>
    rw [NormalEquations.initialDamping, NormalEquations.initialDamping,
      Jacobian.diagonal_normalEquations, Jacobian.diagonal_normalEquations, List.map_map,
      List.map_map, Linear.mean_eq, Linear.mean_eq, List.length_map, List.length_map,
      hperm.length_eq, (hperm.map _).sum_eq]

/-- **Each variable has its entry of the step.** -/
theorem step? (h : equations.Relisted active active' equations') (hperm : active'.Perm active)
    (hnodup : active.Nodup) (a : ℝ) :
    (equations.step? a = none → equations'.step? a = none) ∧
    ∀ step, equations.step? a = some step →
      ∃ d, step = active.map d ∧ equations'.step? a = some (active'.map d) := by
  cases h with
  | of_columns conditions column residuals =>
    rw [Jacobian.step?_eq_solve?_map hnodup,
      Jacobian.step?_eq_solve?_map (hperm.nodup_iff.mpr hnodup)]
    exact Linear.isSolver_solve?.of_perm hperm hnodup _ _

theorem unresponsive (h : equations.Relisted active active' equations')
    (hperm : active'.Perm active) :
    (equations.unresponsive.map (active.getD · 0)).Perm
      (equations'.unresponsive.map (active'.getD · 0)) := by
  cases h with
  | of_columns conditions column residuals =>
    rw [Jacobian.map_unresponsive (List.length_map _).symm,
      Jacobian.map_unresponsive (List.length_map _).symm, Jacobian.ineffective_map,
      Jacobian.ineffective_map]
    exact hperm.symm.filter _

end Relisted

/-- Nothing overflows, so whether damping can grow is not a matter of the equations. -/
theorem overflows_eq (equations equations' : NormalEquations ℝ) (damping : Amount ℝ) :
    equations.overflows damping = equations'.overflows damping := by
  have hfinite : ∀ (e : NormalEquations ℝ) (d : ℝ),
      e.diagonal.all (fun a ↦ Scalar.isFinite (d * a)) = true :=
    fun e d ↦ List.all_eq_true.mpr fun _ _ ↦ rfl
  simp only [overflows, hfinite]

end NormalEquations

theorem decideTrial_eq (eta : Amount ℝ) (equations equations' : NormalEquations ℝ)
    (damping : Amount ℝ) (reduction : ℝ) :
    decideTrial eta equations damping reduction = decideTrial eta equations' damping reduction := by
  simp only [decideTrial, equations.overflows_eq equations']

/-! ## Updates -/

theorem stepRatio_of_perm {step step' : List ℝ} (h : step.Perm step') (point : List ℝ) :
    stepRatio step point = stepRatio step' point := by
  rw [stepRatio, stepRatio, Linear.norm_of_perm h]

namespace Problem

/-- The point with each of some variables moved by its entry. -/
def moveEach (d : Nat → ℝ) (active : List Nat) (x : List ℝ) : List ℝ :=
  active.foldl (fun x var ↦ x.modify var (· + d var)) x

theorem moveEach_of_perm {active active' : List Nat} (hperm : active.Perm active')
    (d : Nat → ℝ) (x : List ℝ) : moveEach d active x = moveEach d active' x := by
  refine hperm.foldl_eq' (fun u _ v _ x ↦ ?_) x
  by_cases huv : u = v
  · rw [huv]
  · exact List.modify_modify_ne _ _ x huv

theorem addUpdate_eq_moveEach (d : Nat → ℝ) {before active : List Nat} {x : List ℝ}
    (hactive : ∀ var ∈ active, var < x.length) :
    addUpdate moveEntry ((before ++ active).map d) active before.length x
      = .ok (moveEach d active x) := by
  induction active generalizing before x with
  | nil => rfl
  | cons var active ih =>
    obtain ⟨hvar, hrest⟩ := List.forall_mem_cons.mp hactive
    have hentry : updateEntry ((before ++ var :: active).map d) before.length = .ok (d var) := by
      rw [updateEntry, List.getElem?_map, List.getElem?_append_right le_rfl, Nat.sub_self]
      rfl
    have hmoved := @ih (before ++ [var]) (x.modify var (· + d var)) (by
      intro v hv
      rw [List.length_modify]
      exact hrest v hv)
    rw [List.append_assoc, List.length_append] at hmoved
    rw [addUpdate, hentry, moveEntry_natCast hvar]
    exact hmoved

variable {p : Problem ℝ} {active : List Nat} (hperm : active.Perm p.active)

/-- **Each variable is moved by its own entry of a step.** -/
theorem applyUpdate_relist {x : List ℝ} (hactive : ∀ var ∈ p.active, var < x.length)
    (d : Nat → ℝ) :
    (p.relist hperm).applyUpdate x (active.map d) = p.applyUpdate x (p.active.map d) := by
  have hactive' : ∀ var ∈ active, var < x.length := fun var hvar ↦
    hactive var (hperm.mem_iff.mp hvar)
  have hmoved := @addUpdate_eq_moveEach d [] _ _ hactive
  have hmoved' := @addUpdate_eq_moveEach d [] _ _ hactive'
  rw [List.nil_append] at hmoved hmoved'
  rw [applyUpdate, applyUpdate, List.length_map, List.length_map, hperm.length_eq]
  split
  · exact hmoved'.trans ((moveEach_of_perm hperm d x).symm ▸ hmoved.symm)
  · rfl

end Problem

end DampedLeastSquares
