import DampedLeastSquares.Proofs.Solve.Damping
import DampedLeastSquares.Proofs.Solve.IllPosed
import Mathlib.Algebra.Order.Ring.Abs

/-!
# Damping near the largest scalar

Before the damping grows, its products with the diagonal are looked at: if one of them is not
finite then the iteration ends where it is. The matrix of the next trial, however, has the products
added to the diagonal, and a sum can leave the finite values though both of its terms are among
them. Then there is no step, and the equations are called ill-posed when all that was wrong is that
the damping had grown.

How far the test reaches does not depend on how numbers are rounded. All that counts is which
results are finite: those below a limit in size, if the arguments are finite. `OverflowsFrom` says
this of an arithmetic. Floats of 64 bits obey it with the limit `2 ^ 1024 - 2 ^ 970`, halfway
between the largest of them and the next number that they would have.
-/

namespace DampedLeastSquares

/-- An arithmetic whose results are finite if they are below a limit in size and were made from
finite values. What a finite value is, as a number, is read by `value`. -/
structure OverflowsFrom {R K : Type} [Scalar R] [Field K] [LinearOrder K] (value : R → K)
    (limit : K) : Prop where
  /-- Finite values are below the limit. -/
  abs_lt {a : R} : Scalar.isFinite a = true → |value a| < limit
  /-- A sum is finite if its terms are and if it is below the limit itself. -/
  finite_add_iff {a b : R} : Scalar.isFinite (a + b) = true ↔
    Scalar.isFinite a = true ∧ Scalar.isFinite b = true ∧ |value a + value b| < limit
  /-- A product is finite if its factors are and if it is below the limit itself. -/
  finite_mul_iff {a b : R} : Scalar.isFinite (a * b) = true ↔
    Scalar.isFinite a = true ∧ Scalar.isFinite b = true ∧ |value a * value b| < limit
  /-- Zero is finite. -/
  finite_zero : Scalar.isFinite (0 : R) = true
  /-- Zero is read as zero. -/
  value_zero : value 0 = 0
  /-- Every product of a finite value with zero is read as zero. -/
  value_mul_zero {a : R} : Scalar.isFinite a = true → value (a * 0) = 0

section laws

variable {R K : Type} [Scalar R] [Field K] [LinearOrder K] [IsStrictOrderedRing K]
  {value : R → K} {limit : K}

namespace OverflowsFrom

variable (hv : OverflowsFrom value limit) {a b : R}

include hv

/-- The products of a finite value with zero may be added to anything finite. -/
theorem finite_add_mul_zero (ha : Scalar.isFinite a = true) (hb : Scalar.isFinite b = true) :
    Scalar.isFinite (a + b * 0) = true := by
  have hlimit : 0 < limit := (abs_nonneg _).trans_lt (hv.abs_lt hv.finite_zero)
  have hproduct : Scalar.isFinite (b * 0) = true := by
    refine hv.finite_mul_iff.mpr ⟨hb, hv.finite_zero, ?_⟩
    rwa [hv.value_zero, mul_zero, abs_zero]
  refine hv.finite_add_iff.mpr ⟨ha, hproduct, ?_⟩
  rw [hv.value_mul_zero hb, add_zero]
  exact hv.abs_lt ha

end OverflowsFrom

/-! ## The damped matrix -/

namespace NormalEquations

variable {equations : NormalEquations R} {a : R}

theorem mem_diagonal {h : R} : h ∈ equations.diagonal ↔
    ∃ (i : Nat) (row : List R), equations.matrix[i]? = some row ∧ h = row.getD i 0 := by
  rw [diagonal, List.mem_mapIdx]
  constructor
  · rintro ⟨i, hi, rfl⟩
    exact ⟨i, _, List.getElem?_eq_getElem hi, rfl⟩
  · rintro ⟨i, row, hrow, rfl⟩
    obtain ⟨hi, rfl⟩ := List.getElem?_eq_some_iff.mp hrow
    exact ⟨i, hi, rfl⟩

theorem allFinite_damped_iff : (equations.damped a).all Linear.allFinite = true ↔
    ∀ (i j : Nat) (row : List R) (h : R), equations.matrix[i]? = some row → row[j]? = some h →
      Scalar.isFinite (h + a * (if i = j then h else 0)) = true := by
  simp only [damped, Linear.allFinite, List.all_eq_true, List.mem_mapIdx]
  constructor
  · intro hall i j row h hrow hentry
    obtain ⟨hi, rfl⟩ := List.getElem?_eq_some_iff.mp hrow
    obtain ⟨hj, rfl⟩ := List.getElem?_eq_some_iff.mp hentry
    exact hall _ ⟨i, hi, rfl⟩ _ (List.mem_mapIdx.mpr ⟨j, hj, rfl⟩)
  · rintro hall _ ⟨i, hi, rfl⟩ b hb
    obtain ⟨j, hj, rfl⟩ := List.mem_mapIdx.mp hb
    exact hall i j _ _ (List.getElem?_eq_getElem hi) (List.getElem?_eq_getElem hj)

omit [IsStrictOrderedRing K] in
theorem allFinite_of_damped (hv : OverflowsFrom value limit)
    (h : (equations.damped a).all Linear.allFinite = true) :
    ∀ (i j : Nat) (row : List R) (b : R), equations.matrix[i]? = some row → row[j]? = some b →
      Scalar.isFinite b = true := fun i j row b hrow hentry ↦
  (hv.finite_add_iff.mp (allFinite_damped_iff.mp h i j row b hrow hentry)).1

/-- **What the test of the damping leaves out.** If it finds nothing then the damped matrix is
finite exactly if no sum on its diagonal reaches the limit. -/
theorem allFinite_damped_iff_of_bears (hv : OverflowsFrom value limit)
    (hfinite : ∀ (i j : Nat) (row : List R) (b : R), equations.matrix[i]? = some row →
      row[j]? = some b → Scalar.isFinite b = true)
    {damping : Amount R} (hbears : equations.Bears damping) :
    (equations.damped damping.toScalar).all Linear.allFinite = true ↔
      ∀ h ∈ equations.diagonal, |value h + value (damping.toScalar * h)| < limit := by
  rw [allFinite_damped_iff]
  constructor
  · intro hall h hmem
    obtain ⟨i, row, hrow, rfl⟩ := mem_diagonal.mp hmem
    rcases Nat.lt_or_ge i row.length with hi | hi
    · have hentry := hall i i row _ hrow (List.getElem?_eq_getElem hi)
      rw [if_pos rfl] at hentry
      rw [List.getD_eq_getElem _ _ hi]
      exact (hv.finite_add_iff.mp hentry).2.2
    · -- A row that is too short has a zero on the diagonal.
      have hsum := hv.abs_lt hv.finite_zero
      rw [hv.value_zero] at hsum
      rwa [List.getD_eq_default _ _ hi, hv.value_zero, hv.value_mul_zero hbears.1, add_zero]
  · intro hdiagonal i j row h hrow hentry
    have hh := hfinite i j row h hrow hentry
    by_cases hij : i = j
    · subst hij
      have hmem : h ∈ equations.diagonal :=
        mem_diagonal.mpr ⟨i, row, hrow, by rw [List.getD_eq_getElem?_getD, hentry]; rfl⟩
      rw [if_pos rfl]
      exact hv.finite_add_iff.mpr ⟨hh, hbears.2 h hmem, hdiagonal h hmem⟩
    · rw [if_neg hij]
      exact hv.finite_add_mul_zero hh hbears.1

end NormalEquations

/-! ## The next trial -/

theorem Amount.read_of_isFinite {a : Amount R} (h : Scalar.isFinite a.toScalar = true) :
    a.read = .ok a.toScalar := by
  cases a with
  | whole n => exact if_pos h
  | scalar a => rfl

namespace State

variable {p : Problem R} {settings : Settings R} {s s' : State R}
  {equations equations' : NormalEquations R} {damping grown : Amount R} {tried tried' : Nat}

/-- A trial after which another is made with the same Jacobian was rejected, and its damping has
grown and passed the test. -/
theorem grown_of_step (hphase : s.phase = .attempt equations damping tried)
    (hstep : s.step p settings = .running s')
    (hphase' : s'.phase = .attempt equations' grown tried') :
    equations' = equations ∧ tried' = tried + 1 ∧ damping.mul settings.eta = .ok grown ∧
      equations.overflows grown = .ok false ∧ equations.unresponsive = [] ∧
      ∃ a, (equations.damped a).all Linear.allFinite = true := by
  have hmove := move_step p settings s
  rw [hstep] at hmove
  generalize hrunning : Progress.running s' = b at hmove
  cases hmove with
  | linearised hlinearise => cases hphase.symm.trans hlinearise
  | stuck => cases hrunning
  | failed => cases hrunning
  | @tried equations₁ damping₁ tried₁ step reached d htrial hdecided =>
    obtain ⟨rfl, rfl, rfl⟩ := Phase.attempt.inj (hphase.symm.trans htrial.phase)
    rw [conclude] at hrunning
    split at hrunning
    · cases hrunning
    next hfinal =>
      obtain rfl := Progress.running.inj hrunning
      obtain ⟨a, -, hfound⟩ := htrial.solves
      rcases decideTrial_eq_ok hdecided with ⟨-, shrunk, -, rfl⟩ |
        ⟨-, grown', stalled, hmul, hoverflows, rfl⟩
      · cases (phase_after_of_accepted rfl).symm.trans hphase'
      · cases stalled with
        | true => exact absurd (finalAfter_of_stalled rfl rfl) hfinal
        | false =>
          obtain ⟨rfl, rfl, rfl⟩ :=
            Phase.attempt.inj ((phase_after_of_rejected rfl).symm.trans hphase')
          exact ⟨rfl, rfl, hmul, hoverflows, htrial.responsive, a,
            NormalEquations.allFinite_of_step? hfound⟩

end State

/-- **When the damping has grown, the equations may be ill-posed for that alone.** If the test of
the damping finds nothing then the products with the diagonal are finite, but the damped matrix is
so only if the sums on its diagonal stay below the limit as well. After a trial that was rejected,
and let the damping grow, the next trial finds the equations ill-posed if one of these sums does
not. Otherwise it does so only if the damped equations, which are finite then, have no step. -/
theorem illPosed_after_growth_iff (hv : OverflowsFrom value limit) :
    (∀ (equations : NormalEquations R) (damping : Amount R),
      equations.matrix.all Linear.allFinite = true → equations.overflows damping = .ok false →
      ((equations.damped damping.toScalar).all Linear.allFinite = true ↔
        ∀ h ∈ equations.diagonal, |value h + value (damping.toScalar * h)| < limit)) ∧
    ∀ (p : Problem R) (settings : Settings R) (s s' : State R)
      (equations equations' : NormalEquations R) (damping grown : Amount R) (tried tried' : Nat),
      s.phase = .attempt equations damping tried → s.step p settings = .running s' →
      s'.phase = .attempt equations' grown tried' →
      equations' = equations ∧ damping.mul settings.eta = .ok grown ∧
      equations.overflows grown = .ok false ∧
      ((∃ h ∈ equations.diagonal, limit ≤ |value h + value (grown.toScalar * h)|) →
        s'.run p settings
          = some (.illPosed, { s' with records := s'.records ++ [.illPosed] })) ∧
      ((∃ s'', s'.step p settings = .ended .illPosed s'') ↔
        (∃ h ∈ equations.diagonal, limit ≤ |value h + value (grown.toScalar * h)|) ∨
          (equations.damped grown.toScalar).all Linear.allFinite = true ∧
            equations.step? grown.toScalar = none) := by
  constructor
  · intro equations damping hfinite hoverflows
    refine NormalEquations.allFinite_damped_iff_of_bears hv (fun i j row b hrow hentry ↦ ?_)
      ((NormalEquations.overflows_eq_ok hoverflows).mp rfl)
    have hrow := List.all_eq_true.mp hfinite row (List.mem_of_getElem? hrow)
    exact List.all_eq_true.mp hrow b (List.mem_of_getElem? hentry)
  · intro p settings s s' equations equations' damping grown tried tried' hphase hstep hphase'
    obtain ⟨rfl, rfl, hmul, hoverflows, hresponsive, a, hdamped⟩ :=
      State.grown_of_step hphase hstep hphase'
    have hbears := (NormalEquations.overflows_eq_ok hoverflows).mp rfl
    have hread := Amount.read_of_isFinite hbears.1
    have hfinite := NormalEquations.allFinite_damped_iff_of_bears hv
      (NormalEquations.allFinite_of_damped hv hdamped) hbears
    have hnone : (∃ h ∈ equations'.diagonal, limit ≤ |value h + value (grown.toScalar * h)|) →
        equations'.step? grown.toScalar = none := by
      rintro ⟨h, hmem, hlimit⟩
      refine Option.eq_none_iff_forall_ne_some.mpr fun step hfound ↦ ?_
      exact (hfinite.mp (NormalEquations.allFinite_of_step? hfound) h hmem).not_ge hlimit
    refine ⟨rfl, hmul, hoverflows, fun hlarge ↦ ?_, fun ⟨s'', hended⟩ ↦ ?_, fun hcases ↦ ?_⟩
    · rw [State.run_eq_finish, State.step_of_singular hphase' hread (Or.inr (hnone hlarge)),
        hresponsive, List.map_nil, List.append_nil]
      rfl
    · have hsingular := State.singular_of_step hphase' hread hended
      by_cases hlarge : ∃ h ∈ equations'.diagonal, limit ≤ |value h + value (grown.toScalar * h)|
      · exact Or.inl hlarge
      · push Not at hlarge
        exact Or.inr ⟨hfinite.mpr hlarge, hsingular.resolve_left fun h ↦ h hresponsive⟩
    · have hstep' := hcases.elim hnone And.right
      exact ⟨_, State.step_of_singular hphase' hread (Or.inr hstep')⟩

end laws

/-! ## Scalars that overflow -/

/-- A rational number below a limit in size, or the value of everything beyond. -/
structure CappedRat (limit : ℚ) where
  /-- The number, which is undefined beyond the limit. -/
  number : PartialRat
  /-- It is below the limit. -/
  abs_lt : ∀ x, number.value? = some x → |x| < limit
  deriving DecidableEq

namespace CappedRat

variable {limit : ℚ}

/-- What is left of a number. -/
def cap (a : PartialRat) : CappedRat limit where
  number := ⟨a.value?.filter fun x ↦ decide (|x| < limit)⟩
  abs_lt _ h := of_decide_eq_true (Option.filter_eq_some_iff.mp h).2

instance : Scalar (CappedRat limit) where
  zero := cap 0
  one := cap 1
  natCast n := cap n
  add a b := cap (a.number + b.number)
  sub a b := cap (a.number - b.number)
  mul a b := cap (a.number * b.number)
  div a b := cap (a.number / b.number)
  neg a := cap (-a.number)
  lt a b := a.number < b.number
  le a b := a.number ≤ b.number
  decidableLT a b := Scalar.decidableLT a.number b.number
  decidableLE a b := Scalar.decidableLE a.number b.number
  sqrt a := cap (Scalar.sqrt a.number)
  isFinite a := Scalar.isFinite a.number
  quotient m n := cap (Scalar.quotient m n)

theorem isFinite_iff {a : CappedRat limit} :
    Scalar.isFinite a = true ↔ ∃ x, a.number.value? = some x := PartialRat.isFinite_iff

theorem isFinite_cap_iff {a : PartialRat} : Scalar.isFinite (cap a : CappedRat limit) = true ↔
    ∃ x, a.value? = some x ∧ |x| < limit := by
  rw [isFinite_iff]
  simp only [cap, Option.filter_eq_some_iff, decide_eq_true_eq]

/-- The number, with zero for the undefined value. -/
def toRat (a : CappedRat limit) : ℚ := a.number.value?.getD 0

theorem toRat_of_value? {a : CappedRat limit} {x : ℚ} (h : a.number.value? = some x) :
    a.toRat = x := by
  rw [toRat, h, Option.getD_some]

theorem isFinite_cap_combine_iff {f : ℚ → ℚ → ℚ} {a b : CappedRat limit} :
    Scalar.isFinite (cap (PartialRat.combine (fun x y ↦ some (f x y)) a.number b.number) :
      CappedRat limit) = true ↔
    Scalar.isFinite a = true ∧ Scalar.isFinite b = true ∧ |f a.toRat b.toRat| < limit := by
  rw [isFinite_cap_iff]
  constructor
  · rintro ⟨z, hz, hlt⟩
    obtain ⟨x, hx, hrest⟩ := Option.bind_eq_some_iff.mp hz
    obtain ⟨y, hy, hxy⟩ := Option.bind_eq_some_iff.mp hrest
    rw [toRat_of_value? hx, toRat_of_value? hy, Option.some.inj hxy]
    exact ⟨isFinite_iff.mpr ⟨x, hx⟩, isFinite_iff.mpr ⟨y, hy⟩, hlt⟩
  · rintro ⟨ha, hb, hlt⟩
    obtain ⟨x, hx⟩ := isFinite_iff.mp ha
    obtain ⟨y, hy⟩ := isFinite_iff.mp hb
    rw [toRat_of_value? hx, toRat_of_value? hy] at hlt
    exact ⟨f x y, PartialRat.value?_combine hx hy, hlt⟩

theorem value?_cap {a : PartialRat} {x : ℚ} (h : a.value? = some x) (hlt : |x| < limit) :
    (cap a : CappedRat limit).number.value? = some x :=
  Option.filter_eq_some_iff.mpr ⟨h, decide_eq_true hlt⟩

theorem value?_zero (hlimit : 0 < limit) : (0 : CappedRat limit).number.value? = some 0 :=
  value?_cap (a := 0) rfl (by rwa [abs_zero])

theorem overflowsFrom (hlimit : 0 < limit) :
    OverflowsFrom (toRat : CappedRat limit → ℚ) limit where
  abs_lt {a} h := by
    obtain ⟨x, hx⟩ := isFinite_iff.mp h
    rw [toRat_of_value? hx]
    exact a.abs_lt x hx
  finite_add_iff := isFinite_cap_combine_iff
  finite_mul_iff := isFinite_cap_combine_iff
  finite_zero := isFinite_iff.mpr ⟨0, value?_zero hlimit⟩
  value_zero := toRat_of_value? (value?_zero hlimit)
  value_mul_zero {a} h := by
    obtain ⟨x, hx⟩ := isFinite_iff.mp h
    have hproduct : (a.number * (0 : CappedRat limit).number).value? = some (x * 0) :=
      PartialRat.value?_combine hx (value?_zero hlimit)
    rw [mul_zero] at hproduct
    exact toRat_of_value? (value?_cap hproduct (by rwa [abs_zero]))

/-- A rational number that is below the limit. -/
def ofRat (q : ℚ) : CappedRat limit := cap (PartialRat.ofRat q)

end CappedRat

/-- Whether the iteration goes on with a trial that passes a test. -/
def Progress.attempts {R : Type} (test : State R → NormalEquations R → Amount R → Bool) :
    Progress R → Bool
  | .running s =>
    match s.phase with
    | .attempt equations damping _ => test s equations damping
    | .linearise _ => false
  | .ended _ _ => false

theorem Progress.exists_of_attempts {R : Type}
    {test : State R → NormalEquations R → Amount R → Bool} {a : Progress R}
    (h : a.attempts test = true) :
    ∃ s equations damping tried, a = .running s ∧ s.phase = .attempt equations damping tried ∧
      test s equations damping = true := by
  cases a with
  | ended e s => exact nomatch h
  | running s =>
    rw [attempts] at h
    split at h
    next equations damping tried hphase => exact ⟨s, equations, damping, tried, rfl, hphase, h⟩
    · exact nomatch h

namespace Problem

open CappedRat

/-- Four times the only variable, with numbers below 30. -/
def steep : Problem (CappedRat 30) :=
  inOneVariable (fun _ x ↦ .ok (x.map (ofRat 4 * ·))) (.scalar 1)

/-- A little damping, which grows eightfold. -/
def steepSettings : Settings (CappedRat 30) where
  limit := .atMost 5
  epsilon := 0
  initialDamping := some (.scalar (ofRat (1 / 8)))
  eta := .scalar (ofRat 8)
  verbose := false

/-- Whether a sum on the damped diagonal reaches the limit. -/
def reachesLimit (equations : NormalEquations (CappedRat 30)) (damping : Amount (CappedRat 30)) :
    Bool :=
  equations.diagonal.any fun h ↦ decide (30 ≤ |h.toRat + (damping.toScalar * h).toRat|)

/-- At zero, which is a solution, nothing gets better. The damping grows from an eighth to one, and
its product with the diagonal is 16. The sum is 32. -/
theorem illPosed_after_growth_steep : ∃ s s' o,
    (State.initial steepSettings (.ofResiduals [0] [0])).step steep steepSettings = .running s ∧
    s.step steep steepSettings = .running s' ∧
    s'.run steep steepSettings
      = some (.illPosed, { s' with records := s'.records ++ [.illPosed] }) ∧
    steep.solve steepSettings (some [0]) = some o ∧ o.status = .illPosed ∧ o.trace.errors = [0] ∧
    o.trace.trials.map Trial.accepted = [false] := by
  have hruns : ((State.initial steepSettings (.ofResiduals [0] [0])).step steep
      steepSettings).attempts (fun s _ _ ↦ (s.step steep steepSettings).attempts
        fun _ ↦ reachesLimit) = true := by decide +kernel
  obtain ⟨s, equations, damping, tried, hs, hphase, htest⟩ := Progress.exists_of_attempts hruns
  obtain ⟨s', equations', grown, tried', hs', hphase', hreaches⟩ :=
    Progress.exists_of_attempts htest
  obtain ⟨h, hmem, hlarge⟩ := List.any_eq_true.mp hreaches
  obtain ⟨rfl, -, -, hrun, -⟩ := (illPosed_after_growth_iff (overflowsFrom (by decide))).2
    steep steepSettings s s' equations equations' damping grown tried tried' hphase hs' hphase'
  obtain ⟨o, ho, hpasses⟩ := exists_solve_of_test steep steepSettings [0] [0] 3
    (fun o ↦ decide (o.status = .illPosed ∧ o.trace.errors = [0] ∧
      o.trace.trials.map Trial.accepted = [false])) (by decide) (by decide +kernel)
    (by decide +kernel)
  obtain ⟨hstatus, herrors, htrials⟩ := of_decide_eq_true hpasses
  exact ⟨s, s', o, hs, hs', hrun ⟨h, hmem, of_decide_eq_true hlarge⟩, ho, hstatus, herrors, htrials⟩

end Problem

end DampedLeastSquares
