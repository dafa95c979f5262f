import DampedLeastSquares.Linear.System
import DampedLeastSquares.Proofs.Linear.Shapes
import DampedLeastSquares.Proofs.Scalar.Exact
import Mathlib.Tactic.LinearCombination

/-!
# Elimination over the real numbers

Which unknown a round removes, and with which equation, is a matter of rounding errors. Where
nothing rounds, all that counts is that the coefficient to be divided by is not zero, and that a
round looks for another unknown until there is none. What is left of the equations then has the same
solutions as before, apart from the unknown that is gone. Two things follow, both by induction on
the number of unknowns: what comes out solves the system, and nothing comes out exactly if the
system is singular.

Singular is meant here without determinants: something other than zero is turned into zero. That
passes through a round in both directions.
-/

namespace DampedLeastSquares.Linear

/-! ## Inner products -/

section dot

variable {u v xs ys zs : List ℝ}

theorem dot_map_mul (v : List ℝ) (c : ℝ) (zs : List ℝ) :
    dot (v.map (· * c)) zs = c * dot v zs := by
  induction v generalizing zs with
  | nil => exact (mul_zero c).symm
  | cons a v ih =>
    cases zs with
    | nil => simp [dot_eq]
    | cons z zs =>
      rw [List.map_cons, dot_cons, dot_cons, ih]
      ring

theorem dot_sub_mul (hlength : u.length = v.length) (c : ℝ) (zs : List ℝ) :
    dot (List.zipWith (fun a b ↦ a - c * b) u v) zs = dot u zs - c * dot v zs := by
  induction u generalizing v zs with
  | nil =>
    obtain rfl := List.length_eq_zero_iff.mp hlength.symm
    simp
  | cons a u ih =>
    obtain ⟨b, v, rfl⟩ := List.exists_cons_of_length_eq_add_one hlength.symm
    cases zs with
    | nil => simp [dot_eq]
    | cons z zs =>
      rw [List.zipWith_cons_cons, dot_cons, dot_cons, dot_cons, ih (Nat.succ.inj hlength)]
      ring

theorem dot_sub (hlength : xs.length = ys.length) (u : List ℝ) :
    dot u (sub xs ys) = dot u xs - dot u ys := by
  induction u generalizing xs ys with
  | nil => exact (sub_zero 0).symm
  | cons a u ih =>
    cases xs with
    | nil =>
      obtain rfl := List.length_eq_zero_iff.mp hlength.symm
      exact (sub_self _).symm
    | cons x xs =>
      obtain ⟨y, ys, rfl⟩ := List.exists_cons_of_length_eq_add_one hlength.symm
      rw [Linear.sub, List.zipWith_cons_cons, dot_cons, dot_cons, dot_cons, ← Linear.sub,
        ih (Nat.succ.inj hlength)]
      ring

theorem dot_eq_zero_of_forall (u : List ℝ) (h : ∀ a ∈ zs, a = 0) : dot u zs = 0 := by
  induction u generalizing zs with
  | nil => rfl
  | cons a u ih =>
    cases zs with
    | nil => simp [dot_eq]
    | cons z zs =>
      obtain ⟨rfl, hzs⟩ := List.forall_mem_cons.mp h
      rw [dot_cons, ih hzs, mul_zero, add_zero]

theorem dot_insertIdx {p : Nat} (hlength : u.length = zs.length + 1) (hp : p ≤ zs.length)
    (t : ℝ) : dot u (zs.insertIdx p t) = u.getD p 0 * t + dot (u.eraseIdx p) zs := by
  induction p generalizing u zs with
  | zero =>
    obtain ⟨a, u, rfl⟩ := List.exists_cons_of_length_eq_add_one hlength
    rw [List.insertIdx_zero, dot_cons]
    rfl
  | succ p ih =>
    obtain ⟨a, u, rfl⟩ := List.exists_cons_of_length_eq_add_one hlength
    obtain ⟨z, zs, rfl⟩ := List.exists_cons_of_length_pos (Nat.zero_lt_of_lt hp)
    rw [List.insertIdx_succ_cons, dot_cons, ih (Nat.succ.inj hlength) (Nat.le_of_succ_le_succ hp),
      List.eraseIdx_cons_succ, dot_cons, List.getD_cons_succ]
    ring

end dot

/-! ## One equation -/

namespace Equation

variable {n p : Nat} {inverse : ℝ} {pivot e : Equation ℝ} {zs : List ℝ}

theorem dot_coefficients (he : e.coefficients.length = n + 1) (hzs : zs.length = n) (hp : p ≤ n)
    (t : ℝ) : dot e.coefficients (zs.insertIdx p t) = e.coefficient p * t + dot (e.others p) zs :=
  dot_insertIdx (by rw [he, hzs]) (hzs ▸ hp) t

theorem length_others (he : e.coefficients.length = n + 1) (hp : p ≤ n) :
    (e.others p).length = n := by
  rw [others, List.length_eraseIdx_of_lt (by omega), he, Nat.add_sub_cancel]

/-- A reduced equation is the difference of the two it was made from, whatever the value of the
unknown that it lacks. -/
theorem dot_reduce (hpivot : pivot.coefficients.length = n + 1)
    (he : e.coefficients.length = n + 1) (hzs : zs.length = n) (hp : p ≤ n)
    (hinverse : pivot.coefficient p * inverse = 1) (t : ℝ) :
    dot (reduce p inverse pivot e).coefficients zs = dot e.coefficients (zs.insertIdx p t)
      - e.coefficient p * inverse * dot pivot.coefficients (zs.insertIdx p t) := by
  have hlength : (e.others p).length = (pivot.others p).length := by
    rw [length_others he hp, length_others hpivot hp]
  calc dot (reduce p inverse pivot e).coefficients zs
      = dot (e.others p) zs - e.coefficient p * inverse * dot (pivot.others p) zs :=
        dot_sub_mul hlength _ zs
    _ = _ := by
      rw [dot_coefficients he hzs hp, dot_coefficients hpivot hzs hp]
      linear_combination (e.coefficient p * t) * hinverse

theorem length_coefficients_reduce (hpivot : pivot.coefficients.length = n + 1)
    (he : e.coefficients.length = n + 1) (hp : p ≤ n) :
    (reduce p inverse pivot e).coefficients.length = n := by
  have hlength : (reduce p inverse pivot e).coefficients.length
      = min (e.others p).length (pivot.others p).length := List.length_zipWith
  rw [hlength, length_others he hp, length_others hpivot hp, Nat.min_self]

theorem dot_isolate (hpivot : pivot.coefficients.length = n + 1) (hzs : zs.length = n) (hp : p ≤ n)
    (hinverse : pivot.coefficient p * inverse = 1) :
    dot pivot.coefficients (zs.insertIdx p (pivot.isolate p inverse zs)) = pivot.rhs := by
  have hisolate : pivot.isolate p inverse zs
      = pivot.rhs * inverse - inverse * dot (pivot.others p) zs := by
    rw [← dot_map_mul]
    rfl
  rw [dot_coefficients hpivot hzs hp, hisolate]
  linear_combination (pivot.rhs - dot (pivot.others p) zs) * hinverse

/-- The value of an unknown can be chosen so that its equation makes zero of a vector. -/
theorem exists_dot_eq_zero (hpivot : pivot.coefficients.length = n + 1) (hzs : zs.length = n)
    (hp : p ≤ n) (hzero : pivot.coefficient p ≠ 0) :
    ∃ t, dot pivot.coefficients (zs.insertIdx p t) = 0 := by
  refine ⟨-dot (pivot.others p) zs / pivot.coefficient p, ?_⟩
  rw [dot_coefficients hpivot hzs hp, mul_div_cancel₀ _ hzero, neg_add_cancel]

end Equation

/-! ## The choice of unknown and equation -/

theorem le_of_greatest? {as : List ℝ} {i : Nat} {a : ℝ} (h : greatest? as = some (i, a)) :
    ∀ b ∈ as, b ≤ a := by
  induction as generalizing i a with
  | nil => exact nomatch h
  | cons first as ih =>
    rw [greatest?] at h
    split at h
    next hrest =>
      obtain ⟨rfl, rfl⟩ := Prod.mk.inj (Option.some.inj h)
      simp [greatest?_eq_none hrest]
    next j most hrest =>
      have hle := ih hrest
      split at h
      next hlt =>
        obtain ⟨rfl, rfl⟩ := Prod.mk.inj (Option.some.inj h)
        exact List.forall_mem_cons.mpr ⟨hlt.le, hle⟩
      next hge =>
        obtain ⟨rfl, rfl⟩ := Prod.mk.inj (Option.some.inj h)
        exact List.forall_mem_cons.mpr ⟨le_rfl, fun b hb ↦ (hle b hb).trans (not_lt.mp hge)⟩

theorem coefficient_ne_zero_of_selectPivot {p : Nat} {equations rest : List (Equation ℝ)}
    {pivot : Equation ℝ} (h : selectPivot p equations = some (pivot, rest)) :
    pivot.coefficient p ≠ 0 := by
  rw [selectPivot] at h
  obtain ⟨own, hown, h⟩ := Option.bind_eq_some_iff.mp h
  split at h
  · obtain ⟨⟨q, most⟩, hgreatest, h⟩ := Option.bind_eq_some_iff.mp h
    obtain ⟨found, hfound, h⟩ := Option.bind_eq_some_iff.mp h
    split at h
    · cases h
    next hmost =>
      obtain ⟨rfl, rfl⟩ := Prod.mk.inj (Option.some.inj h)
      refine fun hzero ↦ hmost (Scalar.isZero_iff.mpr ?_)
      have hq := getElem?_of_greatest? hgreatest
      rw [List.getElem?_map, hfound, Option.map_some, Scalar.abs_eq, hzero, abs_zero] at hq
      exact (Option.some.inj hq).symm
  next hcoefficient =>
    obtain ⟨rfl, rfl⟩ := Prod.mk.inj (Option.some.inj h)
    exact fun hzero ↦ hcoefficient (Scalar.isZero_iff.mpr hzero)

theorem selectPivot_eq_none {p : Nat} {equations : List (Equation ℝ)} (hp : p < equations.length)
    (h : selectPivot p equations = none) : ∀ e ∈ equations, e.coefficient p = 0 := by
  rw [selectPivot, List.getElem?_eq_getElem hp] at h
  simp only [Option.bind_eq_bind, Option.bind_some] at h
  split at h
  · cases hgreatest : greatest? (equations.map fun e ↦ Scalar.abs (e.coefficient p)) with
    | none =>
      have hnil := List.map_eq_nil_iff.mp (greatest?_eq_none hgreatest)
      simp [hnil] at hp
    | some found =>
      obtain ⟨q, most⟩ := found
      have hq := getElem?_of_greatest? hgreatest
      rw [List.getElem?_map] at hq
      obtain ⟨pivot, hpivot, -⟩ := Option.map_eq_some_iff.mp hq
      simp only [hgreatest, Option.bind_some, hpivot] at h
      split at h
      next hmost =>
        intro e he
        have habs := le_of_greatest? hgreatest _ (List.mem_map_of_mem he)
        rw [Scalar.abs_eq, Scalar.isZero_iff.mp hmost] at habs
        exact abs_nonpos_iff.mp habs
      · cases h
  · cases h

/-! ## Systems -/

/-- A system of as many equations as unknowns. -/
structure IsSquare (n : Nat) (equations : List (Equation ℝ)) : Prop where
  /-- There are `n` equations. -/
  length_eq : equations.length = n
  /-- Each equation has a coefficient for each of `n` unknowns. -/
  length_coefficients : ∀ e ∈ equations, e.coefficients.length = n

/-- The system turns nothing but zero into zero. -/
def Nonsingular (n : Nat) (equations : List (Equation ℝ)) : Prop :=
  ∀ zs, zs.length = n → (∀ e ∈ equations, dot e.coefficients zs = 0) → ∀ a ∈ zs, a = 0

section round

variable {n p : Nat} {equations rest : List (Equation ℝ)} {pivot : Equation ℝ}

/-- The equations that are left after a round. -/
noncomputable def reduced (p : Nat) (pivot : Equation ℝ) (rest : List (Equation ℝ)) :
    List (Equation ℝ) :=
  rest.map (pivot.reduce p (1 / pivot.coefficient p))

theorem IsSquare.reduced (h : IsSquare (n + 1) equations) (hp : p ≤ n)
    (hselect : selectPivot p equations = some (pivot, rest)) :
    IsSquare n (reduced p pivot rest) := by
  have hperm := perm_of_selectPivot hselect
  refine ⟨?_, fun e he ↦ ?_⟩
  · rw [Linear.reduced, List.length_map]
    exact Nat.succ.inj (hperm.length_eq.trans h.length_eq)
  · obtain ⟨e', he', rfl⟩ := List.mem_map.mp he
    exact Equation.length_coefficients_reduce
      (h.length_coefficients pivot (hperm.subset List.mem_cons_self))
      (h.length_coefficients e' (hperm.subset (List.mem_cons_of_mem pivot he'))) hp

theorem IsSquare.dot_reduced (h : IsSquare (n + 1) equations) (hp : p ≤ n)
    (hselect : selectPivot p equations = some (pivot, rest)) {e : Equation ℝ} (he : e ∈ rest)
    {zs : List ℝ} (hzs : zs.length = n) (t : ℝ) :
    dot (pivot.reduce p (1 / pivot.coefficient p) e).coefficients zs
      = dot e.coefficients (zs.insertIdx p t) - e.coefficient p * (1 / pivot.coefficient p)
        * dot pivot.coefficients (zs.insertIdx p t) := by
  have hpivot := coefficient_ne_zero_of_selectPivot hselect
  have hperm := perm_of_selectPivot hselect
  exact Equation.dot_reduce (h.length_coefficients pivot (hperm.subset List.mem_cons_self))
    (h.length_coefficients e (hperm.subset (List.mem_cons_of_mem pivot he))) hzs hp
    (mul_one_div_cancel hpivot) t

/-- **A round changes nothing about whether a system is singular.** -/
theorem IsSquare.nonsingular_reduced_iff (h : IsSquare (n + 1) equations) (hp : p ≤ n)
    (hselect : selectPivot p equations = some (pivot, rest)) :
    Nonsingular n (Linear.reduced p pivot rest) ↔ Nonsingular (n + 1) equations := by
  have hpivot := coefficient_ne_zero_of_selectPivot hselect
  have hperm := perm_of_selectPivot hselect
  have hlength := h.length_coefficients pivot (hperm.subset List.mem_cons_self)
  constructor
  · intro hreduced xs hxs hzero
    have hpxs : p < xs.length := by omega
    have hsplit : (xs.eraseIdx p).insertIdx p xs[p] = xs := List.insertIdx_eraseIdx_getElem hpxs
    have hzs : (xs.eraseIdx p).length = n := by
      rw [List.length_eraseIdx_of_lt hpxs, hxs, Nat.add_sub_cancel]
    have hpivotzero := hzero pivot (hperm.subset List.mem_cons_self)
    have hothers := hreduced (xs.eraseIdx p) hzs fun e he ↦ by
      obtain ⟨e', he', rfl⟩ := List.mem_map.mp he
      rw [h.dot_reduced hp hselect he' hzs xs[p], hsplit, hpivotzero,
        hzero e' (hperm.subset (List.mem_cons_of_mem pivot he')), mul_zero, sub_zero]
    -- All other unknowns are zero, and so the equation of the pivot leaves nothing for this one.
    rw [← hsplit, Equation.dot_coefficients hlength hzs hp, dot_eq_zero_of_forall _ hothers,
      add_zero] at hpivotzero
    have hown : xs[p] = 0 := (mul_eq_zero.mp hpivotzero).resolve_left hpivot
    intro a ha
    rw [← hsplit, List.mem_insertIdx (by omega)] at ha
    rcases ha with rfl | ha
    · exact hown
    · exact hothers a ha
  · intro hequations zs hzs hzero a ha
    obtain ⟨t, ht⟩ := Equation.exists_dot_eq_zero hlength hzs hp hpivot
    refine hequations (zs.insertIdx p t) ?_ (fun e he ↦ ?_) a
      ((List.mem_insertIdx (hzs ▸ hp)).mpr (Or.inr ha))
    · rw [List.length_insertIdx_of_le_length (hzs ▸ hp), hzs]
    · rcases List.mem_cons.mp (hperm.symm.subset he) with rfl | he'
      · exact ht
      · have hdot := h.dot_reduced hp hselect he' hzs t
        rw [hzero _ (List.mem_map_of_mem he'), ht, mul_zero, sub_zero] at hdot
        exact hdot.symm

theorem IsSquare.not_nonsingular (h : IsSquare (n + 1) equations) (hp : p ≤ n)
    (hzero : ∀ e ∈ equations, e.coefficient p = 0) : ¬Nonsingular (n + 1) equations := by
  intro hnonsingular
  have hlength : (List.replicate n (0 : ℝ)).length = n := List.length_replicate
  refine one_ne_zero (hnonsingular ((List.replicate n 0).insertIdx p 1) ?_ (fun e he ↦ ?_) 1 ?_)
  · rw [List.length_insertIdx_of_le_length (hlength.symm ▸ hp), hlength]
  · rw [Equation.dot_coefficients (h.length_coefficients e he) hlength hp, hzero e he, zero_mul,
      zero_add]
    exact dot_eq_zero_of_forall _ fun a ha ↦ List.eq_of_mem_replicate ha
  · exact (List.mem_insertIdx (hlength.symm ▸ hp)).mpr (Or.inl rfl)

end round

/-! ## The algorithm -/

variable {n : Nat} {equations : List (Equation ℝ)} {xs : List ℝ}

theorem IsSquare.selectUnknown_le (h : IsSquare (n + 1) equations) :
    selectUnknown equations ≤ n := by
  have hlt := selectUnknown_lt (List.ne_nil_of_length_eq_add_one h.length_eq)
  rw [h.length_eq] at hlt
  exact Nat.le_of_lt_succ hlt

/-- **What elimination finds is a solution.** -/
theorem IsSquare.solves_of_eliminate (h : IsSquare n equations)
    (hxs : eliminate n equations = some xs) :
    xs.length = n ∧ ∀ e ∈ equations, dot e.coefficients xs = e.rhs := by
  induction n generalizing equations xs with
  | zero =>
    obtain rfl := Option.some.inj hxs
    obtain rfl := List.length_eq_zero_iff.mp h.length_eq
    exact ⟨rfl, nofun⟩
  | succ n ih =>
    have hp := h.selectUnknown_le
    rw [eliminate] at hxs
    dsimp only at hxs
    generalize selectUnknown equations = p at hp hxs
    split at hxs
    · cases hxs
    next pivot rest hselect =>
      obtain ⟨zs, hzs, rfl⟩ := Option.map_eq_some_iff.mp hxs
      obtain ⟨hlength, hsolves⟩ := ih (h.reduced hp hselect) hzs
      have hpivot := coefficient_ne_zero_of_selectPivot hselect
      have hperm := perm_of_selectPivot hselect
      have hpivotsolves := Equation.dot_isolate
        (h.length_coefficients pivot (hperm.subset List.mem_cons_self)) hlength hp
        (mul_one_div_cancel hpivot)
      refine ⟨by rw [List.length_insertIdx_of_le_length (hlength ▸ hp), hlength], fun e he ↦ ?_⟩
      rcases List.mem_cons.mp (hperm.symm.subset he) with rfl | he'
      · exact hpivotsolves
      · have hreduced := hsolves _ (List.mem_map_of_mem he')
        rw [h.dot_reduced hp hselect he' hlength, hpivotsolves] at hreduced
        exact sub_left_injective hreduced

/-- **Elimination finds a solution exactly if the system is not singular.** -/
theorem IsSquare.eliminate_eq_none_iff (h : IsSquare n equations) :
    eliminate n equations = none ↔ ¬Nonsingular n equations := by
  induction n generalizing equations with
  | zero =>
    refine iff_of_false nofun (not_not.mpr fun zs hzs _ a ha ↦ ?_)
    obtain rfl := List.length_eq_zero_iff.mp hzs
    exact nomatch ha
  | succ n ih =>
    have hp := h.selectUnknown_le
    rw [eliminate]
    split
    next hselect =>
      have hzero := selectPivot_eq_none (h.length_eq ▸ Nat.lt_succ_of_le hp) hselect
      exact iff_of_true rfl (h.not_nonsingular hp hzero)
    next pivot rest hselect =>
      rw [Option.map_eq_none_iff, ← h.nonsingular_reduced_iff hp hselect]
      exact ih (h.reduced hp hselect)

/-- **A system that is not singular has one solution at most.** -/
theorem Nonsingular.unique (h : Nonsingular n equations) {ys : List ℝ} (hxs : xs.length = n)
    (hys : ys.length = n) (hsolves : ∀ e ∈ equations, dot e.coefficients xs = e.rhs)
    (hsolves' : ∀ e ∈ equations, dot e.coefficients ys = e.rhs) : xs = ys := by
  have hlength : xs.length = ys.length := hxs.trans hys.symm
  have hzero : ∀ a ∈ sub xs ys, a = 0 := by
    refine h _ (by rw [sub, List.length_zipWith, hxs, hys, Nat.min_self]) fun e he ↦ ?_
    rw [dot_sub hlength, hsolves e he, hsolves' e he, sub_self]
  refine List.ext_getElem hlength fun i hi hi' ↦ sub_eq_zero.mp (hzero _ ?_)
  exact List.mem_iff_getElem.mpr ⟨i, by rw [sub, List.length_zipWith]; omega, List.getElem_zipWith⟩

/-- A single equation is divided directly, which is what elimination comes to. -/
theorem eliminate_singleton (a b : ℝ) :
    eliminate 1 [⟨[a], b⟩] = if Scalar.isZero a then none else some [b / a] := by
  have hsquare : IsSquare 1 [⟨[a], b⟩] := ⟨rfl, by simp⟩
  split
  next ha =>
    refine hsquare.eliminate_eq_none_iff.mpr (hsquare.not_nonsingular (p := 0) le_rfl ?_)
    simpa [Equation.coefficient] using Scalar.isZero_iff.mp ha
  next ha =>
    have ha' : a ≠ 0 := mt Scalar.isZero_iff.mpr ha
    cases hxs : eliminate 1 [⟨[a], b⟩] with
    | none =>
      refine absurd (fun zs hzs hzero ↦ ?_) (hsquare.eliminate_eq_none_iff.mp hxs)
      obtain ⟨z, rfl⟩ := List.length_eq_one_iff.mp hzs
      simpa [ha'] using hzero
    | some xs =>
      obtain ⟨hlength, hsolves⟩ := hsquare.solves_of_eliminate hxs
      obtain ⟨x, rfl⟩ := List.length_eq_one_iff.mp hlength
      have hx : a * x = b := by simpa using hsolves
      rw [← hx, mul_div_cancel_left₀ x ha']

theorem solve?_eq_eliminate (rows : List (List ℝ)) (rhs : List ℝ) :
    solve? rows rhs = eliminate rhs.length (List.zipWith Equation.mk rows rhs) := by
  rw [solve?.eq_def, if_pos (by simp)]
  split
  · exact (eliminate_singleton _ _).symm
  · rfl

end DampedLeastSquares.Linear
