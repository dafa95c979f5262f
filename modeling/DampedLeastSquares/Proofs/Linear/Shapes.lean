import DampedLeastSquares.Solve.System
import Mathlib.Data.List.Perm.Basic

/-!
# The length of a step

Elimination can be asked how long its solution is without asking what the numbers are. A round drops
one equation and one unknown, whichever it picks, and puts the unknown back where it was. So a
solution has an entry for each right-hand side, over floats as over fields, and a step has one for
each column of the Jacobian.
-/

namespace DampedLeastSquares

variable {R : Type} [Scalar R]

namespace Linear

theorem greatest?_eq_none {as : List R} (h : greatest? as = none) : as = [] := by
  cases as with
  | nil => rfl
  | cons =>
    rw [greatest?] at h
    split at h
    · exact nomatch h
    · split at h <;> exact nomatch h

theorem getElem?_of_greatest? {as : List R} {i : Nat} {a : R} (h : greatest? as = some (i, a)) :
    as[i]? = some a := by
  induction as generalizing i a with
  | nil => exact nomatch h
  | cons first as ih =>
    rw [greatest?] at h
    split at h
    · obtain ⟨rfl, rfl⟩ := Prod.mk.inj (Option.some.inj h)
      rfl
    next j most hrest =>
      split at h
      · obtain ⟨rfl, rfl⟩ := Prod.mk.inj (Option.some.inj h)
        exact ih hrest
      · obtain ⟨rfl, rfl⟩ := Prod.mk.inj (Option.some.inj h)
        rfl

theorem selectUnknown_lt {equations : List (Equation R)} (h : equations ≠ []) :
    selectUnknown equations < equations.length := by
  have hlast : equations.length - 1 < equations.length :=
    Nat.sub_one_lt (mt List.length_eq_zero_iff.mp h)
  rw [selectUnknown]
  dsimp only
  split
  · exact hlast
  next i most hgreatest =>
    have hi := (List.getElem?_eq_some_iff.mp (getElem?_of_greatest? hgreatest)).1
    rw [List.length_take, List.length_map] at hi
    split <;> omega

theorem perm_of_selectPivot {p : Nat} {equations rest : List (Equation R)} {pivot : Equation R}
    (h : selectPivot p equations = some (pivot, rest)) : (pivot :: rest).Perm equations := by
  have hperm {q : Nat} {e : Equation R} (hq : equations[q]? = some e) :
      (e :: equations.eraseIdx q).Perm equations := by
    obtain ⟨hlt, rfl⟩ := List.getElem?_eq_some_iff.mp hq
    exact List.getElem_cons_eraseIdx_perm hlt
  rw [selectPivot] at h
  obtain ⟨own, hown, h⟩ := Option.bind_eq_some_iff.mp h
  split at h
  · obtain ⟨⟨q, most⟩, -, h⟩ := Option.bind_eq_some_iff.mp h
    obtain ⟨found, hfound, h⟩ := Option.bind_eq_some_iff.mp h
    split at h
    · exact nomatch h
    · obtain ⟨rfl, rfl⟩ := Prod.mk.inj (Option.some.inj h)
      exact hperm hfound
  · obtain ⟨rfl, rfl⟩ := Prod.mk.inj (Option.some.inj h)
    exact hperm hown

theorem length_of_eliminate {n : Nat} {equations : List (Equation R)} {xs : List R}
    (hlength : equations.length = n) (h : eliminate n equations = some xs) : xs.length = n := by
  induction n generalizing equations xs with
  | zero =>
    obtain rfl := Option.some.inj h
    rfl
  | succ n ih =>
    have hp := selectUnknown_lt (List.ne_nil_of_length_eq_add_one hlength)
    rw [eliminate] at h
    dsimp only at h
    generalize selectUnknown equations = p at hp h
    split at h
    · exact nomatch h
    next pivot rest hselect =>
      obtain ⟨zs, hzs, rfl⟩ := Option.map_eq_some_iff.mp h
      have hperm := (perm_of_selectPivot hselect).length_eq
      rw [List.length_cons, hlength] at hperm
      have hzslength := ih (by rw [List.length_map]; exact Nat.succ.inj hperm) hzs
      rw [List.length_insertIdx_of_le_length (by omega), hzslength]

theorem length_of_solve? {rows : List (List R)} {rhs xs : List R}
    (hlength : rows.length = rhs.length) (h : solve? rows rhs = some xs) :
    xs.length = rhs.length := by
  rw [solve?.eq_def] at h
  split at h
  · split at h
    · split at h
      · exact nomatch h
      · rw [← Option.some.inj h]
        rfl
    · refine length_of_eliminate ?_ h
      rw [List.length_zipWith, hlength, Nat.min_self]
  · exact nomatch h

end Linear

theorem Jacobian.length_of_step? {j : Jacobian R} {residuals step : List R} {damping : R}
    (h : (j.normalEquations residuals).step? damping = some step) :
    step.length = j.columns.length := by
  rw [NormalEquations.step?] at h
  split at h
  next found hfound =>
    split at h
    · obtain rfl := Option.some.inj h
      rw [Linear.length_of_solve? _ hfound]
      · simp only [normalEquations, List.length_map]
      · simp only [NormalEquations.damped, normalEquations, List.length_mapIdx, List.length_map]
    · exact nomatch h
  · exact nomatch h

end DampedLeastSquares
