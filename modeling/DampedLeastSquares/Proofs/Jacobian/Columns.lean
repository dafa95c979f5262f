import DampedLeastSquares.Problem.Basic
import DampedLeastSquares.Proofs.Jacobian.Distribution

/-!
# Jacobians that succeed

A Jacobian that comes out has one column for each active variable, and took one call of the residual
function for each. How the workers share the columns does not matter for that, nor whether the
function answers by the point alone: nothing is left out unless something fails.
-/

namespace DampedLeastSquares

variable {P R : Type} [Scalar R]

namespace Jacobian

variable {f : Nat → P → Except Fault (List R)} {move : Int → Except Fault P} {baseline : Tensor R}
  {h : R}

theorem length_points_differentiate {calls : Nat} {s : Slice} {column : List R}
    (hok : (differentiate f move baseline h calls s).outcome = .ok column) :
    (differentiate f move baseline h calls s).points.length = 1 := by
  rw [differentiate] at hok ⊢
  cases hmoved : move s.var with
  | error fault =>
    rw [hmoved] at hok
    exact nomatch hok
  | ok point => rfl

theorem length_runWorker {work : List Slice} {calls : Nat} {matrix filled : List (List R)}
    (hok : (runWorker f move baseline h work calls matrix).outcome = .ok filled) :
    (runWorker f move baseline h work calls matrix).points.length = work.length ∧
      filled.length = matrix.length := by
  induction work generalizing calls matrix with
  | nil => exact ⟨rfl, by rw [← Except.ok.inj hok]⟩
  | cons s work ih =>
    rw [runWorker] at hok ⊢
    cases hs : (differentiate f move baseline h calls s).outcome with
    | error fault =>
      simp only [hs] at hok
      exact nomatch hok
    | ok column =>
      simp only [hs] at hok ⊢
      obtain ⟨hpoints, hfilled⟩ := ih hok
      rw [List.length_append, hpoints, length_points_differentiate hs, hfilled, List.length_set]
      exact ⟨Nat.add_comm _ _, rfl⟩

theorem length_runWorkers {works : List (List Slice)} {calls : Nat}
    {matrix filled : List (List R)}
    (hok : (runWorkers f move baseline h works calls matrix).outcome = .ok filled) :
    (runWorkers f move baseline h works calls matrix).points.length = works.flatten.length ∧
      filled.length = matrix.length := by
  induction works generalizing calls matrix with
  | nil => exact ⟨rfl, by rw [← Except.ok.inj hok]⟩
  | cons work works ih =>
    rw [runWorkers] at hok ⊢
    cases hwork : (runWorker f move baseline h work calls matrix).outcome with
    | error fault =>
      simp only [hwork] at hok
      exact nomatch hok
    | ok filled' =>
      simp only [hwork] at hok ⊢
      obtain ⟨hpoints, hfilled⟩ := ih hok
      obtain ⟨hpoints', hfilled'⟩ := length_runWorker hwork
      rw [List.length_append, hpoints, hpoints', List.flatten_cons, List.length_append]
      exact ⟨rfl, hfilled.trans hfilled'⟩

theorem length_computeBy {calls : Nat} {active : List Int} {workers : Except Fault Workers}
    {pattern : Option (Tensor Bool)} {points : List P} {j : Jacobian R}
    (hcalled : computeBy move f calls baseline active h workers pattern = ⟨points, .ok j⟩) :
    points.length = active.length ∧ j.columns.length = active.length := by
  rw [computeBy] at hcalled
  cases workers with
  | error fault => exact nomatch (Called.mk.inj hcalled).2
  | ok w =>
    simp only [Except.bind, slices] at hcalled
    cases hwork : sliceList active pattern with
    | error fault =>
      rw [hwork] at hcalled
      exact nomatch (Called.mk.inj hcalled).2
    | ok work =>
      rw [hwork] at hcalled
      obtain ⟨hpoints, houtcome⟩ := Called.mk.inj hcalled
      have hperm := (numbered_of_sliceList hwork).perm_deal w.count_pos
      cases hrun : (runWorkers f move baseline h (deal w.count work) calls
          (List.replicate active.length (List.replicate baseline.size 0))).outcome with
      | error fault =>
        rw [hrun] at houtcome
        exact nomatch houtcome
      | ok filled =>
        rw [hrun] at houtcome
        obtain ⟨hcalls, hfilled⟩ := length_runWorkers hrun
        rw [← hpoints, ← Except.ok.inj houtcome]
        constructor
        · rw [hcalls, hperm.length_eq, length_sliceList hwork]
        · rw [hfilled, List.length_replicate]

end Jacobian

theorem Problem.length_jacobianFrom {p : Problem R} {calls : Nat} {x : List R}
    {baseline : Tensor R} {points : List (List R)} {j : Jacobian R}
    (hcalled : p.jacobianFrom calls x baseline = ⟨points, .ok j⟩) :
    points.length = p.active.length ∧ j.columns.length = p.active.length := by
  rw [jacobianFrom, jacobianBy] at hcalled
  split at hcalled
  · have hlength := Jacobian.length_computeBy hcalled
    rwa [List.length_map] at hlength
  · exact nomatch (Called.mk.inj hcalled).2

end DampedLeastSquares
