import DampedLeastSquares.Problem.FunctionModel
import DampedLeastSquares.Proofs.Jacobian.Sequential
import DampedLeastSquares.Proofs.Linear.Gram

/-!
# Affine residuals

Where the residuals are `A x + b` there is nothing to approximate. A difference quotient is the
entry of `A` itself, whatever the step, and moving a point by an update adds a combination of
columns of `A` to the residuals. Both are shown here for the problem of an affine function as it
comes out of its constructor: with all its variables active or with some of them, and with a pattern
or without, as long as the pattern does not call anything zero.
-/

open scoped Matrix

namespace DampedLeastSquares

variable {m n : ℕ}

/-! ## Points as vectors -/

namespace Linear

theorem vector_ofFn (v : Fin n → ℝ) : vector n (List.ofFn v) = v := by
  funext i
  simp [vector]

theorem vector_modify {x : List ℝ} (hx : x.length = n) (c : Fin n) (a : ℝ) :
    vector n (x.modify c (· + a)) = vector n x + Pi.single c a := by
  funext i
  have hi : (i : ℕ) < x.length := hx ▸ i.isLt
  rw [Pi.add_apply, Pi.single_apply, vector, vector, List.getD_eq_getElem _ 0 hi,
    List.getD_eq_getElem _ 0 (by rwa [List.length_modify]), List.getElem_modify]
  split
  next h => rw [if_pos (Fin.ext h.symm)]
  next h => rw [if_neg fun heq ↦ h (congrArg Fin.val heq.symm), add_zero]

/-- The columns of a matrix with the given numbers. -/
def columns (A : Matrix (Fin m) (Fin n) ℝ) (S : List (Fin n)) : List (List ℝ) :=
  S.map fun c ↦ List.ofFn (A.col c)

@[simp] theorem length_columns (A : Matrix (Fin m) (Fin n) ℝ) (S : List (Fin n)) :
    (columns A S).length = S.length := List.length_map _

theorem length_of_mem_columns {A : Matrix (Fin m) (Fin n) ℝ} {S : List (Fin n)} {u : List ℝ}
    (hu : u ∈ columns A S) : u.length = m := by
  obtain ⟨c, -, rfl⟩ := List.mem_map.mp hu
  exact List.length_ofFn

/-- The values of the affine function `A x + b`. -/
def affine (A : Matrix (Fin m) (Fin n) ℝ) (b : Fin m → ℝ) (x : List ℝ) : List ℝ :=
  List.ofFn (A *ᵥ vector n x + b)

@[simp] theorem length_affine (A : Matrix (Fin m) (Fin n) ℝ) (b : Fin m → ℝ) (x : List ℝ) :
    (affine A b x).length = m := List.length_ofFn

/-- Moving a point along a coordinate moves the values along a column. -/
theorem mulVec_vector_modify (A : Matrix (Fin m) (Fin n) ℝ) {x : List ℝ} (hx : x.length = n)
    (c : Fin n) (a : ℝ) :
    A *ᵥ vector n (x.modify c (· + a)) = A *ᵥ vector n x + a • A.col c := by
  rw [vector_modify hx, Matrix.mulVec_add, Matrix.mulVec_single, op_smul_eq_smul]

end Linear

theorem moveEntry_natCast {R : Type} [Scalar R] {x : List R} {i : ℕ} (h : i < x.length) (a : R) :
    moveEntry x i (.ok a) = .ok (x.modify i (· + a)) := by
  rw [moveEntry, position?_natCast h]
  rfl

theorem Jacobian.keeps_of_forall {t : Tensor Bool} {rows width r c : ℕ}
    (hshape : t.shape = [rows, width]) (hall : ∀ kept ∈ t.entries, kept = true) (hr : r < rows)
    (hc : c < width) : keeps (some t) r c = true := by
  have hlength : t.entries.length = rows * width := by
    rw [t.length_entries, hshape, Tensor.count, Tensor.count, Tensor.count, Nat.mul_one]
  have hlt : r * width + c < t.entries.length := by
    rw [hlength]
    calc r * width + c < r * width + width := Nat.add_lt_add_left hc _
      _ = (r + 1) * width := (Nat.succ_mul r width).symm
      _ ≤ rows * width := Nat.mul_le_mul_right width hr
  rw [keeps, Option.all_some, decide_eq_true_iff, Tensor.at?, hshape]
  dsimp only
  rw [List.getElem?_eq_getElem hlt, hall _ (List.getElem_mem hlt)]

/-! ## The problem of an affine function -/

/-- The problem is to make `A x + b` small, and no pattern hides an entry of `A`. -/
structure Problem.IsAffine (p : Problem ℝ) (A : Matrix (Fin m) (Fin n) ℝ) (b : Fin m → ℝ) :
    Prop where
  /-- There is a condition for each row. -/
  conditions : p.conditions = m
  /-- There is a variable for each column. -/
  dimension : p.dimension = n
  /-- The residuals are the values of the function. -/
  residual : ∀ calls x, p.residual calls x = .ok (Linear.affine A b x)
  /-- Points with an entry for each variable can be committed. -/
  accepts : p.accepts = FunctionModel.fits n
  /-- The step of a difference quotient is positive. -/
  diffStep : 0 < p.diffStep.toScalar
  /-- There are workers. -/
  workers : ∃ w, p.workers = .ok w
  /-- A pattern, if there is one, keeps every entry. -/
  pattern : ∀ t ∈ p.pattern, ∀ kept ∈ t.entries, kept = true

namespace Problem.IsAffine

variable {p : Problem ℝ} {A : Matrix (Fin m) (Fin n) ℝ} {b : Fin m → ℝ}

theorem exists_active (h : p.IsAffine A b) : ∃ S : List (Fin n), p.active = S.map Fin.val := by
  have hlt : ∀ i ∈ p.active, i < n := fun i hi ↦ by
    have := p.active_lt i hi
    rw [h.dimension] at this
    exact Int.ofNat_lt.mp this
  exact ⟨p.active.pmap Fin.mk hlt, by rw [List.map_pmap, List.pmap_eq_map, List.map_id']⟩

theorem shape_of_mem_pattern (h : p.IsAffine A b) {t : Tensor Bool} (ht : t ∈ p.pattern) :
    t.shape = [m, n] := by
  have hshape := p.pattern_shape t ht
  rw [h.conditions, h.dimension] at hshape
  exact List.map_injective_iff.mpr (fun _ _ ↦ Int.ofNat.inj) hshape

theorem setActive? (h : p.IsAffine A b) {indices : List Number} {p' : Problem ℝ}
    (hset : p.setActive? indices = .ok (some p')) : p'.IsAffine A b := by
  obtain ⟨active, active_nodup, active_lt, rfl⟩ := Problem.exists_of_setActive? hset
  exact ⟨h.conditions, h.dimension, h.residual, h.accepts, h.diffStep, h.workers, h.pattern⟩

section

variable (h : p.IsAffine A b) {x : List ℝ} (hx : x.length = n)

include h hx

theorem perturbed (c : Fin n) :
    Jacobian.perturbed p.residual x (Linear.affine A b x) p.diffStep (c : ℕ)
      = .ok (Linear.affine A b (x.modify c (· + p.diffStep.toScalar))) := by
  rw [Jacobian.perturbed, Amount.read_eq, moveEntry_natCast (hx ▸ c.isLt)]
  simp only [Except.bind, h.residual, Linear.length_affine, if_true]

theorem eq_of_isColumn {c : Fin n} {column : List ℝ}
    (hcolumn : Jacobian.IsColumn p.pattern p.diffStep.toScalar (Linear.affine A b x)
      (Linear.affine A b (x.modify c (· + p.diffStep.toScalar))) c column) :
    column = List.ofFn (A.col c) := by
  have hlength := hcolumn.length
  rw [Linear.length_affine] at hlength
  refine List.ext_getElem (by rw [hlength, List.length_ofFn]) fun r hr _ ↦ ?_
  have hr' : r < m := hlength ▸ hr
  have hkeeps : Jacobian.keeps p.pattern r c = true := by
    cases hpattern : p.pattern with
    | none => rfl
    | some t =>
      exact Jacobian.keeps_of_forall (h.shape_of_mem_pattern hpattern) (h.pattern t hpattern) hr'
        c.isLt
  have hentry := hcolumn.entry r _ _ (List.getElem?_eq_getElem (by simpa using hr'))
    (List.getElem?_eq_getElem (by simpa using hr'))
  rw [List.getElem?_eq_getElem hr, Option.some.injEq, hkeeps, if_pos rfl] at hentry
  rw [hentry, List.getElem_ofFn]
  simp only [Linear.affine, List.getElem_ofFn, Linear.mulVec_vector_modify A hx]
  have hstep := h.diffStep.ne'
  simp only [Pi.add_apply, Pi.smul_apply, smul_eq_mul]
  field_simp
  ring

omit hx in
theorem exists_jacobianFrom_eq_compute {S : List (Fin n)} (hS : p.active = S.map Fin.val)
    (calls : ℕ) (x : List ℝ) : ∃ w, p.jacobianFrom calls x (Tensor.ofList (Linear.affine A b x))
      = Jacobian.compute p.residual calls x (Tensor.ofList (Linear.affine A b x))
        (S.map fun c : Fin n ↦ ((c : ℕ) : ℤ)) p.diffStep (.ok w) p.pattern := by
  obtain ⟨w, hw⟩ := h.workers
  have hactive : p.active.map Int.ofNat = S.map fun c : Fin n ↦ ((c : ℕ) : ℤ) := by
    rw [hS, List.map_map]
    rfl
  have hsize : ((Tensor.ofList (Linear.affine A b x)).size : ℤ) = p.conditions := by
    rw [Tensor.size_ofList, Linear.length_affine, h.conditions]
  refine ⟨w, ?_⟩
  rw [Problem.jacobianFrom, jacobianBy, if_pos hsize, hactive, hw]
  rfl

/-- **The Jacobian consists of the columns of the active variables.** -/
theorem exists_jacobianFrom {S : List (Fin n)} (hS : p.active = S.map Fin.val) (calls : ℕ) :
    ∃ points, p.jacobianFrom calls x (Tensor.ofList (Linear.affine A b x))
      = ⟨points, .ok ⟨m, Linear.columns A S⟩⟩ := by
  obtain ⟨w, hcompute⟩ := h.exists_jacobianFrom_eq_compute hS calls x
  have hpositions : ∀ var ∈ S.map fun c : Fin n ↦ ((c : ℕ) : ℤ), ∃ v,
      position? var x.length = some v := by
    intro var hvar
    obtain ⟨c, -, rfl⟩ := List.mem_map.mp hvar
    exact ⟨c, position?_natCast (hx ▸ c.isLt)⟩
  have hpattern : ∀ t ∈ p.pattern, t.shape = [(Linear.affine A b x).length, x.length] := by
    intro t ht
    rw [h.shape_of_mem_pattern ht, Linear.length_affine, hx]
  have hpure : ∀ calls z, p.residual calls z = p.residual 0 z := fun calls z ↦ by
    rw [h.residual, h.residual]
  obtain ⟨⟨j, hj, hrows, hlength, hcolumns⟩, -⟩ :=
    (Jacobian.sequential_compute (h := p.diffStep) hpositions hpattern hpure w calls).computed <| by
      intro var hvar
      obtain ⟨c, -, rfl⟩ := List.mem_map.mp hvar
      exact ⟨_, h.perturbed hx c⟩
  have hmatrix : j.columns = Linear.columns A S := by
    rw [Linear.columns]
    rw [List.length_map] at hlength
    refine List.ext_getElem (by rw [hlength, List.length_map]) fun i hi hi' ↦ ?_
    rw [List.length_map] at hi'
    obtain ⟨column, hcolumn, hentries⟩ := hcolumns i _ _ _
      (List.getElem?_eq_getElem (by rwa [List.length_map]))
      (by rw [List.getElem_map]; exact position?_natCast (S[i].isLt.trans_eq hx.symm))
      (by rw [List.getElem_map]; exact h.perturbed hx S[i])
    rw [List.getElem?_eq_getElem hi, Option.some.injEq] at hcolumn
    rw [hcolumn, h.eq_of_isColumn hx hentries, List.getElem_map]
  rw [Linear.length_affine] at hrows
  refine ⟨_, hcompute.trans (congrArg (Called.mk _) (hj.trans ?_))⟩
  rw [← hmatrix, ← hrows]

end

end Problem.IsAffine

/-! ## Updates -/

namespace Linear

theorem ofColumns_nil_mulVec (v : Fin 0 → ℝ) : ofColumns m [] *ᵥ v = 0 :=
  funext fun r ↦ Fin.sum_univ_zero fun k ↦ ofColumns m [] r k * v k

theorem ofColumns_cons_mulVec (u : List ℝ) (columns : List (List ℝ))
    (v : Fin (columns.length + 1) → ℝ) :
    ofColumns m (u :: columns) *ᵥ v
      = v 0 • vector m u + ofColumns m columns *ᵥ fun k ↦ v k.succ := by
  funext r
  refine (Fin.sum_univ_succ _).trans (congrArg (· + _) ?_)
  exact mul_comm _ _

end Linear

namespace Problem

/-- Moving a point along some coordinates adds a combination of their columns to the values. -/
theorem exists_addUpdate (A : Matrix (Fin m) (Fin n) ℝ) (update : List ℝ) (S : List (Fin n))
    {i : ℕ} (hupdate : i + S.length ≤ update.length) {x : List ℝ} (hx : x.length = n) :
    ∃ x', addUpdate moveEntry update (S.map Fin.val) i x = .ok x' ∧ x'.length = n ∧
      (∀ c, c ∉ S.map Fin.val → x'[c]? = x[c]?) ∧
      A *ᵥ Linear.vector n x' = A *ᵥ Linear.vector n x
        + Linear.ofColumns m (Linear.columns A S) *ᵥ fun k ↦ update.getD (i + k) 0 := by
  induction S generalizing i x with
  | nil =>
    refine ⟨x, rfl, hx, fun _ _ ↦ rfl, ?_⟩
    exact ((congrArg _ (Linear.ofColumns_nil_mulVec _)).trans (add_zero _)).symm
  | cons c S ih =>
    rw [List.length_cons] at hupdate
    have hi : i < update.length := by omega
    have hmove : moveEntry x ((c : ℕ) : ℤ) (updateEntry update i)
        = .ok (x.modify c (· + update[i])) := by
      rw [updateEntry, List.getElem?_eq_getElem hi]
      exact moveEntry_natCast (hx ▸ c.isLt) _
    obtain ⟨x', hx', hlength, hframe, hvalues⟩ := ih (i := i + 1) (by omega)
      (x := x.modify c (· + update[i])) (by rw [List.length_modify, hx])
    refine ⟨x', ?_, hlength, fun c' hc' ↦ ?_, ?_⟩
    · rw [List.map_cons, addUpdate, hmove]
      exact hx'
    · rw [List.map_cons, List.mem_cons, not_or] at hc'
      rw [hframe c' hc'.2, List.getElem?_modify_ne _ _ (Ne.symm hc'.1)]
    · have hshift : (fun k : Fin (Linear.columns A S).length ↦ update.getD (i + 1 + k) 0)
          = fun k ↦ update.getD (i + k.succ) 0 := by
        funext k
        rw [Fin.val_succ, Nat.add_assoc, Nat.add_comm 1]
      have hfirst : update.getD (i + 0) 0 • Linear.vector m (List.ofFn (A.col c))
          = update[i] • A.col c := by
        rw [Linear.vector_ofFn, Nat.add_zero, List.getD_eq_getElem _ 0 hi]
      rw [hvalues, Linear.mulVec_vector_modify A hx, hshift, add_assoc, ← hfirst]
      exact congrArg (A *ᵥ Linear.vector n x + ·)
        (Linear.ofColumns_cons_mulVec (List.ofFn (A.col c)) (Linear.columns A S)
          fun k ↦ update.getD (i + k) 0).symm

end Problem

theorem FunctionModel.isAffine_of_make {A : Matrix (Fin m) (Fin n) ℝ} {b : Fin m → ℝ}
    {diffStep : Amount ℝ} (hstep : 0 < diffStep.toScalar) {w : Workers}
    {pattern : Option (Tensor Bool)} (hpattern : ∀ t ∈ pattern, ∀ kept ∈ t.entries, kept = true)
    {solution : Option (Tensor ℝ)} {model : FunctionModel ℝ}
    (h : make m n (fun _ x ↦ .ok (Linear.affine A b x)) diffStep (.ok w) pattern solution
      = .ok model) : model.problem.IsAffine A b := by
  obtain ⟨problem, hmade, rfl⟩ := exists_of_make h
  obtain ⟨pattern_shape, rfl⟩ := Problem.exists_of_make hmade
  exact ⟨rfl, rfl, fun _ _ ↦ rfl, rfl, hstep, ⟨w, rfl⟩, hpattern⟩

theorem FunctionModel.isAffine_of_setActive? {A : Matrix (Fin m) (Fin n) ℝ} {b : Fin m → ℝ}
    {model model' : FunctionModel ℝ} (hp : model.problem.IsAffine A b) {indices : List Number}
    (h : model.setActive? indices = .ok (some model')) : model'.problem.IsAffine A b := by
  obtain ⟨problem, hset, rfl⟩ := exists_of_setActive? h
  exact hp.setActive? hset

end DampedLeastSquares
