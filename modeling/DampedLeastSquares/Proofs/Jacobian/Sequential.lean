import DampedLeastSquares.Proofs.Jacobian.Distribution
import DampedLeastSquares.Proofs.Jacobian.Schedule
import DampedLeastSquares.Proofs.Scalar.Order

/-!
# The Jacobian column by column

What a Jacobian should be can be said without workers: each column is a difference quotient of its
own, and each entry a quotient of two numbers, or zero where the pattern says so. That is what comes
of every schedule, with as many calls of the residual function as there are columns. If some columns
fail then the number of workers decides which failure is reported, and the schedule does not.
-/

namespace DampedLeastSquares

/-! ## Columns of a matrix -/

namespace Tensor

variable {α : Type}

/-- The entry of a matrix in a row and a column. -/
def at? (t : Tensor α) (row column : Nat) : Option α :=
  match t.shape with
  | [_, width] => t.entries[row * width + column]?
  | _ => none

private theorem getElem?_flatMap_chunks {width rows j : Nat} (hj : j < width) {entries : List α}
    (hlength : entries.length = rows * width) {r : Nat} (hr : r < rows) :
    ((chunks width rows entries).flatMap fun row ↦ (row.drop j).take 1)[r]?
      = entries[r * width + j]? := by
  induction rows generalizing entries r with
  | zero => exact absurd hr (Nat.not_lt_zero r)
  | succ rows ih =>
    rw [Nat.succ_mul] at hlength
    have hjlt : j < entries.length := by omega
    have hlt : j < (entries.take width).length := by
      rw [List.length_take]
      exact Nat.lt_min.mpr ⟨hj, hjlt⟩
    have hfirst : ((entries.take width).drop j).take 1 = [entries[j]] := by
      rw [List.drop_eq_getElem_cons hlt, List.take_succ_cons, List.take_zero, List.getElem_take]
    rw [chunks, List.flatMap_cons, hfirst]
    cases r with
    | zero =>
      rw [Nat.zero_mul, Nat.zero_add, List.getElem?_eq_getElem hjlt]
      rfl
    | succ r =>
      have hdrop : (entries.drop width).length = rows * width := by
        rw [List.length_drop]
        omega
      rw [List.singleton_append, List.getElem?_cons_succ,
        ih hdrop (Nat.lt_of_succ_lt_succ hr), List.getElem?_drop, Nat.succ_mul]
      congr 1
      omega

theorem exists_column {t : Tensor α} {rows width j : Nat} {index : Int}
    (hshape : t.shape = [rows, width]) (hj : position? index width = some j) :
    ∃ column, t.column index = .ok column ∧ column.shape = [rows] ∧
      ∀ r, r < rows → column.entries[r]? = t.at? r j := by
  obtain ⟨shape, entries, hlength⟩ := t
  obtain rfl : shape = [rows, width] := hshape
  have hlength' : entries.length = rows * width := by rw [hlength, count, count, count, Nat.mul_one]
  simp only [column]
  split
  next j' hj' =>
    obtain rfl := Option.some.inj (hj'.symm.trans hj)
    refine ⟨_, rfl, rfl, fun r hr ↦ ?_⟩
    have hentry := getElem?_flatMap_chunks (position?_lt hj) hlength' hr
    simpa only [at?, count, Nat.mul_one] using hentry
  next hnone => exact nomatch hnone.symm.trans hj

end Tensor

namespace Jacobian

variable {R : Type} [Scalar R]

/-! ## Difference quotients -/

/-- Whether a pattern keeps an entry. -/
def keeps (pattern : Option (Tensor Bool)) (row column : Nat) : Bool :=
  pattern.all fun p ↦ p.at? row column = some true

/-- The residuals at a point of which one variable is perturbed, provided they are as many as at the
point itself. -/
def perturbed (f : Residual R) (x y : List R) (h : Amount R) (var : Int) :
    Except Fault (List R) :=
  (moveEntry x var h.read).bind fun point ↦ (f 0 point).bind fun z ↦
    if y.length = z.length then .ok z else .error (.shapeChanged var [z.length] [y.length])

/-- A column has the difference quotients between `z` and `y`, except where the pattern does not
keep them. -/
structure IsColumn (pattern : Option (Tensor Bool)) (h : R) (y z : List R) (var : Nat)
    (column : List R) : Prop where
  /-- There is an entry for each condition. -/
  length : column.length = y.length
  /-- An entry is a quotient or zero. -/
  entry : ∀ (r : Nat) (a b : R), z[r]? = some a → y[r]? = some b →
    column[r]? = some (if keeps pattern r var then (a - b) / h else 0)

theorem dropUnitAxes_singleton (n : Nat) : dropUnitAxes [n] = [n] := by
  rw [dropUnitAxes]
  exact nofun

theorem applyMask_eq {mask : Tensor Bool} {column : List R}
    (hshape : mask.shape = [column.length]) :
    applyMask mask column
      = .ok (List.zipWith (fun kept a ↦ if kept then a else 0) mask.entries column) := by
  have hlength : mask.entries.length = column.length := by
    rw [mask.length_entries, hshape, Tensor.count, Tensor.count, Nat.mul_one]
  have hlast : mask.shape.getLastD 1 = column.length := by
    rw [hshape]
    rfl
  have hinit : mask.shape.dropLast = [] := by
    rw [hshape]
    rfl
  simp only [applyMask, hlast, hinit, List.nil_append, ite_self, dropUnitAxes_singleton, ne_eq,
    not_true_eq_false, and_false, if_false, if_true]
  -- A mask of one entry stands for any number of them, but here for one.
  split
  next kept hmask =>
    rw [hmask, List.length_singleton] at hlength
    obtain ⟨a, rfl⟩ := List.length_eq_one_iff.mp hlength.symm
    rw [hmask]
    rfl
  · rfl

theorem exists_quotient {pattern : Option (Tensor Bool)} {s : Slice} {y z : List R}
    {width var : Nat} (hmasked : s.Masked pattern) (hvar : position? s.var width = some var)
    (hpattern : ∀ p ∈ pattern, p.shape = [y.length, width]) (hz : y.length = z.length) (h : R) :
    ∃ column, quotient (.ofList y) h s z = .ok column ∧ IsColumn pattern h y z var column := by
  have hquotients : ∀ (r : Nat) (a b : R), z[r]? = some a → y[r]? = some b →
      (List.zipWith (fun a b ↦ (a - b) / h) z y)[r]? = some ((a - b) / h) := by
    intro r a b ha hb
    rw [List.getElem?_zipWith, ha, hb]
  have hlength : (List.zipWith (fun a b ↦ (a - b) / h) z y).length = y.length := by
    rw [List.length_zipWith, ← hz, Nat.min_self]
  have hshape : (Tensor.ofList y).shape = [z.length] := congrArg (fun n ↦ [n]) hz
  have hentries : (Tensor.ofList y).entries = y := rfl
  simp only [quotient, if_pos hshape, hentries]
  cases pattern with
  | none =>
    have hmask : s.mask = none := hmasked
    rw [hmask]
    exact ⟨_, rfl, hlength, fun r a b ha hb ↦ hquotients r a b ha hb⟩
  | some p =>
    obtain ⟨mask, hcolumn, hmask⟩ := hmasked
    obtain ⟨mask', hcolumn', hmaskShape, hentries⟩ := Tensor.exists_column (hpattern p rfl) hvar
    obtain rfl := Except.ok.inj (hcolumn.symm.trans hcolumn')
    have hmaskLength : mask.entries.length = y.length := by
      rw [mask.length_entries, hmaskShape, Tensor.count, Tensor.count, Nat.mul_one]
    rw [hmask]
    refine ⟨_, applyMask_eq (hmaskShape.trans (congrArg (fun n ↦ [n]) hlength.symm)), ?_, ?_⟩
    · rw [List.length_zipWith, hmaskLength, hlength, Nat.min_self]
    · intro r a b ha hb
      have hr : r < y.length := (List.getElem?_eq_some_iff.mp hb).1
      have hkept := hentries r hr
      rw [List.getElem?_eq_getElem (hmaskLength.symm ▸ hr)] at hkept
      rw [List.getElem?_zipWith, hquotients r a b ha hb,
        List.getElem?_eq_getElem (hmaskLength.symm ▸ hr)]
      simp only [keeps, Option.all_some, ← hkept, Option.some.injEq, Bool.decide_eq_true]

/-! ## The work on one column -/

section

variable {f : Residual R} {x y : List R} {h : Amount R} {pattern : Option (Tensor Bool)}
  {s : Slice} {var : Nat}

theorem exists_differentiate (hmasked : s.Masked pattern)
    (hvar : position? s.var x.length = some var)
    (hpattern : ∀ p ∈ pattern, p.shape = [y.length, x.length]) {z : List R}
    (hz : perturbed f x y h s.var = .ok z) :
    ∃ point column, moveEntry x s.var h.read = .ok point ∧
      differentiate f (moveEntry x · h.read) (.ofList y) h.toScalar 0 s = ⟨[point], .ok column⟩ ∧
      IsColumn pattern h.toScalar y z var column := by
  rw [perturbed] at hz
  rw [differentiate]
  cases hmoved : moveEntry x s.var h.read with
  | error fault =>
    rw [hmoved] at hz
    cases hz
  | ok point =>
    rw [hmoved] at hz
    cases hevaluated : f 0 point with
    | error fault =>
      simp only [Except.bind, hevaluated] at hz
      cases hz
    | ok z' =>
      simp only [Except.bind, hevaluated] at hz
      split at hz
      next hlength =>
        obtain rfl := Except.ok.inj hz
        obtain ⟨column, hcolumn, hentries⟩ :=
          exists_quotient hmasked hvar hpattern hlength h.toScalar
        refine ⟨point, column, rfl, ?_, hentries⟩
        simp only [hevaluated, Except.bind, hcolumn]
      · cases hz

theorem outcome_differentiate {fault : Fault} (hfault : perturbed f x y h s.var = .error fault) :
    (differentiate f (moveEntry x · h.read) (.ofList y) h.toScalar 0 s).outcome
      = .error fault := by
  rw [perturbed] at hfault
  rw [differentiate]
  cases hmoved : moveEntry x s.var h.read with
  | error fault' =>
    rw [hmoved] at hfault
    exact congrArg Except.error (Except.error.inj hfault)
  | ok point =>
    rw [hmoved] at hfault
    cases hevaluated : f 0 point with
    | error fault' =>
      simp only [Except.bind, hevaluated] at hfault ⊢
      exact congrArg Except.error (Except.error.inj hfault)
    | ok z =>
      simp only [Except.bind, hevaluated] at hfault ⊢
      split at hfault
      · cases hfault
      next hlength =>
        have hshape : (Tensor.ofList y).shape ≠ [z.length] :=
          fun heq ↦ hlength (List.cons.inj heq).1
        rw [quotient, if_neg hshape]
        exact hfault

end

/-! ## All columns -/

/-- A computation of the Jacobian at `x`, given the residuals `y` there, has come to what the
columns come to one by one. Where columns fail, the number `n` of workers decides which of them
counts. -/
structure Sequential (f : Residual R) (x y : List R) (active : List Int) (h : Amount R)
    (pattern : Option (Tensor Bool)) (n : Nat) (called : Called (List R) (Jacobian R)) : Prop where
  /-- If no column fails then every column is what it should be, and the residual function has been
  called once for each, at the point with its variable perturbed. -/
  computed : (∀ var ∈ active, ∃ z, perturbed f x y h var = .ok z) →
    (∃ j, called.outcome = .ok j ∧ j.conditions = y.length ∧ j.columns.length = active.length ∧
      ∀ (i : Nat) (var : Int) (v : Nat) (z : List R), active[i]? = some var →
        position? var x.length = some v → perturbed f x y h var = .ok z →
        ∃ column, j.columns[i]? = some column ∧ IsColumn pattern h.toScalar y z v column) ∧
    (called.points.map Except.ok).Perm (active.map fun var ↦ moveEntry x var h.read)
  /-- The fault is that of the first column to fail, in the order of the hands. -/
  failed : ∀ (i : Nat) (var : Int) (fault : Fault), active[i]? = some var →
    perturbed f x y h var = .error fault →
    (∀ (j : Nat) (var' : Int), active[j]? = some var' → Before n j i →
      ∃ z, perturbed f x y h var' = .ok z) →
    called.outcome = .error fault
  /-- There is a fault exactly if some column fails. -/
  failed_iff : (∃ fault, called.outcome = .error fault) ↔
    ∃ var ∈ active, ∃ fault, perturbed f x y h var = .error fault

theorem faultOf_of_error {f : Residual R} {x y : List R} {h : Amount R} {s : Slice} {fault : Fault}
    (hfault : perturbed f x y h s.var = .error fault) :
    faultOf f (moveEntry x · h.read) (.ofList y) h.toScalar s = some fault := by
  rw [faultOf, outcome_differentiate hfault]

section

variable {f : Residual R} {x y : List R} {active : List Int} {h : Amount R}
  {pattern : Option (Tensor Bool)} {work log : List Slice} {n : Nat}
  (hwork : sliceList active pattern = .ok work)
  (hactive : ∀ var ∈ active, ∃ v, position? var x.length = some v)
  (hpattern : ∀ p ∈ pattern, p.shape = [y.length, x.length])

include hwork hactive hpattern

theorem exists_differentiate_of_mem {s : Slice} (hs : s ∈ work)
    (hok : ∃ z, perturbed f x y h s.var = .ok z) :
    ∃ point column, moveEntry x s.var h.read = .ok point ∧
      differentiate f (moveEntry x · h.read) (.ofList y) h.toScalar 0 s
        = ⟨[point], .ok column⟩ := by
  obtain ⟨hvar, hmasked⟩ := getElem?_of_mem_sliceList hwork hs
  obtain ⟨v, hv⟩ := hactive s.var (List.mem_of_getElem? hvar)
  obtain ⟨z, hz⟩ := hok
  obtain ⟨point, column, hmoved, hcalled, -⟩ := exists_differentiate hmasked hv hpattern hz
  exact ⟨point, column, hmoved, hcalled⟩

theorem firstFault_eq_none_iff_perturbed (hlog : log.Perm work) :
    firstFault f (moveEntry x · h.read) (.ofList y) h.toScalar log = none ↔
      ∀ var ∈ active, ∃ z, perturbed f x y h var = .ok z := by
  rw [firstFault_eq_none_iff]
  constructor
  · intro hall var hvar
    obtain ⟨i, hi⟩ := List.mem_iff_getElem?.mp hvar
    obtain ⟨s, hs, -, rfl, -⟩ := exists_slice hwork hi
    obtain ⟨column, hcolumn⟩ := hall s (hlog.mem_iff.mpr (List.mem_of_getElem? hs))
    cases hz : perturbed f x y h s.var with
    | ok z => exact ⟨z, rfl⟩
    | error fault => exact nomatch hcolumn.symm.trans (outcome_differentiate hz)
  · intro hall s hs
    have hs := hlog.mem_iff.mp hs
    have hvar := List.mem_of_getElem? (getElem?_of_mem_sliceList hwork hs).1
    obtain ⟨point, column, -, hcalled⟩ :=
      exists_differentiate_of_mem hwork hactive hpattern hs (hall s.var hvar)
    exact ⟨column, by rw [hcalled]⟩

theorem perm_pointsOf (hlog : log.Perm work)
    (hok : ∀ var ∈ active, ∃ z, perturbed f x y h var = .ok z) :
    ((pointsOf f (moveEntry x · h.read) (.ofList y) h.toScalar log).map Except.ok).Perm
      (active.map fun var ↦ moveEntry x var h.read) := by
  have hcalls : ∀ s ∈ log, (differentiate f (moveEntry x · h.read) (.ofList y) h.toScalar 0
      s).points.map (Except.ok (ε := Fault)) = [moveEntry x s.var h.read] := by
    intro s hs
    have hs := hlog.mem_iff.mp hs
    have hvar := List.mem_of_getElem? (getElem?_of_mem_sliceList hwork hs).1
    obtain ⟨point, column, hmoved, hcalled⟩ :=
      exists_differentiate_of_mem hwork hactive hpattern hs (hok s.var hvar)
    rw [hcalled, hmoved]
    rfl
  rw [← map_var_sliceList hwork, List.map_map, pointsOf, List.map_flatMap,
    List.flatMap_congr hcalls, ← List.map_eq_flatMap]
  exact hlog.map _

/-- The first fault of the dealt work is that of the first column to fail. -/
theorem firstFault_deal (hn : 0 < n) {i : Nat} {var : Int} {fault : Fault}
    (hi : active[i]? = some var) (hfault : perturbed f x y h var = .error fault)
    (hbefore : ∀ (j : Nat) (var' : Int), active[j]? = some var' → Before n j i →
      ∃ z, perturbed f x y h var' = .ok z) :
    firstFault f (moveEntry x · h.read) (.ofList y) h.toScalar (deal n work).flatten
      = some fault := by
  have hnumbered := numbered_of_sliceList hwork
  have hdealt := hnumbered.perm_deal hn
  obtain ⟨s, hs, rfl, rfl, -⟩ := exists_slice hwork hi
  obtain ⟨before, after, hsplit⟩ :=
    List.append_of_mem (hdealt.mem_iff.mpr (List.mem_of_getElem? hs))
  have hpairwise := hnumbered.pairwise_deal n
  rw [hsplit, List.pairwise_append] at hpairwise
  -- Whatever is dealt before this slice is about a column that does not fail.
  have hfirst : firstFault f (moveEntry x · h.read) (.ofList y) h.toScalar before = none := by
    refine firstFault_eq_none_iff.mpr fun t ht ↦ ?_
    have htwork : t ∈ work := hdealt.mem_iff.mp (hsplit ▸ List.mem_append_left _ ht)
    have hvar := (getElem?_of_mem_sliceList hwork htwork).1
    obtain ⟨point, column, -, hcalled⟩ := exists_differentiate_of_mem hwork hactive hpattern htwork
      (hbefore t.column t.var hvar (hpairwise.2.2 t ht s List.mem_cons_self))
    exact ⟨column, by rw [hcalled]⟩
  rw [hsplit, firstFault_append, hfirst, Option.none_or, firstFault, List.findSome?_cons,
    faultOf_of_error hfault]

/-- **What all the work comes to is the sequential definition.** -/
theorem sequential_of_ran (hn : 0 < n) {called : Called (List R) (List (List R))}
    (hran : Ran f (moveEntry x · h.read) (.ofList y) h.toScalar (deal n work).flatten
      (List.replicate active.length (List.replicate y.length 0)) called) :
    Sequential f x y active h pattern n
      ⟨called.points, called.outcome.map (Jacobian.mk y.length)⟩ := by
  have hnumbered := numbered_of_sliceList hwork
  have hdealt := hnumbered.perm_deal hn
  have hnone : firstFault f (moveEntry x · h.read) (.ofList y) h.toScalar (deal n work).flatten
      = none ↔ ∀ var ∈ active, ∃ z, perturbed f x y h var = .ok z :=
    firstFault_eq_none_iff_perturbed hwork hactive hpattern hdealt
  refine ⟨fun hall ↦ ?_, fun i var fault hi hfault hbefore ↦ ?_, ?_, ?_⟩
  · obtain ⟨log, hlog, houtcome, hpoints⟩ := hran.filled (hnone.mpr hall)
    rw [houtcome, hpoints]
    refine ⟨⟨_, rfl, rfl, ?_, ?_⟩, perm_pointsOf hwork hactive hpattern (hlog.trans hdealt) hall⟩
    · rw [length_fill, List.length_replicate]
    · intro i var v z hi hv hz
      obtain ⟨s, hs, rfl, rfl, hmasked⟩ := exists_slice hwork hi
      obtain ⟨point, column, -, hcalled, hcolumn⟩ := exists_differentiate hmasked hv hpattern hz
      have hsmem : s ∈ log := (hlog.trans hdealt).mem_iff.mpr (List.mem_of_getElem? hs)
      have hlt : s.column < active.length := (List.getElem?_eq_some_iff.mp hi).1
      -- The order of the log is anybody's guess, but no column is filled twice.
      have hnodup : (log.map Slice.column).Nodup :=
        (hlog.map _).nodup_iff.mpr (hnumbered.nodup_deal n)
      refine ⟨column, ?_, hcolumn⟩
      exact getElem?_fill hnodup hsmem (by rw [hcalled]) (by rwa [List.length_replicate])
  · have hfirst := firstFault_deal hwork hactive hpattern hn hi hfault hbefore
    exact congrArg (Except.map (Jacobian.mk y.length)) (hran.fault fault hfirst)
  · rintro ⟨fault, hfault⟩
    by_contra! hall
    have hok : ∀ var ∈ active, ∃ z, perturbed f x y h var = .ok z := by
      intro var hvar
      cases hz : perturbed f x y h var with
      | ok z => exact ⟨z, rfl⟩
      | error fault => exact absurd hz (hall var hvar fault)
    obtain ⟨log, -, houtcome, -⟩ := hran.filled (hnone.mpr hok)
    rw [houtcome] at hfault
    exact nomatch hfault
  · rintro ⟨var, hvar, fault, hfault⟩
    cases hfirst : firstFault f (moveEntry x · h.read) (.ofList y) h.toScalar
        (deal n work).flatten with
    | some fault' => exact ⟨fault', congrArg (Except.map _) (hran.fault fault' hfirst)⟩
    | none =>
      obtain ⟨z, hz⟩ := hnone.mp hfirst var hvar
      exact nomatch hfault.symm.trans hz

omit hwork in
/-- One worker after another comes to the sequential definition, if the residual function is pure.
-/
theorem sequential_compute (hf : ∀ n x, f n x = f 0 x) (w : Workers) (calls : Nat) :
    Sequential f x y active h pattern w.count
      (compute f calls x (.ofList y) active h (.ok w) pattern) := by
  have hcolumns : ∀ p ∈ pattern, ∀ var ∈ active, ∃ mask, p.column var = .ok mask := by
    intro p hp var hvar
    obtain ⟨v, hv⟩ := hactive var hvar
    obtain ⟨mask, hmask, -⟩ := Tensor.exists_column (hpattern p hp) hv
    exact ⟨mask, hmask⟩
  obtain ⟨work, hwork⟩ := exists_sliceList hcolumns
  simp only [compute, computeBy, Except.bind, slices, hwork, Except.map, Tensor.size_ofList]
  exact sequential_of_ran hwork hactive hpattern w.count_pos
    (ranInOrder_runWorkers hf (deal w.count work) calls _).ran

end

/-- The workers of a Jacobian at `x` after the turns of a schedule. -/
def poolAfter (f : Residual R) (x y : List R) (active : List Int) (h : Amount R)
    (works : List (List Slice)) (schedule : List Nat) : Pool (List R) R :=
  (Pool.start works (List.replicate active.length (List.replicate y.length 0))).run f
    (moveEntry x · h.read) (.ofList y) h.toScalar schedule

/-- **Every schedule computes the Jacobian that the columns define one by one**, if the residual
function is pure, and so does one worker after another. -/
theorem sequential_of_every_schedule {f : Residual R} (hf : ∀ n x, f n x = f 0 x) {x y : List R}
    {active : List Int} (hactive : ∀ var ∈ active, ∃ v, position? var x.length = some v)
    {pattern : Option (Tensor Bool)} (hpattern : ∀ p ∈ pattern, p.shape = [y.length, x.length])
    (h : Amount R) (w : Workers) :
    (∃ works, slices active w pattern = .ok works ∧ ∀ schedule : List Nat,
      ((∀ k, k < w.count → active.length ≤ schedule.count k) →
        (poolAfter f x y active h works schedule).isDone = true) ∧
      ((poolAfter f x y active h works schedule).isDone = true →
        Sequential f x y active h pattern w.count
          ⟨(poolAfter f x y active h works schedule).points,
            (poolAfter f x y active h works schedule).outcome.map (Jacobian.mk y.length)⟩)) ∧
    ∀ calls, Sequential f x y active h pattern w.count
      (compute f calls x (.ofList y) active h (.ok w) pattern) := by
  have hcolumns : ∀ p ∈ pattern, ∀ var ∈ active, ∃ mask, p.column var = .ok mask := by
    intro p hp var hvar
    obtain ⟨v, hv⟩ := hactive var hvar
    obtain ⟨mask, hmask, -⟩ := Tensor.exists_column (hpattern p hp) hv
    exact ⟨mask, hmask⟩
  obtain ⟨work, hwork⟩ := exists_sliceList hcolumns
  have hslices : slices active w pattern = .ok (deal w.count work) := by
    rw [slices, hwork]
    rfl
  refine ⟨⟨deal w.count work, hslices, fun schedule ↦ ⟨fun hturns ↦ ?_, fun hdone ↦ ?_⟩⟩, ?_⟩
  · -- No hand is longer than the list of active variables.
    refine Pool.isDone_run_start hf fun k hand hhand ↦ ?_
    have hlength := (numbered_of_sliceList hwork).length_le_of_mem_deal w.count
      (List.mem_of_mem_filter (List.mem_of_getElem? hhand))
    have hk : k < w.count := by
      rw [← length_deal w.count work]
      exact Nat.lt_of_lt_of_le (List.getElem?_eq_some_iff.mp hhand).1 (List.length_filter_le _ _)
    rw [length_sliceList hwork] at hlength
    exact Nat.le_trans hlength (hturns k hk)
  · exact sequential_of_ran hwork hactive hpattern w.count_pos
      (Pool.ran_run hf (deal w.count work) _ hdone)
  · intro calls
    simp only [compute, computeBy, Except.bind, hslices, Tensor.size_ofList]
    exact sequential_of_ran hwork hactive hpattern w.count_pos
      (ranInOrder_runWorkers hf (deal w.count work) calls _).ran

/-- A residual function of three variables that fails if the second is positive, and changes its
length if the third is. -/
def fragile : Residual PartialRat := fun _ x ↦
  match x with
  | [a, b, c] =>
    if 0 < b then .error (.raised .value "positive") else if 0 < c then .ok [a, c] else .ok [a]
  | _ => .ok []

/-- Two of three columns fail, the second and the third, which is a variable counted from the end.
Of two workers the first gets the third column, and so its failure counts, though here the other
worker gets on first. -/
theorem sequential_of_every_schedule_fragile :
    ∃ works, slices [0, 1, -1] { count := 2 } none = .ok works ∧
      (poolAfter fragile [0, 0, 0] [0] [0, 1, -1] (.scalar 1) works [1, 1, 1, 0, 0, 0]).isDone
        = true ∧
      (poolAfter fragile [0, 0, 0] [0] [0, 1, -1] (.scalar 1) works
        [1, 1, 1, 0, 0, 0]).outcome.map (Jacobian.mk 1) = .error (.shapeChanged (-1) [2] [1]) := by
  have hpure : ∀ n x, fragile n x = fragile 0 x := fun _ _ ↦ rfl
  have hposition : ∀ var ∈ ([0, 1, -1] : List Int),
      (position? var ([0, 0, 0] : List PartialRat).length).isSome = true := by decide
  have hpattern : ∀ p ∈ (none : Option (Tensor Bool)),
      p.shape = [([0] : List PartialRat).length, ([0, 0, 0] : List PartialRat).length] := nofun
  obtain ⟨⟨works, hworks, hschedules⟩, -⟩ := sequential_of_every_schedule hpure
    (fun var hvar ↦ Option.isSome_iff_exists.mp (hposition var hvar)) hpattern (.scalar 1)
    { count := 2 }
  obtain ⟨hturns, hsequential⟩ := hschedules [1, 1, 1, 0, 0, 0]
  have hdone := hturns (by decide)
  have hfault : perturbed fragile [0, 0, 0] [0] (.scalar 1) (-1)
      = .error (.shapeChanged (-1) [2] [1]) := by decide +kernel
  refine ⟨works, hworks, hdone, (hsequential hdone).failed 2 (-1) _ rfl hfault ?_⟩
  intro j var hj hbefore
  match j, hj with
  | 0, hj =>
    obtain rfl := Option.some.inj hj
    exact ⟨_, rfl⟩
  | 1, _ => exact absurd hbefore (by simp [Before])
  | 2, _ => exact absurd rfl hbefore.ne

end Jacobian

end DampedLeastSquares
