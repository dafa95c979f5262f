import DampedLeastSquares.Proofs.Jacobian.Sequential

/-!
# Patterns that tell the truth

A pattern calls entries of a Jacobian zero that would otherwise be quotients. That is an economy
only if nothing is lost by it. A residual that does not depend on a variable has the same value
after the variable is perturbed, so its quotient is zero already, and a pattern that calls zero only
what does not depend changes nothing: the same matrix comes out, or the same fault, after the same
calls.

The argument needs one law of arithmetic. A residual has to cancel against itself, and so it has to
be finite.
-/

namespace DampedLeastSquares

/-- Scalars of which a finite one cancels against itself, and leaves zero for a quotient. -/
class LawfulDifference (R : Type) [Scalar R] : Prop where
  /-- The difference quotient of a finite value with itself is zero. -/
  div_sub_self {a h : R} : Scalar.isFinite a = true → 0 < h → (a - a) / h = 0

/-- Where the pattern has a zero, changing the variable of the column does not change the value of
the row. If there are no values then there are none after the change, for the same reason. -/
def Tensor.TellsTruth {R : Type} (t : Tensor Bool) (f : List R → Except Fault (List R))
    (x : List R) : Prop :=
  ∀ r c a, c < x.length → t.at? r c ≠ some true →
    (f (x.set c a)).map (·[r]?) = (f x).map (·[r]?)

namespace Jacobian

/-! ## Work without masks -/

/-- The same work on a column, with all its entries kept. -/
def Slice.unmasked (s : Slice) : Slice := { s with mask := none }

section

variable {P R : Type} [Scalar R] {f : Nat → P → Except Fault (List R)}
  {move : Int → Except Fault P} {baseline : Tensor R} {h : R}

theorem runWorker_unmasked {work : List Slice}
    (hwork : ∀ s ∈ work, ∀ calls, differentiate f move baseline h calls s.unmasked
      = differentiate f move baseline h calls s) (calls : Nat) (matrix : List (List R)) :
    runWorker f move baseline h (work.map Slice.unmasked) calls matrix
      = runWorker f move baseline h work calls matrix := by
  induction work generalizing calls matrix with
  | nil => rfl
  | cons s work ih =>
    have hrest := ih fun t ht ↦ hwork t (List.mem_cons_of_mem s ht)
    simp only [List.map_cons, runWorker, hwork s List.mem_cons_self, hrest]
    rfl

theorem runWorkers_unmasked {works : List (List Slice)}
    (hworks : ∀ work ∈ works, ∀ s ∈ work, ∀ calls,
      differentiate f move baseline h calls s.unmasked = differentiate f move baseline h calls s)
    (calls : Nat) (matrix : List (List R)) :
    runWorkers f move baseline h (works.map (List.map Slice.unmasked)) calls matrix
      = runWorkers f move baseline h works calls matrix := by
  induction works generalizing calls matrix with
  | nil => rfl
  | cons work works ih =>
    have hrest := ih fun other hother ↦ hworks other (List.mem_cons_of_mem work hother)
    simp only [List.map_cons, runWorkers, runWorker_unmasked (hworks work List.mem_cons_self),
      hrest]

end

theorem sliceList_none {active : List Int} {pattern : Option (Tensor Bool)} {work : List Slice}
    (hwork : sliceList active pattern = .ok work) :
    sliceList active none = .ok (work.map Slice.unmasked) := by
  obtain ⟨plain, hplain⟩ : ∃ plain, sliceList active none = .ok plain := exists_sliceList nofun
  have hlength : plain.length = work.length := by
    rw [length_sliceList hplain, length_sliceList hwork]
  have heq : plain = work.map Slice.unmasked := by
    refine List.ext_getElem (by rw [hlength, List.length_map]) fun i hi _ ↦ ?_
    have hi' : i < active.length := by rwa [← length_sliceList hplain]
    obtain ⟨s, hs, hcolumn, hvar, hmask⟩ := exists_slice hplain (List.getElem?_eq_getElem hi')
    obtain ⟨t, ht, hcolumn', hvar', -⟩ := exists_slice hwork (List.getElem?_eq_getElem hi')
    have hst : s = t.unmasked := by
      cases s
      exact Slice.mk.injEq .. ▸ ⟨hcolumn.trans hcolumn'.symm, hvar.trans hvar'.symm, hmask⟩
    rw [List.getElem_map, ← Option.some.injEq, ← List.getElem?_eq_getElem hi, hs, hst,
      ← Option.some.inj ((List.getElem?_eq_getElem (hlength ▸ hi)).symm.trans ht)]
  rw [hplain, heq]

theorem deal_unmasked {work : List Slice} (hwork : Numbered work) (n : Nat) :
    deal n (work.map Slice.unmasked) = (deal n work).map (List.map Slice.unmasked) := by
  have hunmasked : Numbered (work.map Slice.unmasked) := by
    intro i s hs
    rw [List.getElem?_map, Option.map_eq_some_iff] at hs
    obtain ⟨t, ht, rfl⟩ := hs
    exact hwork i t ht
  rw [hunmasked.deal_eq, hwork.deal_eq, List.map_map]
  refine List.map_congr_left fun k _ ↦ ?_
  rw [Function.comp_apply, List.filter_map]
  rfl

theorem computeBy_unmasked {P R : Type} [Scalar R] {f : Nat → P → Except Fault (List R)}
    {move : Int → Except Fault P} {baseline : Tensor R} {h : R} {active : List Int}
    {t : Tensor Bool} (hmasks : ∀ var ∈ active, ∃ mask, t.column var = .ok mask)
    (hslices : ∀ s : Slice, s.var ∈ active → s.Masked (some t) → ∀ calls,
      differentiate f move baseline h calls s.unmasked = differentiate f move baseline h calls s)
    (calls : Nat) (workers : Except Fault Workers) :
    computeBy move f calls baseline active h workers none
      = computeBy move f calls baseline active h workers (some t) := by
  obtain ⟨work, hwork⟩ : ∃ work, sliceList active (some t) = .ok work := by
    refine exists_sliceList fun p hp var hvar ↦ ?_
    obtain rfl := Option.some.inj hp
    exact hmasks var hvar
  cases workers with
  | error fault => rfl
  | ok w =>
    have hnumbered := numbered_of_sliceList hwork
    have hdealt : ∀ hand ∈ deal w.count work, ∀ s ∈ hand, ∀ calls,
        differentiate f move baseline h calls s.unmasked
          = differentiate f move baseline h calls s := by
      intro hand hhand s hs
      have hmem : s ∈ work :=
        (hnumbered.perm_deal w.count_pos).mem_iff.mp (List.mem_flatten_of_mem hhand hs)
      obtain ⟨hvar, hmasked⟩ := getElem?_of_mem_sliceList hwork hmem
      exact hslices s (List.mem_of_getElem? hvar) hmasked
    simp only [computeBy, Except.bind, slices, hwork, sliceList_none hwork, Except.map,
      deal_unmasked hnumbered, runWorkers_unmasked hdealt]

/-! ## Quotients that are zero already -/

section

variable {R : Type} [Scalar R] [LawfulDifference R] {x y : List R} {h : R} {t : Tensor Bool}
  {s : Slice} {width v : Nat}

/-- A mask that keeps every value that has changed can be left out. -/
theorem quotient_unmasked (hmasked : s.Masked (some t)) (hvar : position? s.var width = some v)
    (hshape : t.shape = [y.length, width]) (hfinite : ∀ a ∈ y, Scalar.isFinite a = true)
    (hh : 0 < h) {z : List R} (hkept : ∀ r, t.at? r v ≠ some true → z[r]? = y[r]?) :
    quotient (.ofList y) h s.unmasked z = quotient (.ofList y) h s z := by
  by_cases hlength : y.length = z.length
  · have hpattern : ∀ p ∈ some t, p.shape = [y.length, width] := by
      rintro p ⟨⟩
      exact hshape
    obtain ⟨column, hcolumn, hentries⟩ := exists_quotient hmasked hvar hpattern hlength h
    have hunmasked : s.unmasked.Masked none := rfl
    obtain ⟨column', hcolumn', hentries'⟩ := exists_quotient hunmasked hvar nofun hlength h
    rw [hcolumn, hcolumn']
    refine congrArg Except.ok (List.ext_getElem? fun r ↦ ?_)
    by_cases hr : r < y.length
    · have ha := List.getElem?_eq_getElem (hlength ▸ hr : r < z.length)
      have hb := List.getElem?_eq_getElem hr
      rw [hentries.entry r _ _ ha hb, hentries'.entry r _ _ ha hb, keeps, keeps, Option.all_none,
        Option.all_some, if_pos rfl]
      split
      next => rfl
      next hzero =>
        -- The value in this row has not changed.
        have hsame := hkept r fun htrue ↦ hzero (decide_eq_true htrue)
        rw [ha, hb, Option.some.injEq] at hsame
        rw [hsame, LawfulDifference.div_sub_self (hfinite _ (List.getElem_mem hr)) hh]
    · rw [List.getElem?_eq_none (hentries.length.trans_le (not_lt.mp hr)),
        List.getElem?_eq_none (hentries'.length.trans_le (not_lt.mp hr))]
  · have hother : (Tensor.ofList y).shape ≠ [z.length] := fun heq ↦ hlength (List.cons.inj heq).1
    rw [quotient, quotient, if_neg hother, if_neg hother]
    rfl

end

theorem exists_set_of_moveEntry {R : Type} [Scalar R] {x point : List R} {var : Int}
    {amount : Except Fault R} (h : moveEntry x var amount = .ok point) :
    ∃ v a, position? var x.length = some v ∧ point = x.set v a := by
  rw [moveEntry] at h
  cases hv : position? var x.length with
  | none =>
    rw [hv] at h
    exact nomatch h
  | some v =>
    rw [hv] at h
    cases amount with
    | error fault => exact nomatch h
    | ok a =>
      obtain rfl := Except.ok.inj h
      exact ⟨v, x.get ⟨v, position?_lt hv⟩ + a, rfl, List.modify_eq_set_get _ (position?_lt hv)⟩

/-- **A pattern that tells the truth changes nothing.** The Jacobian is the same without it, and so
are its faults and the calls it takes. -/
theorem compute_eq_of_tellsTruth {R : Type} [Scalar R] [LawfulDifference R]
    {f : List R → Except Fault (List R)} {x y : List R} {t : Tensor Bool}
    (htruth : t.TellsTruth f x) (hshape : t.shape = [y.length, x.length]) (hy : f x = .ok y)
    (hfinite : ∀ a ∈ y, Scalar.isFinite a = true) {active : List Int}
    (hactive : ∀ var ∈ active, ∃ v, position? var x.length = some v) {h : Amount R}
    (hh : 0 < h.toScalar) (calls : Nat) (workers : Except Fault Workers) :
    compute (fun _ ↦ f) calls x (.ofList y) active h workers (some t)
      = compute (fun _ ↦ f) calls x (.ofList y) active h workers none := by
  refine (computeBy_unmasked ?_ ?_ calls workers).symm
  · intro var hvar
    obtain ⟨v, hv⟩ := hactive var hvar
    obtain ⟨mask, hmask, -⟩ := Tensor.exists_column hshape hv
    exact ⟨mask, hmask⟩
  · intro s hs hmasked calls
    have hvar : s.unmasked.var = s.var := rfl
    rw [differentiate, differentiate, hvar]
    cases hmoved : moveEntry x s.var h.read with
    | error fault => rfl
    | ok point =>
      obtain ⟨v, a, hv, rfl⟩ := exists_set_of_moveEntry hmoved
      refine congrArg (Called.mk _) ?_
      cases hz : f (x.set v a) with
      | error fault => rfl
      | ok z =>
        refine quotient_unmasked hmasked hv hshape hfinite hh fun r hr ↦ ?_
        have hsame := htruth r v a (position?_lt hv) hr
        rw [hz, hy] at hsame
        exact Except.ok.inj hsame

end Jacobian

end DampedLeastSquares
