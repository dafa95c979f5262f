import DampedLeastSquares.Proofs.Jacobian.Sequential
import Mathlib.Data.Int.CardIntervalMod

/-!
# The columns of each worker

The slices of a Jacobian are dealt to the workers, and what a worker was dealt is its hand. Every
column is in one hand, that of its remainder, with its own variable and its own column of the
pattern. Each hand is in order. A hand is never larger than an earlier one, and smaller by one slice
at most. And if one slice is taken from each hand in turn, again and again, the columns come back in
the order in which they were before. No other hands have these properties.

That taking in turn undoes dealing is shown by induction on the list. One more slice in front goes
to the first worker, and the others are dealt from the second worker on. So what would have been the
last hand is now the first one, behind the new slice. It is also the hand that has to wait behind
the others once the new slice is taken.
-/

namespace DampedLeastSquares.Jacobian

/-! ## Laying down in turn -/

/-- The items of some lists, one of each in turn: the first list gives its first item and then waits
behind the others. A list without items drops out. -/
def interleave {α : Type} : List (List α) → List α
  | [] => []
  | [] :: lists => interleave lists
  | (a :: list) :: lists => a :: interleave (lists ++ [list])
termination_by lists => lists.flatten.length + lists.length
decreasing_by
  · simp
  · simp
    omega

section

variable {α : Type}

theorem interleave_replicate_nil (n : Nat) : interleave (List.replicate n ([] : List α)) = [] := by
  induction n with
  | zero => rw [List.replicate_zero, interleave]
  | succ n ih => rw [List.replicate_succ, interleave, ih]

private theorem succ_mod_eq_succ_iff {i k m : Nat} (hk : k < m) :
    (i + 1) % (m + 1) = k + 1 ↔ i % (m + 1) = k := by
  have hlt : i % (m + 1) < m + 1 := Nat.mod_lt i m.succ_pos
  have hone : 1 % (m + 1) = 1 := Nat.mod_eq_of_lt (by omega)
  rw [Nat.add_mod_eq_ite, hone]
  split <;> omega

theorem share_map_succ {n k k' : Nat} (hk : ∀ i, (i + 1) % n = k' ↔ i % n = k)
    (items : List (α × Nat)) :
    share n (items.map (Prod.map id (· + 1))) k' = share n items k := by
  have hitems : items.filter ((fun item : α × Nat ↦ decide (item.2 % n = k')) ∘
      Prod.map id (· + 1)) = items.filter fun item ↦ decide (item.2 % n = k) :=
    List.filter_congr fun item _ ↦ decide_eq_decide.mpr (hk item.2)
  rw [share, share, List.filter_map, List.map_map, hitems]
  rfl

/-- **One item more on top.** It goes to what was the last hand, which comes first now. -/
theorem deal_cons (m : Nat) (a : α) (items : List α) :
    deal (m + 1) (a :: items)
      = (a :: share (m + 1) items.zipIdx m) ::
        (List.range m).map (share (m + 1) items.zipIdx) := by
  have hzip : (a :: items).zipIdx = (a, 0) :: items.zipIdx.map (Prod.map id (· + 1)) := by
    rw [List.zipIdx_cons, List.map_snd_add_zipIdx_eq_zipIdx]
  rw [deal_eq_map_share, List.range_succ_eq_map, List.map_cons, List.map_map, hzip]
  congr 1
  · rw [← share_map_succ (fun _ ↦ Nat.succ_mod_succ_eq_zero_iff) items.zipIdx, share, share,
      List.filter_cons_of_pos (by simp), List.map_cons]
  · refine List.map_congr_left fun k hk ↦ ?_
    rw [← share_map_succ (fun _ ↦ succ_mod_eq_succ_iff (List.mem_range.mp hk)) items.zipIdx, share,
      Function.comp_apply, share, List.filter_cons_of_neg (by simp)]

/-- **Laying down in turn undoes dealing.** -/
theorem interleave_deal {n : Nat} (hn : 0 < n) (items : List α) :
    interleave (deal n items) = items := by
  obtain ⟨m, rfl⟩ := Nat.exists_eq_succ_of_ne_zero hn.ne'
  induction items with
  | nil => exact interleave_replicate_nil (m + 1)
  | cons a items ih =>
    -- The hand from which the slice was taken is the last one of those dealt without it.
    have hrest : deal (m + 1) items = (List.range m).map (share (m + 1) items.zipIdx) ++
        [share (m + 1) items.zipIdx m] := by
      rw [deal_eq_map_share, List.range_succ, List.map_append, List.map_singleton]
    rw [deal_cons, interleave, ← hrest, ih]

/-! ## How much everybody gets -/

/-- Everybody gets the whole part of what there is for each, and those at the first places one item
of what is left over. -/
theorem length_share {n k : Nat} (hk : k < n) (items : List α) :
    (share n items.zipIdx k).length
      = items.length / n + if k < items.length % n then 1 else 0 := by
  have hcount : (share n items.zipIdx k).length
      = Nat.count (fun i ↦ i ≡ k [MOD n]) items.length := by
    have hrange : items.zipIdx.map Prod.snd = List.range items.length := by
      rw [List.zipIdx_map_snd, List.range_eq_range']
    rw [share, List.length_map, ← List.countP_eq_length_filter, Nat.count, ← hrange,
      List.countP_map]
    refine List.countP_congr fun item _ ↦ ?_
    simp only [Function.comp_apply, decide_eq_true_eq, Nat.ModEq, Nat.mod_eq_of_lt hk]
  rw [hcount, Nat.count_modEq_card _ (Nat.zero_lt_of_lt hk), Nat.mod_eq_of_lt hk]

theorem eq_share_of_getElem? {n k : Nat} {items hand : List α}
    (h : (deal n items)[k]? = some hand) :
    k < n ∧ hand = share n items.zipIdx k := by
  have hk : k < n := length_deal n items ▸ (List.getElem?_eq_some_iff.mp h).1
  rw [deal_eq_map_share, List.getElem?_map, List.getElem?_range hk, Option.map_some] at h
  exact ⟨hk, (Option.some.inj h).symm⟩

theorem length_le_of_deal {n k l : Nat} {items hand later : List α} (hkl : k ≤ l)
    (hhand : (deal n items)[k]? = some hand) (hlater : (deal n items)[l]? = some later) :
    later.length ≤ hand.length ∧ hand.length ≤ later.length + 1 := by
  obtain ⟨hk, rfl⟩ := eq_share_of_getElem? hhand
  obtain ⟨hl, rfl⟩ := eq_share_of_getElem? hlater
  rw [length_share hk, length_share hl]
  split <;> split <;> omega

end

/-! ## What is dealt -/

/-- A pattern with a column for each of some variables, which are counted from either end. -/
def HasColumns (active : List Int) (p : Tensor Bool) : Prop :=
  ∃ rows width, p.shape = [rows, width] ∧ ∀ var ∈ active, -(width : Int) ≤ var ∧ var < width

/-- The mask of a slice has an entry for each row of the pattern, the one that the pattern has in
the column of the variable. -/
def Slice.MaskedEntrywise (pattern : Option (Tensor Bool)) (s : Slice) : Prop :=
  match pattern with
  | none => s.mask = none
  | some p => ∃ rows width mask, p.shape = [rows, width] ∧ s.mask = some mask ∧
      mask.shape = [rows] ∧ ∀ r, r < rows → mask.entries[r]? = p.at? r (s.var % width).toNat

/-- The work on the columns of the active variables is dealt to `n` workers. -/
structure Dealt (active : List Int) (pattern : Option (Tensor Bool)) (n : Nat)
    (works : List (List Slice)) : Prop where
  /-- Every worker gets a list. -/
  length : works.length = n
  /-- Every column is in one list, that of its remainder. -/
  place : ∀ (i k : Nat) (work : List Slice), i < active.length → works[k]? = some work →
    ((∃ s ∈ work, s.column = i) ↔ i % n = k)
  /-- Whatever is in a list is about a column, with its variable and the entries of the pattern. -/
  slice : ∀ work ∈ works, ∀ s ∈ work,
    active[s.column]? = some s.var ∧ s.MaskedEntrywise pattern
  /-- Within a list the columns increase. -/
  increasing : ∀ work ∈ works, work.Pairwise fun s t ↦ s.column < t.column
  /-- The lengths of two lists differ by at most one, and the longer one comes first. -/
  balanced : ∀ (k l : Nat) (work later : List Slice), k ≤ l → works[k]? = some work →
    works[l]? = some later → later.length ≤ work.length ∧ work.length ≤ later.length + 1
  /-- Taken in turn, the slices are about the active variables in their order. -/
  interleaved : (interleave works).map Slice.var = active

section

variable {active : List Int} {pattern : Option (Tensor Bool)} {n : Nat}

theorem HasColumns.exists_column {p : Tensor Bool} (h : HasColumns active p) {var : Int}
    (hvar : var ∈ active) :
    ∃ rows width mask, p.shape = [rows, width] ∧ p.column var = .ok mask ∧ mask.shape = [rows] ∧
      ∀ r, r < rows → mask.entries[r]? = p.at? r (var % width).toNat := by
  obtain ⟨rows, width, hshape, hrange⟩ := h
  obtain ⟨mask, hcolumn⟩ := Tensor.exists_column hshape (position?_of_inRange (hrange var hvar))
  exact ⟨rows, width, mask, hshape, hcolumn⟩

theorem Slice.Masked.entrywise {s : Slice} (hmasked : s.Masked pattern) (hvar : s.var ∈ active)
    (hpattern : ∀ p ∈ pattern, HasColumns active p) : s.MaskedEntrywise pattern := by
  cases pattern with
  | none => exact hmasked
  | some p =>
    obtain ⟨mask, hcolumn, hmask⟩ := hmasked
    obtain ⟨rows, width, mask', hshape, hcolumn', hrows, hentries⟩ :=
      (hpattern p rfl).exists_column hvar
    obtain rfl := Except.ok.inj (hcolumn.symm.trans hcolumn')
    exact ⟨rows, width, mask, hshape, hmask, hrows, hentries⟩

theorem Slice.MaskedEntrywise.mask_eq {s t : Slice} (hs : s.MaskedEntrywise pattern)
    (ht : t.MaskedEntrywise pattern) (hvar : s.var = t.var) : s.mask = t.mask := by
  cases pattern with
  | none => exact Eq.trans hs (Eq.symm ht)
  | some p =>
    obtain ⟨rows, width, ⟨shape, entries, hlength⟩, hshape, hmask, hrows, hentries⟩ := hs
    obtain ⟨rows', width', ⟨shape', entries', hlength'⟩, hshape', hmask', hrows', hentries'⟩ := ht
    obtain ⟨rfl, hwidth⟩ := List.cons.inj (hshape.symm.trans hshape')
    obtain ⟨rfl, -⟩ := List.cons.inj hwidth
    obtain rfl : shape = [rows] := hrows
    obtain rfl : shape' = [rows] := hrows'
    rw [Tensor.count, Tensor.count, Nat.mul_one] at hlength hlength'
    obtain rfl : entries = entries' := by
      refine List.ext_getElem? fun r ↦ ?_
      rcases Nat.lt_or_ge r rows with hr | hr
      · exact (hentries r hr).trans (hvar ▸ (hentries' r hr).symm)
      · rw [List.getElem?_eq_none (hlength ▸ hr), List.getElem?_eq_none (hlength' ▸ hr)]
    rw [hmask, hmask']

theorem Dealt.mem_of_mem {works others : List (List Slice)} (hworks : Dealt active pattern n works)
    (hothers : Dealt active pattern n others) {k : Nat} {work other : List Slice}
    (hwork : works[k]? = some work) (hother : others[k]? = some other) {s : Slice}
    (hs : s ∈ work) : s ∈ other := by
  obtain ⟨hvar, hmasked⟩ := hworks.slice work (List.mem_of_getElem? hwork) s hs
  have hlt : s.column < active.length := (List.getElem?_eq_some_iff.mp hvar).1
  have hk : s.column % n = k := (hworks.place _ k work hlt hwork).mp ⟨s, hs, rfl⟩
  obtain ⟨t, ht, hcolumn⟩ := (hothers.place _ k other hlt hother).mpr hk
  obtain ⟨hvar', hmasked'⟩ := hothers.slice other (List.mem_of_getElem? hother) t ht
  have hvars : s.var = t.var := Option.some.inj (hvar.symm.trans (hcolumn ▸ hvar'))
  have hmask := hmasked.mask_eq hmasked' hvars
  obtain ⟨column, var, mask⟩ := s
  obtain ⟨column', var', mask'⟩ := t
  obtain ⟨rfl, rfl, rfl⟩ : column' = column ∧ var = var' ∧ mask = mask' := ⟨hcolumn, hvars, hmask⟩
  exact ht

/-- **There is one way to deal.** -/
theorem Dealt.unique {works others : List (List Slice)} (hworks : Dealt active pattern n works)
    (hothers : Dealt active pattern n others) : works = others := by
  refine List.ext_getElem (hworks.length.trans hothers.length.symm) fun k hk hk' ↦ ?_
  have hwork := List.getElem?_eq_getElem hk
  have hother := List.getElem?_eq_getElem hk'
  have hsorted := hworks.increasing _ (List.getElem_mem hk)
  have hsorted' := hothers.increasing _ (List.getElem_mem hk')
  -- Lists in order are the same if they have the same members.
  have hmem : ∀ s, s ∈ works[k] ↔ s ∈ others[k] := fun s ↦
    ⟨hworks.mem_of_mem hothers hwork hother, hothers.mem_of_mem hworks hother hwork⟩
  have hperm : works[k].Perm others[k] := (List.perm_ext_iff_of_nodup
    (nodup_of_increasing hsorted) (nodup_of_increasing hsorted')).mpr hmem
  exact hperm.eq_of_pairwise (fun s t _ _ hst hts ↦ absurd hst (Nat.lt_asymm hts)) hsorted hsorted'

theorem dealt_deal {work : List Slice} (hwork : sliceList active pattern = .ok work)
    (hpattern : ∀ p ∈ pattern, HasColumns active p) (hn : 0 < n) :
    Dealt active pattern n (deal n work) := by
  have hnumbered := numbered_of_sliceList hwork
  have hhand : ∀ {k : Nat} {hand : List Slice}, (deal n work)[k]? = some hand →
      hand = work.filter fun s ↦ s.column % n = k := fun h ↦
    (eq_share_of_getElem? h).2.trans (hnumbered.share_eq n _)
  refine ⟨length_deal n work, fun i k hand hi hk ↦ ?_, fun hand hmem s hs ↦ ?_, fun hand hmem ↦ ?_,
    fun k l hand later hkl ↦ length_le_of_deal hkl, ?_⟩
  · rw [hhand hk]
    constructor
    · rintro ⟨s, hs, rfl⟩
      exact of_decide_eq_true (List.mem_filter.mp hs).2
    · intro hik
      obtain ⟨s, hs, rfl, -⟩ := exists_slice hwork (List.getElem?_eq_getElem hi)
      exact ⟨s, List.mem_filter.mpr ⟨List.mem_of_getElem? hs, decide_eq_true hik⟩, rfl⟩
  · obtain ⟨k, hk⟩ := List.mem_iff_getElem?.mp hmem
    obtain ⟨hvar, hmasked⟩ :=
      getElem?_of_mem_sliceList hwork (List.mem_of_mem_filter (hhand hk ▸ hs))
    exact ⟨hvar, hmasked.entrywise (List.mem_of_getElem? hvar) hpattern⟩
  · obtain ⟨k, hk⟩ := List.mem_iff_getElem?.mp hmem
    exact hhand hk ▸ hnumbered.pairwise.filter _
  · rw [interleave_deal hn, map_var_sliceList hwork]

/-- **Columns are dealt round the table.** Whatever the active variables are, repeated or counted
from the end, and however many workers are asked for, if the pattern has a column for each variable
then there is work for each worker, and it is dealt in the one way there is. -/
theorem dealt_of_slices (hpattern : ∀ p ∈ pattern, HasColumns active p) (hn : 1 ≤ n) :
    ∃ works, (Workers.requested (some (.int n))).bind (slices active · pattern) = .ok works ∧
      Dealt active pattern n works ∧ ∀ others, Dealt active pattern n others → others = works := by
  have hcolumns : ∀ p ∈ pattern, ∀ var ∈ active, ∃ mask, p.column var = .ok mask := by
    intro p hp var hvar
    obtain ⟨-, -, mask, -, hmask, -⟩ := (hpattern p hp).exists_column hvar
    exact ⟨mask, hmask⟩
  obtain ⟨work, hwork⟩ := exists_sliceList hcolumns
  have hworkers : Workers.requested (some (.int n)) = .ok ⟨n, hn⟩ := dif_pos hn
  have hdealt := dealt_deal hwork hpattern hn
  refine ⟨deal n work, ?_, hdealt, fun others hothers ↦ hothers.unique hdealt⟩
  rw [hworkers, Except.bind, slices, hwork]
  rfl

end

/-- A pattern of two conditions and three variables. -/
def staggered : Tensor Bool := ⟨[2, 3], [true, false, true, false, true, true], rfl⟩

/-- Two workers share three columns. The second variable is counted from the end. -/
theorem dealt_of_slices_staggered :
    ∃ works, (Workers.requested (some (.int 2))).bind (slices [2, -2, 0] · (some staggered))
        = .ok works ∧
      works = [[⟨0, 2, some (.ofList [true, true])⟩, ⟨2, 0, some (.ofList [true, false])⟩],
        [⟨1, -2, some (.ofList [false, true])⟩]] ∧
      Dealt [2, -2, 0] (some staggered) 2 works := by
  have hpattern : ∀ p ∈ some staggered, HasColumns [2, -2, 0] p := by
    rintro p ⟨⟩
    exact ⟨2, 3, rfl, by decide⟩
  obtain ⟨works, hworks, hdealt, -⟩ := dealt_of_slices hpattern (Nat.le_succ 1)
  refine ⟨works, hworks, Except.ok.inj (hworks.symm.trans ?_), hdealt⟩
  decide +kernel

end DampedLeastSquares.Jacobian
