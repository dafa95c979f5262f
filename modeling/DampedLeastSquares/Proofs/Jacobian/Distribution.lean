import DampedLeastSquares.Jacobian.Slice
import Mathlib.Data.List.Forall2
import Mathlib.Data.List.Nodup

/-!
# Which worker gets which column

`deal` hands out one column after another, to each worker in turn. What the workers have in the end
is said here in one line: worker `k` of `n` has the columns whose numbers leave the remainder `k`,
in increasing order. Read one worker after another, the columns are then those that were dealt, in
the order of their remainders first and of their numbers second. That order decides which of several
failures counts, and that nothing is dealt twice keeps the workers out of each other's way.
-/

namespace DampedLeastSquares.Jacobian

/-! ## Lists of computations -/

theorem exists_of_bind_eq_ok {ε α β : Type} {e : Except ε α} {f : α → Except ε β} {r : β}
    (h : e >>= f = .ok r) : ∃ a, e = .ok a ∧ f a = .ok r := by
  cases e with
  | error fault => exact nomatch h
  | ok a => exact ⟨a, rfl, h⟩

theorem mapM_eq_ok_iff {ε α β : Type} {f : α → Except ε β} {l : List α} {r : List β} :
    l.mapM f = .ok r ↔ List.Forall₂ (fun a b ↦ f a = .ok b) l r := by
  induction l generalizing r with
  | nil => cases r <;> simp [pure, Except.pure]
  | cons a l ih =>
    rw [List.mapM_cons]
    cases hfirst : f a with
    | error fault =>
      refine iff_of_false nofun ?_
      rintro (_ | ⟨hok, -⟩)
      exact nomatch hfirst.symm.trans hok
    | ok b =>
      cases hrest : l.mapM f with
      | error fault =>
        refine iff_of_false nofun ?_
        rintro (_ | ⟨-, hok⟩)
        exact nomatch hrest.symm.trans (ih.mpr hok)
      | ok rest =>
        constructor
        · intro h
          obtain rfl := Except.ok.inj h
          exact .cons hfirst (ih.mp hrest)
        · rintro (_ | ⟨hok, htail⟩)
          obtain rfl := Except.ok.inj (hfirst.symm.trans hok)
          obtain rfl := Except.ok.inj (hrest.symm.trans (ih.mpr htail))
          rfl

theorem exists_mapM_eq_ok {ε α β : Type} {f : α → Except ε β} {l : List α}
    (h : ∀ a ∈ l, ∃ b, f a = .ok b) : ∃ r, l.mapM f = .ok r := by
  induction l with
  | nil => exact ⟨[], rfl⟩
  | cons a l ih =>
    obtain ⟨b, hb⟩ := h a List.mem_cons_self
    obtain ⟨r, hr⟩ := ih fun c hc ↦ h c (List.mem_cons_of_mem a hc)
    exact ⟨b :: r, mapM_eq_ok_iff.mpr (.cons hb (mapM_eq_ok_iff.mp hr))⟩

theorem exists_of_mapM_eq_ok {ε α β : Type} {f : α → Except ε β} {l : List α} {r : List β}
    (h : l.mapM f = .ok r) : ∀ a ∈ l, ∃ b, f a = .ok b := by
  have hall := mapM_eq_ok_iff.mp h
  clear h
  induction hall with
  | nil => exact nofun
  | cons hfirst _ ih => exact List.forall_mem_cons.mpr ⟨⟨_, hfirst⟩, ih⟩

theorem mapM_eq_ok_map {ε α β : Type} {f : α → Except ε β} {g : α → β} {l : List α}
    (h : ∀ a ∈ l, f a = .ok (g a)) : l.mapM f = .ok (l.map g) :=
  mapM_eq_ok_iff.mpr (List.forall₂_map_right_iff.mpr (List.forall₂_same.mpr h))

/-! ## The work on all columns -/

/-- A slice has the column of the pattern that belongs to its variable as its mask. -/
def Slice.Masked (pattern : Option (Tensor Bool)) (s : Slice) : Prop :=
  match pattern with
  | none => s.mask = none
  | some p => ∃ mask, p.column s.var = .ok mask ∧ s.mask = some mask

variable {active : List Int} {pattern : Option (Tensor Bool)} {work : List Slice}

theorem length_sliceList (h : sliceList active pattern = .ok work) :
    work.length = active.length := by
  have hlength := (mapM_eq_ok_iff.mp h).length_eq
  rw [← hlength, List.length_zipIdx]

theorem exists_slice (h : sliceList active pattern = .ok work) {i : Nat} {var : Int}
    (hi : active[i]? = some var) :
    ∃ s, work[i]? = some s ∧ s.column = i ∧ s.var = var ∧ s.Masked pattern := by
  have hitem : active.zipIdx[i]? = some (var, i) := by
    rw [List.getElem?_zipIdx, hi, Option.map_some, Nat.zero_add]
  obtain ⟨hi', hitem⟩ := List.getElem?_eq_some_iff.mp hitem
  -- The slice at a position is what became of the item there.
  obtain ⟨hlength, hslices⟩ := List.forall₂_iff_get.mp (mapM_eq_ok_iff.mp h)
  have hslice := hslices i hi' (hlength ▸ hi')
  simp only [List.get_eq_getElem, hitem] at hslice
  refine ⟨_, List.getElem?_eq_getElem (hlength ▸ hi'), ?_⟩
  cases pattern with
  | none =>
    rw [← Except.ok.inj hslice]
    exact ⟨rfl, rfl, rfl⟩
  | some p =>
    cases hmask : p.column var with
    | error fault =>
      simp only [hmask, Except.map] at hslice
      exact nomatch hslice
    | ok mask =>
      simp only [hmask, Except.map] at hslice
      rw [← Except.ok.inj hslice]
      exact ⟨rfl, rfl, mask, hmask, rfl⟩

theorem exists_sliceList (h : ∀ p ∈ pattern, ∀ var ∈ active, ∃ mask, p.column var = .ok mask) :
    ∃ work, sliceList active pattern = .ok work := by
  refine exists_mapM_eq_ok fun ⟨var, i⟩ hmem ↦ ?_
  cases pattern with
  | none => exact ⟨_, rfl⟩
  | some p =>
    obtain ⟨mask, hmask⟩ := h p rfl var (List.fst_mem_of_mem_zipIdx hmem)
    exact ⟨⟨i, var, some mask⟩, by simp only [hmask]; rfl⟩

theorem map_var_sliceList (h : sliceList active pattern = .ok work) :
    work.map Slice.var = active := by
  refine List.ext_getElem? fun i ↦ ?_
  rw [List.getElem?_map]
  cases hi : active[i]? with
  | none =>
    have hlength := length_sliceList h
    rw [List.getElem?_eq_none (hlength ▸ List.getElem?_eq_none_iff.mp hi), Option.map_none]
  | some var =>
    obtain ⟨s, hs, -, hvar, -⟩ := exists_slice h hi
    rw [hs, Option.map_some, hvar]

/-- Slices whose columns are their positions. -/
def Numbered (work : List Slice) : Prop := ∀ (i : Nat) (s : Slice), work[i]? = some s → s.column = i

theorem numbered_of_sliceList (h : sliceList active pattern = .ok work) : Numbered work := by
  intro i s hs
  have hi : i < active.length := by
    rw [← length_sliceList h]
    exact (List.getElem?_eq_some_iff.mp hs).1
  obtain ⟨s', hs', hcolumn, -⟩ := exists_slice h (List.getElem?_eq_getElem hi)
  obtain rfl := Option.some.inj (hs.symm.trans hs')
  exact hcolumn

theorem getElem?_of_mem_sliceList (h : sliceList active pattern = .ok work) {s : Slice}
    (hs : s ∈ work) : active[s.column]? = some s.var ∧ s.Masked pattern := by
  obtain ⟨i, hi⟩ := List.mem_iff_getElem?.mp hs
  have hlt : i < active.length := by
    rw [← length_sliceList h]
    exact (List.getElem?_eq_some_iff.mp hi).1
  obtain ⟨s', hs', hcolumn, hvar, hmasked⟩ := exists_slice h (List.getElem?_eq_getElem hlt)
  obtain rfl := Option.some.inj (hi.symm.trans hs')
  refine ⟨?_, hmasked⟩
  rw [hcolumn, hvar, List.getElem?_eq_getElem hlt]

theorem nodup_of_increasing (h : work.Pairwise fun s t ↦ s.column < t.column) : work.Nodup :=
  List.Nodup.of_map Slice.column (List.pairwise_map.mpr (h.imp Nat.ne_of_lt))

theorem Numbered.pairwise (h : Numbered work) :
    work.Pairwise fun s t ↦ s.column < t.column := by
  rw [List.pairwise_iff_getElem]
  intro i j hi hj hij
  rw [h i _ (List.getElem?_eq_getElem hi), h j _ (List.getElem?_eq_getElem hj)]
  exact hij

/-! ## The hands -/

/-- The hand of a place: the items, in order, whose numbers leave its own as a remainder. -/
def share {α : Type} (n : Nat) (items : List (α × Nat)) (k : Nat) : List α :=
  (items.filter fun item ↦ item.2 % n = k).map Prod.fst

private theorem foldl_modify_eq {α : Type} (n : Nat) (items : List (α × Nat))
    (places : List (List α)) :
    items.foldl (fun places item ↦ places.modify (item.2 % n) (· ++ [item.1])) places
      = places.mapIdx fun k place ↦ place ++ share n items k := by
  induction items generalizing places with
  | nil => exact List.ext_getElem? fun k ↦ by simp [share, List.getElem?_mapIdx]
  | cons item items ih =>
    rw [List.foldl_cons, ih]
    refine List.ext_getElem? fun k ↦ ?_
    rw [List.getElem?_mapIdx, List.getElem?_mapIdx, List.getElem?_modify]
    cases places[k]? with
    | none => rfl
    | some place =>
      -- The item lands at the place of its remainder and nowhere else.
      by_cases hk : item.2 % n = k
      · simp [share, hk]
      · simp [share, hk]

/-- **The closed form of dealing.** -/
theorem deal_eq_map_share {α : Type} (n : Nat) (items : List α) :
    deal n items = (List.range n).map (share n items.zipIdx) := by
  refine (foldl_modify_eq n items.zipIdx (List.replicate n [])).trans ?_
  refine List.ext_getElem? fun k ↦ ?_
  rw [List.getElem?_mapIdx, List.getElem?_map]
  by_cases hk : k < n
  · rw [List.getElem?_replicate_of_lt hk, List.getElem?_range hk]
    rfl
  · rw [List.getElem?_eq_none (by simpa using hk), List.getElem?_eq_none (by simpa using hk)]
    rfl

theorem length_deal {α : Type} (n : Nat) (items : List α) : (deal n items).length = n := by
  rw [deal_eq_map_share, List.length_map, List.length_range]

theorem Numbered.share_eq (h : Numbered work) (n k : Nat) :
    share n work.zipIdx k = work.filter fun s ↦ s.column % n = k := by
  have hzip : ∀ item ∈ work.zipIdx, item.1.column = item.2 := by
    rintro ⟨s, i⟩ hitem
    exact h i s (List.mem_zipIdx_iff_getElem?.mp hitem)
  have hfilter : (work.zipIdx.filter fun item ↦ item.2 % n = k)
      = work.zipIdx.filter ((fun s : Slice ↦ s.column % n = k) ∘ Prod.fst) := by
    refine List.filter_congr fun item hitem ↦ ?_
    rw [Function.comp_apply, hzip item hitem]
  rw [share, hfilter, ← List.filter_map, List.zipIdx_map_fst]

theorem Numbered.deal_eq (h : Numbered work) (n : Nat) :
    deal n work = (List.range n).map fun k ↦ work.filter fun s ↦ s.column % n = k := by
  rw [deal_eq_map_share]
  exact List.map_congr_left fun k _ ↦ h.share_eq n k

theorem Numbered.length_le_of_mem_deal (h : Numbered work) (n : Nat) {hand : List Slice}
    (hhand : hand ∈ deal n work) : hand.length ≤ work.length := by
  rw [h.deal_eq] at hhand
  obtain ⟨k, -, rfl⟩ := List.mem_map.mp hhand
  exact List.length_filter_le _ _

/-! ## The hands one after another -/

/-- The column `i` comes before the column `j` when `n` hands are read one after another. -/
def Before (n i j : Nat) : Prop := i % n < j % n ∨ i % n = j % n ∧ i < j

theorem Before.ne {n i j : Nat} (h : Before n i j) : i ≠ j := by
  rintro rfl
  rcases h with h | ⟨-, h⟩
  · exact Nat.lt_irrefl _ h
  · exact Nat.lt_irrefl _ h

theorem Numbered.pairwise_deal (h : Numbered work) (n : Nat) :
    (deal n work).flatten.Pairwise fun s t ↦ Before n s.column t.column := by
  rw [h.deal_eq, ← List.flatMap_def, List.pairwise_flatMap]
  constructor
  · -- Within a hand the remainders agree, and the numbers increase.
    intro k _
    refine (h.pairwise.filter _).imp_of_mem fun hs ht hlt ↦ Or.inr ⟨?_, hlt⟩
    have hsk := of_decide_eq_true (List.mem_filter.mp hs).2
    have htk := of_decide_eq_true (List.mem_filter.mp ht).2
    rw [hsk, htk]
  · -- From one hand to a later one the remainder increases.
    refine List.pairwise_lt_range.imp fun hlt s hs t ht ↦ Or.inl ?_
    have hsk := of_decide_eq_true (List.mem_filter.mp hs).2
    have htk := of_decide_eq_true (List.mem_filter.mp ht).2
    rwa [hsk, htk]

theorem Numbered.nodup_deal (h : Numbered work) (n : Nat) :
    ((deal n work).flatten.map Slice.column).Nodup := by
  rw [List.Nodup, List.pairwise_map]
  exact (h.pairwise_deal n).imp Before.ne

/-- **What is dealt is dealt once.** -/
theorem Numbered.perm_deal (h : Numbered work) {n : Nat} (hn : 0 < n) :
    (deal n work).flatten.Perm work := by
  have hdealt : (deal n work).flatten.Nodup := (h.nodup_deal n).of_map
  have hwork : work.Nodup := nodup_of_increasing h.pairwise
  -- Neither list has duplicates, and so it is enough to compare their members.
  rw [List.perm_ext_iff_of_nodup hdealt hwork]
  intro s
  rw [h.deal_eq, ← List.flatMap_def]
  simp only [List.mem_flatMap, List.mem_range, List.mem_filter, decide_eq_true_eq]
  constructor
  · rintro ⟨k, -, hs, -⟩
    exact hs
  · intro hs
    exact ⟨s.column % n, Nat.mod_lt _ hn, hs, rfl⟩

end DampedLeastSquares.Jacobian
