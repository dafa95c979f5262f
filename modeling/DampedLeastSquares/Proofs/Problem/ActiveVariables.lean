import DampedLeastSquares.Proofs.Bundle.AdjustmentSession
import DampedLeastSquares.Proofs.Config.Magnitudes
import DampedLeastSquares.Proofs.Jacobian.Distribution
import DampedLeastSquares.Proofs.Problem.Affine
import DampedLeastSquares.Proofs.Solve.Faultless

/-!
# The active variables

A caller says which variables may move by a list of numbers of any kind. Each of them is read as a
whole number first, toward zero, and the list is refused if a number is repeated then, or is that of
no variable. A number that has no whole part ends the reading. Either way the variables that could
move before are still those that can.

So whichever lists were handed over, the active variables exist and are distinct. An update goes
through them one after another and adds to the point as it stands. Since no variable comes twice,
each of its entries is added once, and to what the coordinate was at first.
-/

namespace DampedLeastSquares

/-! ## Whole parts -/

namespace Number

/-- A real number without its fraction. -/
noncomputable def towardZero (v : ℝ) : ℤ := if 0 ≤ v then ⌊v⌋ else ⌈v⌉

/-- A number has this whole part: it is finite, and without its fraction it is this. -/
def TruncatesTo (a : Number) (i : Int) : Prop :=
  ∃ v : ℝ, a.place? = some (v : EReal) ∧ towardZero v = i

/-- A number has no whole part for this reason: it is undefined, or infinite. -/
inductive Untruncatable (a : Number) : Fault → Prop
  /-- It has no place. -/
  | undefined (h : a.place? = none) : Untruncatable a .undefinedIndex
  /-- It is above every number. -/
  | above (h : a.place? = some ⊤) : Untruncatable a .infiniteIndex
  /-- It is below every number. -/
  | below (h : a.place? = some ⊥) : Untruncatable a .infiniteIndex

theorem towardZero_intCast (n : ℤ) : towardZero n = n := by
  rw [towardZero, Int.floor_intCast, Int.ceil_intCast, ite_self]

theorem towardZero_div (n : ℤ) {d : ℤ} (hd : 0 < d) : towardZero (n / d : ℝ) = n.tdiv d := by
  have hreal : (0 : ℝ) < d := by exact_mod_cast hd
  rw [towardZero]
  by_cases hn : 0 ≤ n
  · have hnonneg : (0 : ℝ) ≤ n / d := div_nonneg (by exact_mod_cast hn) hreal.le
    rw [if_pos hnonneg, floor_div n hd, Int.tdiv_eq_ediv_of_nonneg hn]
  · -- Division of integers rounds down, so below zero it is done with the opposite number.
    have hneg : (n / d : ℝ) < 0 := div_neg_of_neg_of_pos (by exact_mod_cast not_le.mp hn) hreal
    rw [if_neg (not_le.mpr hneg), ceil_div n hd, ← Int.tdiv_eq_ediv_of_nonneg (by omega),
      Int.neg_tdiv, neg_neg]

/-- **What is read of a number is its whole part,** if it has one. -/
theorem truncate_eq_ok_iff {a : Number} {i : Int} : a.truncate = .ok i ↔ a.TruncatesTo i := by
  rw [truncate, TruncatesTo, place?]
  cases a.magnitude with
  | whole n => simp [Magnitude.place?, towardZero_intCast]
  | fractional n places =>
    have hunit : 0 < unit places := by exact_mod_cast unit_pos places
    simp [Magnitude.place?, ← towardZero_div n hunit]
  | infinite negative => cases negative <;> simp [Magnitude.place?]
  | undefined => simp [Magnitude.place?]

theorem truncate_eq_error_iff {a : Number} {fault : Fault} :
    a.truncate = .error fault ↔ a.Untruncatable fault := by
  rw [truncate]
  constructor
  · intro h
    split at h
    · exact nomatch h
    · exact nomatch h
    next negative hmagnitude =>
      obtain rfl := Except.error.inj h
      have hplace : a.place? = some (if negative then ⊥ else ⊤) := by
        rw [place?, hmagnitude, Magnitude.place?]
      cases negative with
      | true => exact .below hplace
      | false => exact .above hplace
    next hmagnitude =>
      obtain rfl := Except.error.inj h
      exact .undefined (by rw [place?, hmagnitude, Magnitude.place?])
  · intro h
    cases h with
    | undefined h | above h | below h =>
      rw [place?] at h
      cases hmagnitude : a.magnitude <;> simp [hmagnitude, Magnitude.place?] at h ⊢

end Number

theorem exists_first_cons_iff {α : Type} {passes stops : α → Prop} {x : α} {l : List α} :
    (∃ before a after, x :: l = before ++ a :: after ∧ (∀ b ∈ before, passes b) ∧ stops a) ↔
      stops x ∨ passes x ∧
        ∃ before a after, l = before ++ a :: after ∧ (∀ b ∈ before, passes b) ∧ stops a := by
  constructor
  · rintro ⟨_ | ⟨b, before⟩, a, after, heq, hpasses, hstops⟩
    · obtain ⟨rfl, -⟩ := List.cons.inj heq
      exact Or.inl hstops
    · obtain ⟨rfl, rfl⟩ := List.cons.inj heq
      obtain ⟨hhead, hrest⟩ := List.forall_mem_cons.mp hpasses
      exact Or.inr ⟨hhead, before, a, after, rfl, hrest, hstops⟩
  · rintro (hstops | ⟨hhead, before, a, after, rfl, hpasses, hstops⟩)
    · exact ⟨[], x, l, rfl, List.forall_mem_nil _, hstops⟩
    · exact ⟨x :: before, a, after, rfl, List.forall_mem_cons.mpr ⟨hhead, hpasses⟩, hstops⟩

/-- A list cannot be read if one of its members cannot be, and the first of these tells why. -/
theorem mapM_eq_error_iff {ε α β : Type} {f : α → Except ε β} {l : List α} {e : ε} :
    l.mapM f = .error e ↔ ∃ before a after, l = before ++ a :: after ∧
      (∀ b ∈ before, ∃ c, f b = .ok c) ∧ f a = .error e := by
  induction l with
  | nil => simp [pure, Except.pure]
  | cons a l ih =>
    rw [List.mapM_cons, exists_first_cons_iff, ← ih]
    cases f a with
    | error e' => simp [bind, Except.bind]
    | ok c => cases l.mapM f <;> simp [bind, Except.bind, pure, Except.pure]

/-! ## Restrictions -/

/-- The whole parts of a list of numbers are those of distinct variables. -/
structure Names (dimension : Int) (indices : List Number) (named : List Int) : Prop where
  /-- The numbers have these whole parts, in the given order. -/
  read : List.Forall₂ Number.TruncatesTo indices named
  /-- The whole parts are distinct. -/
  nodup : named.Nodup
  /-- The whole parts are those of variables. -/
  range : ∀ i ∈ named, 0 ≤ i ∧ i < dimension

section

variable {dimension : Int} {indices : List Number} {named : List Int}

theorem mapM_truncate_eq_ok_iff :
    indices.mapM Number.truncate = .ok named ↔ List.Forall₂ Number.TruncatesTo indices named := by
  simp only [Jacobian.mapM_eq_ok_iff, Number.truncate_eq_ok_iff]

theorem Names.map_toNat (h : Names dimension indices named) :
    (named.map Int.toNat).map Int.ofNat = named := by
  rw [List.map_map]
  refine (List.map_congr_left fun i hi ↦ ?_).trans (List.map_id named)
  exact Int.toNat_of_nonneg (h.range i hi).1

theorem Names.nodup_toNat (h : Names dimension indices named) :
    (named.map Int.toNat).Nodup := by
  refine List.Nodup.of_map Int.ofNat ?_
  rw [h.map_toNat]
  exact h.nodup

theorem Names.toNat_lt (h : Names dimension indices named) :
    ∀ i ∈ named.map Int.toNat, (i : Int) < dimension := by
  intro i hi
  have hmem : (i : Int) ∈ (named.map Int.toNat).map Int.ofNat := List.mem_map_of_mem hi
  rw [h.map_toNat] at hmem
  exact (h.range i hmem).2

end

namespace Problem

variable {R : Type} {p q : Problem R} {indices : List Number} {named : List Int}

/-- The problem in which the named variables may move. -/
def withActive (p : Problem R) (named : List Int) (h : Names p.dimension indices named) :
    Problem R :=
  { p with
    active := named.map Int.toNat
    active_nodup := h.nodup_toNat
    active_lt := h.toNat_lt }

/-- What comes of saying which variables may move. -/
inductive Restriction (p : Problem R) (indices : List Number) :
    Except Fault (Option (Problem R)) → Prop
  /-- The list names variables, and these are the ones that may move. -/
  | accepted {named : List Int} (names : Names p.dimension indices named) :
      Restriction p indices (.ok (some (p.withActive named names)))
  /-- The list can be read, but it does not name distinct variables. -/
  | refused {named : List Int} (read : List.Forall₂ Number.TruncatesTo indices named)
      (unnamed : ¬Names p.dimension indices named) : Restriction p indices (.ok none)
  /-- The first number without a whole part is the reason why the list cannot be read. -/
  | unreadable {before after : List Number} {a : Number} {fault : Fault}
      (first : indices = before ++ a :: after) (read : ∀ b ∈ before, ∃ i, b.TruncatesTo i)
      (reason : a.Untruncatable fault) : Restriction p indices (.error fault)

theorem setActive?_of_names (h : Names p.dimension indices named) :
    p.setActive? indices = .ok (some (p.withActive named h)) := by
  rw [setActive?, mapM_truncate_eq_ok_iff.mpr h.read]
  simp only [bind, Except.bind, pure, Except.pure]
  rw [dif_pos h.nodup, dif_pos h.range]
  rfl

theorem setActive?_of_not_names (hread : List.Forall₂ Number.TruncatesTo indices named)
    (h : ¬Names p.dimension indices named) : p.setActive? indices = .ok none := by
  rw [setActive?, mapM_truncate_eq_ok_iff.mpr hread]
  simp only [bind, Except.bind, pure, Except.pure]
  split
  next hnodup =>
    split
    next hrange => exact absurd ⟨hread, hnodup, hrange⟩ h
    · rfl
  · rfl

theorem setActive?_of_unreadable {fault : Fault}
    (h : indices.mapM Number.truncate = .error fault) : p.setActive? indices = .error fault := by
  rw [setActive?, h]
  rfl

/-- **To say which variables may move has one of three results,** and the list decides which. -/
theorem setActive?_eq_iff {r : Except Fault (Option (Problem R))} :
    p.setActive? indices = r ↔ p.Restriction indices r := by
  constructor
  · rintro rfl
    cases hread : indices.mapM Number.truncate with
    | error fault =>
      rw [setActive?_of_unreadable hread]
      obtain ⟨before, a, after, hfirst, hbefore, herror⟩ := mapM_eq_error_iff.mp hread
      exact .unreadable hfirst
        (fun b hb ↦ (hbefore b hb).imp fun _ ↦ Number.truncate_eq_ok_iff.mp)
        (Number.truncate_eq_error_iff.mp herror)
    | ok named =>
      rw [mapM_truncate_eq_ok_iff] at hread
      by_cases h : Names p.dimension indices named
      · rw [setActive?_of_names h]
        exact .accepted h
      · rw [setActive?_of_not_names hread h]
        exact .refused hread h
  · intro h
    cases h with
    | accepted names => exact setActive?_of_names names
    | refused read unnamed => exact setActive?_of_not_names read unnamed
    | unreadable first read reason =>
      exact setActive?_of_unreadable (mapM_eq_error_iff.mpr ⟨_, _, _, first,
        fun b hb ↦ (read b hb).imp fun _ ↦ Number.truncate_eq_ok_iff.mpr,
        Number.truncate_eq_error_iff.mpr reason⟩)

/-! ## Calls -/

/-- The problem after a call that says which variables may move. A list that is refused, or that
cannot be read, leaves it alone. -/
def restrict (p : Problem R) (indices : List Number) : Problem R :=
  match p.setActive? indices with
  | .ok (some q) => q
  | _ => p

/-- The problem after one such call after another. -/
def restrictAll (p : Problem R) (calls : List (List Number)) : Problem R :=
  calls.foldl restrict p

theorem restrict_of_names (h : Names p.dimension indices named) :
    p.restrict indices = p.withActive named h := by
  rw [restrict, setActive?_of_names h]

theorem restrict_of_not_names (h : ∀ named, ¬Names p.dimension indices named) :
    p.restrict indices = p := by
  have hrestriction : p.Restriction indices (p.setActive? indices) := setActive?_eq_iff.mp rfl
  rw [restrict]
  generalize p.setActive? indices = r at hrestriction
  cases hrestriction with
  | accepted names => exact absurd names (h _)
  | refused | unreadable => rfl

theorem dimension_restrict (p : Problem R) (indices : List Number) :
    (p.restrict indices).dimension = p.dimension := by
  by_cases h : ∃ named, Names p.dimension indices named
  · obtain ⟨named, hnamed⟩ := h
    rw [restrict_of_names hnamed, withActive]
  · rw [restrict_of_not_names (not_exists.mp h)]

theorem dimension_restrictAll (p : Problem R) (calls : List (List Number)) :
    (p.restrictAll calls).dimension = p.dimension := by
  induction calls generalizing p with
  | nil => rfl
  | cons indices calls ih =>
    rw [restrictAll, List.foldl_cons]
    exact (ih (p.restrict indices)).trans (dimension_restrict p indices)

theorem restrictAll_of_not_names {calls : List (List Number)}
    (h : ∀ indices ∈ calls, ∀ named, ¬Names p.dimension indices named) :
    p.restrictAll calls = p := by
  induction calls with
  | nil => rfl
  | cons indices calls ih =>
    rw [List.forall_mem_cons] at h
    rw [restrictAll, List.foldl_cons, restrict_of_not_names h.1]
    exact ih h.2

theorem active_restrictAll_of_names {before after : List (List Number)}
    (h : Names p.dimension indices named)
    (hlast : ∀ later ∈ after, ∀ named', ¬Names p.dimension later named') :
    (p.restrictAll (before ++ indices :: after)).active.map Int.ofNat = named := by
  have hdimension := dimension_restrictAll p before
  rw [restrictAll, List.foldl_append, List.foldl_cons, ← restrictAll, ← restrictAll]
  rw [← hdimension] at h hlast
  have hafter : ((p.restrictAll before).withActive named h).restrictAll after
      = (p.restrictAll before).withActive named h := restrictAll_of_not_names hlast
  rw [restrict_of_names h, hafter]
  exact h.map_toNat

end Problem

theorem FunctionModel.session_setActive {R : Type} [Scalar R] (m : FunctionModel R)
    (calls : List (List Number)) :
    m.session (calls.map Call.setActive)
      = some { m with problem := m.problem.restrictAll calls } := by
  induction calls generalizing m with
  | nil => rfl
  | cons indices calls ih =>
    have hcall : m.call (.setActive indices)
        = some (none, { m with problem := m.problem.restrict indices }) := by
      rw [call, setActive?, Problem.restrict]
      cases m.problem.setActive? indices with
      | error fault => rfl
      | ok p? => cases p? <;> rfl
    rw [List.map_cons, session, hcall]
    exact ih { m with problem := m.problem.restrict indices }

theorem Adjustment.session_setActive {R : Type} [CircularScalar R] (a : Adjustment R)
    (calls : List (List Number)) :
    a.session (calls.map Call.setActive)
      = some { a with problem := a.problem.restrictAll calls } := by
  induction calls generalizing a with
  | nil => rfl
  | cons indices calls ih =>
    have hcall : a.call (.setActive indices)
        = some { a with problem := a.problem.restrict indices } := by
      rw [call, setActive?, Problem.restrict]
      cases a.problem.setActive? indices with
      | error fault => rfl
      | ok p? => cases p? <;> rfl
    rw [List.map_cons, session, hcall]
    exact ih { a with problem := a.problem.restrict indices }

/-! ## Updates -/

section

variable {R : Type} [Scalar R] {x z update : List R} {active : List Nat}

/-- The entries of an update are added to a point, each of them once and to its own coordinate. -/
structure MovedOnce (active : List Nat) (update x z : List R) : Prop where
  /-- The other coordinates stay, and so does their number. -/
  others : SameOff active x z
  /-- The entry of an active variable is added to what its coordinate was. -/
  own : ∀ i var : Nat, active[i]? = some var →
    ∃ a d : R, x[var]? = some a ∧ update[i]? = some d ∧ z[var]? = some (a + d)

namespace Problem

/-- Where no variable comes twice, the entries of an update from the `i`-th on are added once. -/
theorem own_of_addUpdate {i : Nat} (hnodup : active.Nodup)
    (hactive : ∀ var ∈ active, var < x.length) (hlength : i + active.length ≤ update.length)
    (h : addUpdate moveEntry update active i x = .ok z) :
    ∀ j var, active[j]? = some var →
      ∃ a d, x[var]? = some a ∧ update[i + j]? = some d ∧ z[var]? = some (a + d) := by
  induction active generalizing i x with
  | nil => exact nofun
  | cons first rest ih =>
    rw [List.nodup_cons] at hnodup
    rw [List.forall_mem_cons] at hactive
    rw [List.length_cons] at hlength
    have hi : i < update.length := by omega
    have hentry : updateEntry update i = .ok update[i] := by
      rw [updateEntry, List.getElem?_eq_getElem hi]
    rw [addUpdate, hentry, moveEntry_natCast hactive.1] at h
    have hrest : addUpdate moveEntry update rest (i + 1) (x.modify first (· + update[i])) = .ok z :=
      h
    intro j var hvar
    -- The invariant is about the point as it stands, to which the first entry has been added.
    cases j with
    | zero =>
      obtain rfl := Option.some.inj hvar
      -- The variable does not come again.
      refine ⟨x[first], update[i], List.getElem?_eq_getElem _, List.getElem?_eq_getElem hi, ?_⟩
      rw [(sameOff_of_addUpdate hrest).2 first hnodup.1, List.getElem?_modify_eq,
        List.getElem?_eq_getElem hactive.1]
      rfl
    | succ j =>
      have hmem : var ∈ rest := List.mem_of_getElem? hvar
      have hne : first ≠ var := fun heq ↦ hnodup.1 (heq ▸ hmem)
      obtain ⟨a, d, ha, hd, hz⟩ := ih hnodup.2
        (fun v hv ↦ (List.length_modify ..).symm ▸ hactive.2 v hv) (by omega) hrest j var hvar
      rw [List.getElem?_modify_ne _ _ hne] at ha
      exact ⟨a, d, ha, by rwa [Nat.add_right_comm] at hd, hz⟩

omit [Scalar R] in
theorem addUpdate_map {P Q : Type} {move : P → Int → Except Fault R → Except Fault P}
    {move' : Q → Int → Except Fault R → Except Fault Q} {g : P → Q}
    (h : ∀ x var amount, move' (g x) var amount = (move x var amount).map g) (active : List Nat)
    (i : Nat) (x : P) :
    addUpdate move' update active i (g x) = (addUpdate move update active i x).map g := by
  induction active generalizing i x with
  | nil => rfl
  | cons var rest ih =>
    rw [addUpdate, addUpdate, h]
    cases move x var (updateEntry update i) with
    | error fault => rfl
    | ok y => exact ih (i + 1) y

theorem moveRow_ofList (x : List R) (var : Int) (amount : Except Fault R) :
    (Tensor.ofList x).moveRow var amount = (moveEntry x var amount).map Tensor.ofList := by
  have hmodify : ∀ i a, (Tensor.ofList x).modifyRow (· + a) i = .ofList (x.modify i (· + a)) := by
    intro i a
    have hentries : (x.mapIdx fun k b ↦ if k / 1 = i then b + a else b) = x.modify i (· + a) := by
      refine List.ext_getElem? fun k ↦ ?_
      rw [List.getElem?_mapIdx, List.getElem?_modify, Nat.div_one]
      simp only [eq_comm (a := k)]
      cases x[k]? <;> split <;> simp [*]
    simp only [Tensor.modifyRow, Tensor.ofList, List.tail_cons, Tensor.count, hentries,
      List.length_modify]
  rw [Tensor.moveRow, moveEntry]
  dsimp only [Tensor.ofList]
  cases position? var x.length with
  | none => rfl
  | some i =>
    cases amount with
    | error fault => rfl
    | ok a => exact congrArg Except.ok (hmodify i a)

theorem applyUpdateToRows_ofList (p : Problem R) (x update : List R) :
    p.applyUpdateToRows (.ofList x) update = (p.applyUpdate x update).map Tensor.ofList := by
  rw [applyUpdateToRows, applyUpdate, Tensor.size_ofList]
  split
  · exact addUpdate_map moveRow_ofList p.active 0 x
  · rfl

/-- **An update adds each of its entries once.** -/
theorem exists_movedOnce (p : Problem R) (hx : p.dimension ≤ x.length)
    (hactive : p.active.length ≤ update.length) (hupdate : update.length ≤ x.length) :
    ∃ z, p.applyUpdate x update = .ok z ∧ MovedOnce p.active update x z := by
  have hlt : ∀ var ∈ p.active, var < x.length := fun var hvar ↦ by
    have h := p.active_lt var hvar
    omega
  have hlength : 0 + p.active.length ≤ update.length := by omega
  obtain ⟨z, hz⟩ := exists_addUpdate_eq_ok hlt hlength
  refine ⟨z, by rw [applyUpdate, if_pos hupdate, hz], sameOff_of_addUpdate hz, fun i var hvar ↦ ?_⟩
  obtain ⟨a, d, ha, hd, hsum⟩ := own_of_addUpdate p.active_nodup hlt hlength hz i var hvar
  exact ⟨a, d, ha, by rwa [Nat.zero_add] at hd, hsum⟩

end Problem

end

/-- What is known of a problem after some calls that say which of its variables may move. -/
structure Problem.Restricted {R : Type} [Scalar R] (p : Problem R) (calls : List (List Number))
    (q : Problem R) : Prop where
  /-- The active variables are distinct. -/
  nodup : q.active.Nodup
  /-- The active variables exist. -/
  exists_variable : ∀ i ∈ q.active, (i : Int) < p.dimension
  /-- One more list has one of three results, and its whole parts decide which. -/
  restriction : ∀ indices r, q.setActive? indices = r ↔ q.Restriction indices r
  /-- If one more list names variables, these are active then, in the given order. -/
  named : ∀ indices named, Names p.dimension indices named →
    (q.restrict indices).active.map Int.ofNat = named
  /-- If it names none, nothing changes. -/
  unnamed : ∀ indices, (∀ named, ¬Names p.dimension indices named) → q.restrict indices = q
  /-- If none of the lists named any, the problem is what it was. -/
  of_not_names : (∀ indices ∈ calls, ∀ named, ¬Names p.dimension indices named) → q = p
  /-- If lists named variables, the active ones are those of the last list that did. -/
  of_names : ∀ before indices after named, calls = before ++ indices :: after →
    Names p.dimension indices named →
    (∀ later ∈ after, ∀ named', ¬Names p.dimension later named') → q.active.map Int.ofNat = named
  /-- A model takes such calls by its problem. -/
  model : ∀ m : FunctionModel R, m.problem = p →
    m.session (calls.map Call.setActive) = some { m with problem := q }
  /-- An adjustment takes such calls by its problem. -/
  adjustment : ∀ {S : Type} [CircularScalar S] (a : Adjustment S),
    a.session (calls.map Call.setActive) = some { a with problem := a.problem.restrictAll calls }
  /-- A point with a coordinate for each variable can be moved by every update that has enough
  entries and not too many, as a vector and as an array, and each entry is added once. -/
  exists_moved : ∀ x update : List R, p.dimension ≤ x.length → q.active.length ≤ update.length →
    update.length ≤ x.length → ∃ z, q.applyUpdate x update = .ok z ∧
      q.applyUpdateToRows (.ofList x) update = .ok (.ofList z) ∧
      MovedOnce q.active update x z

/-- **Whatever lists are handed over, the active variables are distinct and exist, and an update
adds each of its entries once.** -/
theorem Problem.active_of_restrictAll {R : Type} [Scalar R] {p q : Problem R}
    {calls : List (List Number)} (hq : p.restrictAll calls = q) : p.Restricted calls q := by
  have hdimension : q.dimension = p.dimension := hq ▸ dimension_restrictAll p calls
  constructor
  case nodup => exact q.active_nodup
  case exists_variable => exact hdimension ▸ q.active_lt
  case restriction => exact fun indices r ↦ setActive?_eq_iff
  case named =>
    intro indices named hnames
    rw [← hdimension] at hnames
    rw [restrict_of_names hnames]
    exact hnames.map_toNat
  case unnamed =>
    intro indices hnot
    rw [← hdimension] at hnot
    exact restrict_of_not_names hnot
  case of_not_names => exact fun hnot ↦ hq.symm.trans (restrictAll_of_not_names hnot)
  case of_names =>
    rintro before indices after named rfl hnames hlast
    rw [← hq]
    exact active_restrictAll_of_names hnames hlast
  case model =>
    rintro m rfl
    rw [← hq]
    exact m.session_setActive calls
  case adjustment => exact fun a ↦ a.session_setActive calls
  case exists_moved =>
    intro x update hx hactive hupdate
    obtain ⟨z, hz, hmoved⟩ := q.exists_movedOnce (hdimension.trans_le hx) hactive hupdate
    refine ⟨z, hz, ?_, hmoved⟩
    rw [applyUpdateToRows_ofList, hz]
    rfl

open PartialRat in
/-- Of three variables the last and the first one may move, in this order. A list in which one is
repeated, and one in which a number has no variable, change nothing about that. -/
theorem Problem.active_of_restrictAll_threeGoals :
    ∃ q, threeGoals.restrictAll
        [[.int 2, .truth false], [.int 1, .truth true], [.int 0, .int 3], [.int (-1)]] = q ∧
      q.active = [2, 0] ∧ q.applyUpdate [1, 2, 3] [10, 20] = .ok [21, 2, 13] ∧
      MovedOnce [2, 0] [10, 20] [1, 2, 3] [(21 : PartialRat), 2, 13] := by
  obtain ⟨q, hq, hactive, hsum⟩ : ∃ q, threeGoals.restrictAll
      [[.int 2, .truth false], [.int 1, .truth true], [.int 0, .int 3], [.int (-1)]] = q ∧
      q.active = [2, 0] ∧ q.applyUpdate [1, 2, 3] [10, 20] = .ok [21, 2, 13] :=
    ⟨_, rfl, by decide +kernel, by decide +kernel⟩
  obtain ⟨z, hz, -, hz'⟩ := (active_of_restrictAll hq).exists_moved [1, 2, 3] [10, 20]
    (by decide) (by rw [hactive]; decide) (by decide)
  rw [hactive, Except.ok.inj (hz.symm.trans hsum)] at hz'
  exact ⟨q, hq, hactive, hsum, hz'⟩

end DampedLeastSquares
