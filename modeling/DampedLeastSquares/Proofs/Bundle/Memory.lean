import DampedLeastSquares.Proofs.Bundle.Adjusting
import Mathlib.Logic.Function.Basic

/-!
# Adjusting what others hold

A bundle is a value, and what is done with it cannot be seen in it afterwards. A caller, however,
keeps cameras and points in places, and an adjustment works on these places: it begins with a map of
its own that has the same cameras, and with the very points that the caller holds. When a vector is
restored into it, cameras and points go to new places, and the adjustment moves there.

`Memory` has this in it and no more. The adjustment of a place returns the place it was given if the
solve fails, and the place it has moved to if the solve succeeds; in either case there is in that
place what adjusting the value gives. The places that were in use before have in them what they had,
even if the adjustment fails with a fault, so whoever holds one of them notices nothing.
-/

namespace DampedLeastSquares

variable {R : Type}

/-! ## Places -/

/-- Where cameras and points are kept. What is beyond the places in use is nowhere referred to. -/
structure Memory (R : Type) where
  /-- The maps of cameras. -/
  cameras : Nat → Labelled (Camera R)
  /-- The points with what was seen of them. -/
  estimates : Nat → Observations R × List (Vec3 R)
  /-- How many places are in use. -/
  used : Nat

/-- Where the cameras and the points of a bundle are. -/
structure Place where
  /-- The place of the cameras. -/
  cameras : Nat
  /-- The place of the points. -/
  estimates : Nat

namespace Memory

/-- The bundle in a place. -/
def bundle (m : Memory R) (place : Place) : Bundle R :=
  ⟨m.cameras place.cameras, (m.estimates place.estimates).1, (m.estimates place.estimates).2⟩

/-- Puts a map of cameras into the next place. -/
def putCameras (m : Memory R) (cameras : Labelled (Camera R)) : Memory R :=
  { m with cameras := Function.update m.cameras m.used cameras, used := m.used + 1 }

/-- Puts points with what was seen of them into the next place. -/
def putEstimates (m : Memory R) (estimates : Observations R × List (Vec3 R)) : Memory R :=
  { m with estimates := Function.update m.estimates m.used estimates, used := m.used + 1 }

/-- Begins to work on the bundle in a place: with a copy of its map, and with the same points. -/
def enter (m : Memory R) (place : Place) : Memory R × Place :=
  (m.putCameras (m.cameras place.cameras), ⟨m.used, place.estimates⟩)

section

variable [CircularScalar R]

/-- Restores a vector into the bundle in a place, which moves to a new one. -/
def restore (m : Memory R) (place : Place) (vector : Tensor R) : Option (Memory R × Place) :=
  ((m.bundle place).restore vector).map fun b ↦
    ((m.putCameras b.cameras).putEstimates (b.observations, b.points), ⟨m.used, m.used + 1⟩)

/-- What a solve leaves: the point that was committed is restored. -/
def afterSolve (m : Memory R) (place : Place) (outcome : Outcome R) : Memory R × Place :=
  (outcome.committed.bind fun x ↦ m.restore place (.ofList x)).getD (m, place)

/-- Adjusts the bundle in a place. Returned are the outcome and a place: the given one, or, if the
solve succeeds, the one that it has left. There is nothing if the iteration goes on for ever. -/
def adjust (m : Memory R) (input : Place) (holdFirst : Bool) (settings : Settings R)
    (diffStep : Amount R) (workers : Except Fault Workers) :
    Option (Memory R × Except Fault (Outcome R × Place)) :=
  let (m, working) := m.enter input
  let solved := (Adjustment.make (m.bundle working) holdFirst diffStep workers).bind
    fun a ↦ a.solve settings none
  match solved with
  | .error fault => some (m, .error fault)
  | .ok solved => solved.map fun (outcome, _) ↦
    let (m, working) := m.afterSolve working outcome
    (m, if outcome.success then
        if outcome.trace.errors = [] then .error .emptyHistory else .ok (outcome, working)
      else .ok (outcome, input))

end

/-! ## What is kept -/

/-- The places in use have kept what was in them. -/
structure KeptIn (m m' : Memory R) : Prop where
  /-- No place was given up. -/
  used : m.used ≤ m'.used
  /-- The cameras in each place are the same. -/
  cameras : ∀ k < m.used, m'.cameras k = m.cameras k
  /-- The points in each place are the same. -/
  estimates : ∀ k < m.used, m'.estimates k = m.estimates k

/-- A bundle is in a place. -/
structure Holds (m : Memory R) (place : Place) (b : Bundle R) : Prop where
  /-- The place of the cameras is in use. -/
  cameras_lt : place.cameras < m.used
  /-- The place of the points is in use. -/
  estimates_lt : place.estimates < m.used
  /-- What is there makes up the bundle. -/
  bundle : m.bundle place = b

variable {m m' m'' : Memory R} {place : Place} {b b' : Bundle R}

theorem KeptIn.refl (m : Memory R) : m.KeptIn m := ⟨le_rfl, fun _ _ ↦ rfl, fun _ _ ↦ rfl⟩

theorem KeptIn.trans (h : m.KeptIn m') (h' : m'.KeptIn m'') : m.KeptIn m'' where
  used := h.used.trans h'.used
  cameras k hk := (h'.cameras k (hk.trans_le h.used)).trans (h.cameras k hk)
  estimates k hk := (h'.estimates k (hk.trans_le h.used)).trans (h.estimates k hk)

theorem keptIn_putCameras (m : Memory R) (cameras : Labelled (Camera R)) :
    m.KeptIn (m.putCameras cameras) :=
  ⟨Nat.le_succ _, fun _ hk ↦ Function.update_of_ne hk.ne _ _, fun _ _ ↦ rfl⟩

theorem keptIn_putEstimates (m : Memory R) (estimates : Observations R × List (Vec3 R)) :
    m.KeptIn (m.putEstimates estimates) :=
  ⟨Nat.le_succ _, fun _ _ ↦ rfl, fun _ hk ↦ Function.update_of_ne hk.ne _ _⟩

theorem keptIn_enter (m : Memory R) (place : Place) : m.KeptIn (m.enter place).1 :=
  m.keptIn_putCameras _

theorem Holds.keptIn (h : m.Holds place b) (hkept : m.KeptIn m') : m'.Holds place b where
  cameras_lt := h.cameras_lt.trans_le hkept.used
  estimates_lt := h.estimates_lt.trans_le hkept.used
  bundle := by
    rw [← h.bundle, Memory.bundle, Memory.bundle, hkept.cameras _ h.cameras_lt,
      hkept.estimates _ h.estimates_lt]

theorem Holds.enter (h : m.Holds place b) : (m.enter place).1.Holds (m.enter place).2 b where
  cameras_lt := Nat.lt_succ_self _
  estimates_lt := h.estimates_lt.trans (Nat.lt_succ_self _)
  bundle := by
    have hcameras : (m.enter place).1.cameras m.used = m.cameras place.cameras :=
      Function.update_self ..
    rw [← h.bundle, Memory.bundle, Memory.enter]
    exact congrArg (Bundle.mk · _ _) hcameras

variable [CircularScalar R] {t : Tensor R} {o : Outcome R}

theorem exists_restore (h : (m.bundle place).restore t = some b') :
    ∃ m', m.restore place t = some (m', ⟨m.used, m.used + 1⟩) ∧ m.KeptIn m' ∧
      m'.Holds ⟨m.used, m.used + 1⟩ b' := by
  refine ⟨_, by rw [restore, h, Option.map_some],
    (m.keptIn_putCameras _).trans (keptIn_putEstimates ..), ?_, ?_, ?_⟩
  · exact Nat.lt_succ_of_lt (Nat.lt_succ_self _)
  · exact Nat.lt_succ_self _
  · simp only [Memory.bundle, putEstimates, putCameras, Function.update_self]

/-- **What a solve leaves in memory is what it leaves.** Nothing that was there is lost, and a
vector that is restored goes to new places. -/
theorem Holds.afterSolve {a : Adjustment R} (h : m.Holds place a.bundle) (o : Outcome R) :
    m.KeptIn (m.afterSolve place o).1 ∧
    (m.afterSolve place o).1.Holds (m.afterSolve place o).2 (a.afterSolve o).bundle ∧
    ∀ x b', o.committed = some x → a.bundle.restore (.ofList x) = some b' →
      m.used ≤ (m.afterSolve place o).2.cameras ∧ m.used ≤ (m.afterSolve place o).2.estimates := by
  rw [Memory.afterSolve, Adjustment.afterSolve]
  cases o.committed with
  | none =>
    refine ⟨.refl m, h, fun x b' hx ↦ ?_⟩
    cases hx
  | some x =>
    rw [Option.bind_some, Option.bind_some, Adjustment.restore]
    cases hrestore : a.bundle.restore (.ofList x) with
    | none =>
      have hnone : m.restore place (.ofList x) = none := by
        rw [restore, h.bundle, hrestore, Option.map_none]
      rw [hnone]
      refine ⟨.refl m, h, fun y b' hy hb' ↦ ?_⟩
      obtain rfl := Option.some.inj hy
      cases hrestore.symm.trans hb'
    | some b' =>
      obtain ⟨m', hm', hkept, hholds⟩ := exists_restore (h.bundle ▸ hrestore)
      rw [hm']
      exact ⟨hkept, hholds, fun _ _ _ _ ↦ ⟨le_rfl, Nat.le_succ _⟩⟩

/-! ## Adjusting -/

/-- How the adjustment of a place stands to the adjustment of the bundle there. -/
inductive Reports (m : Memory R) (place : Place) :
    Except Fault (Option (Adjusted R)) → Option (Memory R × Except Fault (Outcome R × Place)) → Prop
  /-- Neither comes to an end. -/
  | endless : Reports m place (.ok none) none
  /-- Both fail with a fault, and all places have kept what they had. -/
  | fault {fault m'} (kept : m.KeptIn m') : Reports m place (.error fault) (some (m', .error fault))
  /-- Both return, the one a bundle and the other a place where this bundle is: the same place if
  the solve has failed, and new places if it has succeeded. -/
  | returned {r m' out} (kept : m.KeptIn m') (holds : m'.Holds out r.bundle)
      (same : r.outcome.status ≠ .converged → out = place)
      (moved : r.outcome.status = .converged → m.used ≤ out.cameras ∧ m.used ≤ out.estimates) :
      Reports m place (.ok (some r)) (some (m', .ok (r.outcome, out)))

/-- **To adjust a place is to adjust what is there**, and to keep it. -/
theorem Holds.reports_adjust (h : m.Holds place b) (holdFirst : Bool) (settings : Settings R)
    (diffStep : Amount R) (workers : Except Fault Workers) :
    m.Reports place (b.adjust holdFirst settings diffStep workers)
      (m.adjust place holdFirst settings diffStep workers) := by
  have hkept := m.keptIn_enter place
  have hholds := h.enter
  rw [Bundle.adjust, Memory.adjust]
  generalize m.enter place = entered at hkept hholds ⊢
  obtain ⟨m₁, working⟩ := entered
  dsimp only at hkept hholds ⊢
  rw [hholds.bundle]
  cases hmade : Adjustment.make b holdFirst diffStep workers with
  | error fault => exact .fault hkept
  | ok a =>
    obtain ⟨_, _, _, _, _, -, -, ha⟩ := Adjustment.exists_of_make hmade
    have hbundle : a.bundle = b := by rw [ha]
    simp only [bind, Except.bind]
    cases hsolve : a.solve settings none with
    | error fault => exact .fault hkept
    | ok solved =>
      cases solved with
      | none => exact .endless
      | some solved =>
        obtain ⟨o, a'⟩ := solved
        obtain ⟨start, hsolved, rfl⟩ := Adjustment.exists_solve_of_solve hsolve
        rw [← hbundle] at hholds
        obtain ⟨hafter, hholds', hmoved⟩ := hholds.afterSolve o
        have hkept' := hkept.trans hafter
        dsimp only
        rw [Option.mapM_some, Option.map_some]
        -- The value and the memory are asked for success first, and for errors only then.
        by_cases hstatus : o.status = .converged
        · have hsuccess : o.success = true := decide_eq_true hstatus
          rw [if_pos hsuccess]
          by_cases herrors : o.trace.errors = []
          · rw [if_pos herrors, b.adjusted_eq_error _ hstatus herrors]
            exact .fault hkept'
          · obtain ⟨records, hreport⟩ := b.exists_adjusted (a.afterSolve o) fun _ ↦ herrors
            -- A success has committed its point, and the bundle has taken it in, so it has moved.
            obtain ⟨x, hpoint, hcommitted⟩ :=
              (Problem.commits_of_solve hsolved).committed_of_converged hstatus
            obtain ⟨y, hpoint', hrestore⟩ :=
              Adjustment.afterSolve_of_converged hsolve (by rw [ha]) hstatus
            obtain rfl := Option.some.inj (hpoint'.symm.trans hpoint)
            obtain ⟨b', hb', -⟩ := Option.map_eq_some_iff.mp hrestore
            have hnew := hmoved y b' hcommitted hb'
            rw [if_neg herrors, hreport, if_pos hstatus]
            exact .returned hkept' hholds' (absurd hstatus)
              fun _ ↦ ⟨hkept.used.trans hnew.1, hkept.used.trans hnew.2⟩
        · have hfailed : ¬o.success = true := fun hsuccess ↦ hstatus (of_decide_eq_true hsuccess)
          obtain ⟨records, hreport⟩ := b.exists_adjusted (a.afterSolve o)
            fun hconverged ↦ absurd hconverged hstatus
          rw [if_neg hfailed, hreport, if_neg hstatus]
          exact .returned hkept' (h.keptIn hkept') (fun _ ↦ rfl)
            fun hconverged ↦ absurd hconverged hstatus

end Memory

/-- **Adjusting is all or nothing.** If the solve has failed, the bundle that is returned is the one
that was given. If it has succeeded, the bundle that is returned is the one that was given with the
point of the solve restored into it: labels, lenses and observations are the same, each camera has
the pose of its own six numbers by the rank of its label, and the points are the numbers behind. And
wherever the given bundle is kept, adjusting it there does the same and leaves it there as it was; a
solve that has failed returns the place itself, and one that has succeeded new places. -/
theorem all_or_nothing_of_adjust [CircularScalar R] {b : Bundle R} {holdFirst : Bool}
    {settings : Settings R} {diffStep : Amount R} {workers : Except Fault Workers} {r : Adjusted R}
    (h : b.adjust holdFirst settings diffStep workers = .ok (some r)) :
    (r.outcome.status ≠ .converged → r.bundle = b) ∧
    (r.outcome.status = .converged → ∃ x, r.outcome.point = some x ∧ b.Restored x r.bundle) ∧
    ∀ (m : Memory R) (place : Place), m.Holds place b → ∃ m' out,
      m.adjust place holdFirst settings diffStep workers = some (m', .ok (r.outcome, out)) ∧
      m.KeptIn m' ∧ m'.Holds place b ∧ m'.Holds out r.bundle ∧
      (r.outcome.status ≠ .converged → out = place) ∧
      (r.outcome.status = .converged → m.used ≤ out.cameras ∧ m.used ≤ out.estimates) := by
  obtain ⟨a, a', records, hmade, hsolve, -, hr⟩ := Bundle.exists_of_adjust h
  have hbundle : r.bundle = if r.outcome.status = .converged then a'.bundle else b := by rw [hr]
  refine ⟨fun hstatus ↦ ?_, fun hstatus ↦ ?_, fun m place hholds ↦ ?_⟩
  · rw [hbundle, if_neg hstatus]
  · obtain ⟨_, _, _, _, _, -, -, ha⟩ := Adjustment.exists_of_make hmade
    obtain ⟨x, hpoint, hrestore⟩ :=
      Adjustment.afterSolve_of_converged hsolve (by rw [ha]) hstatus
    obtain ⟨b', hb', rfl⟩ := Option.map_eq_some_iff.mp hrestore
    refine ⟨x, hpoint, ?_⟩
    rw [hbundle, if_pos hstatus]
    rw [ha] at hb'
    exact Bundle.restored_of_restore hb'
  · have hreports := hholds.reports_adjust holdFirst settings diffStep workers
    rw [h] at hreports
    generalize hadjust : m.adjust place holdFirst settings diffStep workers = result at hreports
    cases hreports with
    | returned kept holds same moved =>
      exact ⟨_, _, rfl, kept, hholds.keptIn kept, holds, same, moved⟩

/-! ## The view -/

open PartialRat

namespace Bundle

/-- The problem of adjusting the view with its camera held. -/
def oneViewProblem : Problem PartialRat where
  conditions := 2
  dimension := 9
  residual _ := oneView.residual
  diffStep := .whole 1
  workers := (Number.truth true).workers
  pattern := some (Sparsity.toTensor ⟨9, [List.range 9]⟩)
  active := [6, 7, 8]
  accepts := Adjustment.fits oneView
  pattern_shape := by decide
  active_nodup := by decide
  active_lt := by decide

theorem make_oneView : Adjustment.make oneView true (.whole 1) (Number.truth true).workers
    = .ok ⟨oneView, oneViewProblem⟩ := by
  obtain ⟨a, ha⟩ : ∃ a,
      Adjustment.make oneView true (.whole 1) (Number.truth true).workers = .ok a :=
    Adjustment.exists_make (by decide +kernel)
  obtain ⟨s, active, _, _, _, hs, rfl, rfl⟩ := Adjustment.exists_of_make ha
  have hsparsity : oneView.sparsity = .ok ⟨9, [List.range 9]⟩ := by decide +kernel
  obtain rfl := Except.ok.inj (hs.symm.trans hsparsity)
  exact ha

theorem exists_adjust_oneView : ∃ r,
    oneView.adjust true cautiousSettings (.whole 1) (Number.truth true).workers = .ok (some r) ∧
    r.outcome.status = .converged ∧ r.outcome.trace.updates = 2 := by
  have hstore : oneView.store = .ok (some [0, 0, 0, 0, 0, 0, 1, 1, 1]) := by decide +kernel
  obtain ⟨o, ho, htest⟩ := Problem.exists_solve_of_test oneViewProblem cautiousSettings
    [0, 0, 0, 0, 0, 0, 1, 1, 1] [ofRat (-2), ofRat (-4)] 5
    (fun o ↦ decide (o.status = .converged ∧ o.trace.updates = 2)) (by decide) (by decide +kernel)
    (by decide +kernel)
  obtain ⟨hstatus, hupdates⟩ := of_decide_eq_true htest
  have herrors : o.trace.errors ≠ [] := by
    rw [Ne, Problem.errors_eq_nil_iff_of_converged ho hstatus]
    decide
  obtain ⟨records, hreport⟩ :=
    oneView.exists_adjusted (Adjustment.afterSolve ⟨oneView, oneViewProblem⟩ o) fun _ ↦ herrors
  have hadjust : oneView.adjust true cautiousSettings (.whole 1) (Number.truth true).workers
      = some <$> oneView.adjusted o (Adjustment.afterSolve ⟨oneView, oneViewProblem⟩ o) := by
    rw [adjust_eq make_oneView hstore, ho, Option.mapM_some]
  rw [hreport] at hadjust
  exact ⟨_, hadjust, hstatus, hupdates⟩

/-- A memory in which every place has the view, and one is in use. -/
def viewMemory : Memory PartialRat :=
  ⟨fun _ ↦ oneView.cameras, fun _ ↦ (oneView.observations, oneView.points), 1⟩

/-- Adjusted in memory, the view is left where it was, and its point has moved elsewhere. -/
theorem all_or_nothing_of_adjust_oneView : ∃ r x m' out,
    oneView.adjust true cautiousSettings (.whole 1) (Number.truth true).workers = .ok (some r) ∧
    r.outcome.status = .converged ∧ r.outcome.point = some x ∧
    r.bundle.points.flatMap Vec3.toList = x.drop 6 ∧
    viewMemory.adjust ⟨0, 0⟩ true cautiousSettings (.whole 1) (Number.truth true).workers
      = some (m', .ok (r.outcome, out)) ∧
    m'.bundle ⟨0, 0⟩ = oneView ∧ m'.bundle out = r.bundle ∧
    1 ≤ out.cameras ∧ 1 ≤ out.estimates := by
  obtain ⟨r, hr, hstatus, -⟩ := exists_adjust_oneView
  obtain ⟨-, hsuccess, hmemory⟩ := all_or_nothing_of_adjust hr
  obtain ⟨x, hpoint, hrestored⟩ := hsuccess hstatus
  obtain ⟨m', out, hadjust, -, hthere, hholds, -, hmoved⟩ :=
    hmemory viewMemory ⟨0, 0⟩ ⟨Nat.one_pos, Nat.one_pos, rfl⟩
  exact ⟨r, x, m', out, hr, hstatus, hpoint, hrestored.points, hadjust, hthere.bundle,
    hholds.bundle, hmoved hstatus⟩

end Bundle

end DampedLeastSquares
