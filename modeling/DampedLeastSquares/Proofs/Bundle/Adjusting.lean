import DampedLeastSquares.Proofs.Bundle.AdjustmentSession
import DampedLeastSquares.Proofs.Solve.Limits

/-!
# Adjusting a bundle

To adjust a bundle is to make its adjustment, to solve it from the parameters that the bundle
stores, and to report by how much the error has fallen. A solve that fails is reported as it is,
with the bundle as it was given, and nothing is asked of it. A solve that succeeds is asked for its
first and its last error.

An iteration has errors to name, since it begins with the one of its start. But a solve can succeed
without iterating, if no variable may move, and then there is no error. With regular poses this is
the only way in which adjusting can fail once the adjustment is made, and it takes a single camera
that is held and no points.
-/

namespace DampedLeastSquares

variable {R : Type}

/-! ## Errors of a solve -/

namespace Problem

variable [Scalar R] {p : Problem R} {settings : Settings R}

theorem errors_ne_nil_of_ends {start : List R} {e : Ending} {s : State R}
    (h : p.Ends settings start e s) : s.trace.errors ≠ [] := by
  obtain ⟨residuals, -, hfinish⟩ := h
  -- The trace of the first state has an error, and it is the beginning of all later traces.
  generalize hfirst : Visited.ofResiduals start residuals = first at hfinish
  have hprefix := Progress.invariant_of_finish
    (fun s' ↦ (State.begin settings first).state.trace.IsPrefix s'.trace)
    (fun s' hs' ↦ hs'.trans s'.isPrefix_step) (.refl _) hfinish
  rw [State.trace_begin] at hprefix
  intro hnil
  exact absurd (hnil ▸ hprefix.errors) (by simp)

theorem errors_eq_nil_iff_of_converged {start : Option (List R)} {o : Outcome R}
    (h : p.solve settings start = some o) (hstatus : o.status = .converged) :
    o.trace.errors = [] ↔ p.active = [] := by
  cases solved_of_solve h with
  | noStart => exact nomatch hstatus
  | nothingActive hactive =>
    rw [trace_commit]
    exact iff_of_true rfl hactive
  | unevaluated => exact nomatch hstatus
  | iterated hactive hends =>
    rw [trace_outcome]
    exact iff_of_false (errors_ne_nil_of_ends hends) hactive

theorem ne_none_of_converged {start : Option (List R)} {o : Outcome R}
    (h : p.solve settings start = some o) (hstatus : o.status = .converged) : start ≠ none := by
  rintro rfl
  obtain rfl := Option.some.inj h
  exact nomatch hstatus

theorem solve_of_active_eq_nil (settings : Settings R) {start : List R} (hactive : p.active = [])
    (haccepts : p.accepts start = true) : ∃ o, p.solve settings (some start) = some o ∧
      o.status = .converged ∧ o.trace.errors = [] := by
  refine ⟨p.commit start {} [] [.nothingActive], ?_, ?_, ?_⟩
  · rw [solve, hactive, List.isEmpty_nil, if_pos rfl]
  · rw [status_commit, if_pos haccepts]
  · rw [trace_commit]

end Problem

/-! ## What is reported -/

namespace Bundle

variable {b : Bundle R} {o : Outcome R}

theorem adjusted_eq_error (b : Bundle R) (a : Adjustment R) (hstatus : o.status = .converged)
    (herrors : o.trace.errors = []) : b.adjusted o a = .error .emptyHistory := by
  have hsuccess : o.success = true := decide_eq_true hstatus
  rw [adjusted, if_pos hsuccess, herrors]
  rfl

/-- Any other success is reported with the bundle that the solve has left, and a failure with the
one that was given. -/
theorem exists_adjusted (b : Bundle R) (a : Adjustment R)
    (h : o.status = .converged → o.trace.errors ≠ []) : ∃ records,
      b.adjusted o a = .ok ⟨o, if o.status = .converged then a.bundle else b, records⟩ := by
  by_cases hstatus : o.status = .converged
  · have hsuccess : o.success = true := decide_eq_true hstatus
    rw [adjusted, if_pos hsuccess, if_pos hstatus]
    cases herrors : o.trace.errors with
    | nil => exact absurd herrors (h hstatus)
    | cons e errors =>
      rw [List.head?_cons, List.getLast?_cons]
      exact ⟨_, rfl⟩
  · have hfailed : ¬o.success = true := fun hsuccess ↦ hstatus (of_decide_eq_true hsuccess)
    rw [if_neg hstatus]
    exact ⟨_, if_neg hfailed⟩

theorem IsRegular.exists_store [CircularScalar R] (h : b.IsRegular) : ∃ start, b.store = .ok start ∧
    (start = none ↔ b.cameras.size = 0) ∧ ∀ x ∈ start, x.length = b.dimension := by
  by_cases hsize : b.cameras.size = 0
  · exact ⟨none, if_pos hsize, iff_of_true rfl hsize, nofun⟩
  · refine ⟨_, h.store hsize, iff_of_false nofun hsize, fun x hx ↦ ?_⟩
    rw [← Option.mem_some_iff.mp hx, h.layout.length]

end Bundle

/-! ## What is restored -/

/-- A bundle after a vector of its size was restored into it. -/
structure Bundle.Restored [CircularScalar R] (b : Bundle R) (x : List R) (b' : Bundle R) :
    Prop where
  /-- The vector has a number for each parameter. -/
  length : x.length = b.dimension
  /-- What was seen is the same. -/
  observations : b'.observations = b.observations
  /-- The labels are the same. -/
  labels : b'.cameras.labels = b.cameras.labels
  /-- The labels came up in the same order. -/
  order : b'.cameras.entries.map Prod.fst = b.cameras.entries.map Prod.fst
  /-- Each camera has its inside, and the pose of its own six numbers. -/
  camera : ∀ k label, b.cameras.labels[k]? = some label → ∃ camera pose,
    b.cameras.get? label = some camera ∧
    Pose.ofTensor (.ofList ((x.drop (6 * k)).take 6)) = .ok pose ∧
    b'.cameras.get? label = some ⟨camera.intrinsics, pose⟩
  /-- The points are made of the numbers behind those of the cameras. -/
  points : b'.points.flatMap Vec3.toList = x.drop (6 * b.cameras.size)

theorem Bundle.restored_of_restore [CircularScalar R] {b b' : Bundle R} {x : List R}
    (h : b.restore (.ofList x) = some b') : b.Restored x b' := by
  have hrig := sameRig_of_restore h
  obtain ⟨v, p, hv, hlength, hp, rfl⟩ := restore_eq_some_iff.mp h
  obtain rfl : x = v := Option.some.inj hv
  have hlaid := Parameters.laidOut_of_ofVector hp
  refine ⟨hlength, hrig.observations, hrig.labels, hrig.order, fun k label hlabel ↦ ?_, ?_⟩
  · have hk : k < p.poses.length := by
      rw [hlaid.length_poses, ← Labelled.length_labels]
      exact (List.getElem?_eq_some_iff.mp hlabel).1
    have hpose := List.getElem?_eq_getElem hk
    obtain ⟨camera, -, hget⟩ := Labelled.exists_sorted_of_labels hlabel
    refine ⟨camera, p.poses[k].pose, hget, ?_, ?_⟩
    · rw [← Parameters.toVector_of_ofVector hp, p.take_drop_toVector hpose]
      exact Pose.ofTensor_toList _
    · rw [withParameters, Labelled.get?_map, hget, Option.map_some, Labelled.idxOf_label hlabel,
        hpose]
  · rw [← Parameters.toVector_of_ofVector hp, ← hlaid.length_poses, p.drop_toVector]
    rfl

/-! ## Adjusting -/

variable [CircularScalar R] {b : Bundle R} {a : Adjustment R} {holdFirst : Bool}
  {diffStep : Amount R} {workers : Except Fault Workers} {settings : Settings R}

/-- With a camera there is nothing to move just if this camera is the only one and held, and there
are no points. -/
theorem Adjustment.active_eq_nil_iff (h : make b holdFirst diffStep workers = .ok a)
    (hsome : b.cameras.size ≠ 0) :
    a.problem.active = [] ↔ holdFirst = true ∧ b.cameras.size = 1 ∧ b.points = [] := by
  obtain ⟨s, active, _, _, _, -, hactive, rfl⟩ := exists_of_make h
  have hdimension : b.dimension = 6 * b.cameras.size + 3 * b.points.length := rfl
  rw [← List.length_eq_zero_iff (l := b.points)]
  dsimp only
  rw [hactive]
  cases holdFirst with
  | false =>
    rw [if_neg Bool.false_ne_true, List.range_eq_nil]
    refine iff_of_false (by omega) nofun
  | true =>
    rw [if_pos rfl, List.filter_eq_nil_iff]
    constructor
    · intro hnone
      refine ⟨rfl, ?_⟩
      by_contra hmore
      exact hnone 6 (List.mem_range.mpr (by omega)) (by decide)
    · rintro ⟨-, hone, hpoints⟩ i hi
      have hlt := List.mem_range.mp hi
      rw [decide_eq_true_iff]
      omega

namespace Bundle

theorem adjust_eq {start : Option (List R)}
    (hmade : Adjustment.make b holdFirst diffStep workers = .ok a)
    (hstore : b.store = .ok start) :
    b.adjust holdFirst settings diffStep workers
      = (a.problem.solve settings start).mapM fun o ↦ b.adjusted o (a.afterSolve o) := by
  have hsolve : a.solve settings none
      = .ok ((a.problem.solve settings start).map fun o ↦ (o, a.afterSolve o)) := by
    obtain ⟨s, active, _, _, _, -, -, rfl⟩ := Adjustment.exists_of_make hmade
    exact Adjustment.solve_eq_ok_iff.mpr ⟨start, hstore, rfl⟩
  rw [adjust, hmade]
  simp only [bind, Except.bind, hsolve]
  cases a.problem.solve settings start <;> rfl

theorem exists_of_adjust {r : Adjusted R}
    (h : b.adjust holdFirst settings diffStep workers = .ok (some r)) :
    ∃ a a' records, Adjustment.make b holdFirst diffStep workers = .ok a ∧
      a.solve settings none = .ok (some (r.outcome, a')) ∧
      (r.outcome.status = .converged → r.outcome.trace.errors ≠ []) ∧
      r = ⟨r.outcome, if r.outcome.status = .converged then a'.bundle else b, records⟩ := by
  rw [adjust] at h
  cases hmade : Adjustment.make b holdFirst diffStep workers with
  | error fault =>
    rw [hmade] at h
    exact nomatch h
  | ok a =>
    cases hsolve : a.solve settings none with
    | error fault =>
      simp only [hmade, bind, Except.bind, hsolve] at h
      exact nomatch h
    | ok solved =>
      simp only [hmade, bind, Except.bind, hsolve] at h
      cases solved with
      | none => exact nomatch h
      | some solved =>
        obtain ⟨o, a'⟩ := solved
        rw [Option.mapM_some] at h
        by_cases hempty : o.status = .converged ∧ o.trace.errors = []
        · rw [b.adjusted_eq_error a' hempty.1 hempty.2] at h
          exact nomatch h
        · obtain ⟨records, hreport⟩ := b.exists_adjusted a' (not_and.mp hempty)
          rw [hreport] at h
          obtain rfl := Option.some.inj (Except.ok.inj h)
          exact ⟨a, a', records, rfl, hsolve, not_and.mp hempty, rfl⟩

/-- **Adjusting with regular poses fails in one case only**, once the adjustment is made: if the one
camera is held and there are no points. Otherwise there is a result, if there is a limit that counts
can reach. -/
theorem adjust_eq_error_iff (hregular : b.IsRegular)
    (hmade : Adjustment.make b holdFirst diffStep workers = .ok a) (settings : Settings R) :
    (∀ fault, b.adjust holdFirst settings diffStep workers = .error fault ↔
      fault = .emptyHistory ∧ holdFirst = true ∧ b.cameras.size = 1 ∧ b.points = []) ∧
    ∀ bound, settings.limit = .atMost bound →
      ¬(holdFirst = true ∧ b.cameras.size = 1 ∧ b.points = []) →
      ∃ r, b.adjust holdFirst settings diffStep workers = .ok (some r) := by
  obtain ⟨start, hstore, hnone, hlength⟩ := hregular.exists_store
  rw [adjust_eq hmade hstore]
  -- A success had a start, so there is a camera; and without errors it had nothing to move.
  have hlone : ∀ o, a.problem.solve settings start = some o → o.status = .converged →
      o.trace.errors = [] → holdFirst = true ∧ b.cameras.size = 1 ∧ b.points = [] := by
    intro o ho hstatus herrors
    have hsome := mt hnone.mpr (Problem.ne_none_of_converged ho hstatus)
    exact (Adjustment.active_eq_nil_iff hmade hsome).mp
      ((Problem.errors_eq_nil_iff_of_converged ho hstatus).mp herrors)
  refine ⟨fun fault ↦ ⟨fun hfault ↦ ?_, ?_⟩, fun bound hbound hmore ↦ ?_⟩
  · cases ho : a.problem.solve settings start with
    | none =>
      rw [ho] at hfault
      exact nomatch hfault
    | some o =>
      rw [ho, Option.mapM_some] at hfault
      by_cases hempty : o.status = .converged ∧ o.trace.errors = []
      · rw [b.adjusted_eq_error _ hempty.1 hempty.2] at hfault
        exact ⟨(Except.error.inj hfault).symm, hlone o ho hempty.1 hempty.2⟩
      · obtain ⟨records, hreport⟩ := b.exists_adjusted (a.afterSolve o) (not_and.mp hempty)
        rw [hreport] at hfault
        exact nomatch hfault
  · rintro ⟨rfl, hlast⟩
    have hsome : b.cameras.size ≠ 0 := by omega
    have hactive := (Adjustment.active_eq_nil_iff hmade hsome).mpr hlast
    obtain ⟨x, rfl⟩ := Option.ne_none_iff_exists'.mp (mt hnone.mp hsome)
    have haccepts : a.problem.accepts x = true := by
      obtain ⟨_, _, _, _, _, -, -, rfl⟩ := Adjustment.exists_of_make hmade
      exact decide_eq_true (hlength x rfl)
    obtain ⟨o, ho, hstatus, herrors⟩ :=
      Problem.solve_of_active_eq_nil settings hactive haccepts
    rw [ho, Option.mapM_some, b.adjusted_eq_error _ hstatus herrors]
    rfl
  · obtain ⟨o, ho⟩ := Problem.exists_solve hbound a.problem start
    obtain ⟨records, hreport⟩ := b.exists_adjusted (a.afterSolve o)
      fun hstatus herrors ↦ hmore (hlone o ho hstatus herrors)
    rw [ho, Option.mapM_some, hreport]
    exact ⟨_, rfl⟩

/-- A camera, and nothing for it to see. -/
def loneCamera : Bundle PartialRat := ⟨oneView.cameras, .ofWords .int32 [] [] [], []⟩

/-- A lone camera that is held cannot be adjusted, and one that sees a point can. -/
theorem adjust_eq_error_iff_loneCamera :
    (∃ a, Adjustment.make loneCamera true (.whole 1) (Number.truth true).workers = .ok a) ∧
    loneCamera.adjust true cautiousSettings (.whole 1) (Number.truth true).workers
      = .error .emptyHistory ∧
    ∃ r, oneView.adjust true cautiousSettings (.whole 1) (Number.truth true).workers
      = .ok (some r) := by
  have hregular : ∀ entry ∈ oneView.cameras.entries, entry.2.pose.IsRegular := by
    intro entry hentry
    rw [List.mem_singleton.mp hentry]
    exact ⟨rfl, rfl⟩
  obtain ⟨a, ha⟩ : ∃ a,
      Adjustment.make loneCamera true (.whole 1) (Number.truth true).workers = .ok a :=
    Adjustment.exists_make (by decide +kernel)
  obtain ⟨a', ha'⟩ : ∃ a,
      Adjustment.make oneView true (.whole 1) (Number.truth true).workers = .ok a :=
    Adjustment.exists_make (by decide +kernel)
  refine ⟨⟨a, ha⟩, ?_, ?_⟩
  · exact ((adjust_eq_error_iff (b := loneCamera) hregular ha cautiousSettings).1 _).mpr
      ⟨rfl, rfl, rfl, rfl⟩
  · exact (adjust_eq_error_iff hregular ha' cautiousSettings).2 2 rfl
      fun hlast ↦ List.cons_ne_nil _ _ hlast.2.2

end Bundle

end DampedLeastSquares
