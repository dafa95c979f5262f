import DampedLeastSquares.Proofs.Bundle.Adjusting
import DampedLeastSquares.Proofs.Solve.Inactive

/-!
# The camera that is held

Where all cameras may move, nothing says where the whole lies in space, and so the camera with the
lowest label is held. That is done by its place alone: its six numbers are the first six of the
vector, in whatever order the cameras came up, and the first six variables are not active. Here this
is followed through a solve and back into the bundle. Nothing that is ever evaluated or committed
has other numbers in these places, so the camera comes back with its shift as it was, and with its
rotation as it is after being written as a vector and read back.

For the poses nothing is assumed but that the bundle can give them out.
-/

namespace DampedLeastSquares

variable {R : Type} [CircularScalar R]

/-! ## The numbers of a camera -/

namespace Tensor

theorem eq_ofList_of_rank_le_one {α : Type} {t : Tensor α} {entries : List α}
    (hrank : t.rank ≤ 1) (hentries : t.entries = entries) (hlength : entries.length ≠ 1) :
    t = .ofList entries := by
  obtain ⟨shape, entries', hcount⟩ := t
  obtain rfl : entries' = entries := hentries
  rcases shape with _ | ⟨n, _ | ⟨m, shape⟩⟩
  · exact absurd hcount hlength
  · obtain rfl : entries'.length = n := by rw [hcount, count, count, Nat.mul_one]
    rfl
  · exact absurd hrank (by simp [rank])

end Tensor

namespace Bundle

variable {b b' : Bundle R} {p : Parameters R} {z : List R}

/-- A camera that gives out six numbers has a rotation that is written as the first three, and the
others are its shift. -/
theorem exists_of_poseVector {c : Camera R} {v : PoseVector R} (h : poseVector c = .ok v) :
    Rotation.columnOf c.pose.rotation = .ok v.turn ∧ c.pose.shift = .ofList v.shift.toList := by
  rw [poseVector, Pose.toVector] at h
  cases hturn : Rotation.columnOf c.pose.rotation with
  | error fault =>
    simp only [hturn, bind, Except.bind] at h
    cases h
  | ok turn =>
    simp only [hturn, bind, Except.bind] at h
    by_cases hrank : c.pose.shift.rank ≤ 1
    · simp only [if_pos hrank, pure, Except.pure] at h
      split at h
      next u hu =>
        obtain rfl := Except.ok.inj h
        have hlist : u.turn.toList ++ u.shift.toList = turn.toList ++ c.pose.shift.entries :=
          PoseVector.toList_of_ofList? hu
        obtain ⟨hfirst, hrest⟩ := List.append_inj hlist rfl
        have hturn' : u.turn = turn := Option.some.inj (congrArg Vec3.ofList? hfirst)
        rw [hturn']
        exact ⟨rfl, Tensor.eq_ofList_of_rank_le_one hrank hrest.symm (by simp [Vec3.toList])⟩
      · cases h
    · rw [if_neg hrank] at h
      cases h

theorem exists_poseVector_of_parameters (h : b.parameters = .ok p) {k : Nat} {label : Int}
    (hlabel : b.cameras.labels[k]? = some label) :
    ∃ camera v, b.cameras.get? label = some camera ∧ poseVector camera = .ok v ∧
      p.poses[k]? = some v := by
  obtain ⟨camera, hcamera, hget⟩ := Labelled.exists_sorted_of_labels hlabel
  rw [Bundle.parameters] at h
  cases hposes : b.cameras.entries.mapM fun entry ↦
      (poseVector entry.2).map fun v ↦ (entry.1, v) with
  | error fault =>
    simp only [hposes, bind, Except.bind] at h
    cases h
  | ok poses =>
    simp only [hposes, bind, Except.bind, pure, Except.pure] at h
    obtain rfl := Except.ok.inj h
    -- All cameras gave out their numbers, so that these are a function of the camera.
    have hall : ∀ entry ∈ b.cameras.entries, ∃ v, poseVector entry.2 = .ok v := by
      intro entry hentry
      obtain ⟨pair, hpair⟩ := Jacobian.exists_of_mapM_eq_ok hposes entry hentry
      cases hv : poseVector entry.2 with
      | error fault =>
        rw [hv] at hpair
        cases hpair
      | ok v => exact ⟨v, rfl⟩
    have : Nonempty (PoseVector R) := ⟨⟨⟨0, 0, 0⟩, ⟨0, 0, 0⟩⟩⟩
    choose! numbers hnumbers using hall
    have heq : poses = (b.cameras.map fun label camera ↦ numbers (label, camera)).entries := by
      rw [Jacobian.mapM_eq_ok_map (g := fun entry ↦ (entry.1, numbers entry))
        fun entry hentry ↦ by rw [hnumbers entry hentry]; rfl] at hposes
      exact (Except.ok.inj hposes).symm
    have hmem := (Labelled.perm_sortByLabel _).mem_iff.mp (List.mem_of_getElem? hcamera)
    refine ⟨camera, numbers (label, camera), hget, hnumbers _ hmem, ?_⟩
    rw [heq, ← Labelled.sorted, Labelled.sorted_map, List.map_map, List.getElem?_map, hcamera]
    rfl

theorem exists_parameters_of_store {start : Option (List R)} (h : b.store = .ok start)
    (hsome : b.cameras.size ≠ 0) : ∃ p, b.parameters = .ok p ∧ start = some p.toVector := by
  rw [store, if_neg hsome] at h
  cases hparameters : b.parameters with
  | error fault =>
    rw [hparameters] at h
    cases h
  | ok p =>
    rw [hparameters] at h
    exact ⟨p, rfl, (Except.ok.inj h).symm⟩

omit [CircularScalar R] in
theorem labels_zero {label : Int} (hmem : label ∈ b.cameras.labels)
    (hlowest : ∀ l ∈ b.cameras.labels, label ≤ l) : b.cameras.labels[0]? = some label := by
  have hascending := b.cameras.pairwise_labels
  cases hlabels : b.cameras.labels with
  | nil => exact nomatch hlabels ▸ hmem
  | cons first rest =>
    rw [hlabels] at hmem hlowest hascending
    rcases List.mem_cons.mp hmem with rfl | hlater
    · rfl
    · have hlt := (List.pairwise_cons.mp hascending).1 label hlater
      exact absurd (hlowest first List.mem_cons_self) (Int.not_le.mpr hlt)

/-- If the first six numbers are as they were given out, then the lowest camera comes back with its
shift, and with the matrix of the vector of its rotation. -/
theorem get?_of_restored (hp : b.parameters = .ok p) (hrestored : b.Restored z b')
    (hfirst : z.take 6 = p.toVector.take 6) {label : Int} {camera : Camera R}
    (hcamera : b.cameras.get? label = some camera)
    (hlowest : ∀ l ∈ b.cameras.labels, label ≤ l) :
    ∃ v, Rotation.columnOf camera.pose.rotation = .ok v ∧
      b'.cameras.get? label
        = some ⟨camera.intrinsics, ⟨(Rotation.ofVector v).toTensor, camera.pose.shift⟩⟩ := by
  have hlabel := labels_zero (Labelled.mem_labels_of_get? hcamera) hlowest
  obtain ⟨c, v, hc, hv, hpose⟩ := exists_poseVector_of_parameters hp hlabel
  obtain rfl := Option.some.inj (hcamera.symm.trans hc)
  obtain ⟨c, pose, hc, hpose', hget⟩ := hrestored.camera 0 label hlabel
  obtain rfl := Option.some.inj (hcamera.symm.trans hc)
  have hnumbers : z.take 6 = v.toList := by
    rw [hfirst]
    exact p.take_drop_toVector hpose
  obtain ⟨hturn, hshift⟩ := exists_of_poseVector hv
  refine ⟨v.turn, hturn, ?_⟩
  rw [Nat.mul_zero, List.drop_zero, hnumbers, Pose.ofTensor_toList] at hpose'
  rw [hget, ← Except.ok.inj hpose', hshift]
  rfl

end Bundle

/-! ## The camera through a solve -/

namespace Adjustment

variable {b : Bundle R} {a a' : Adjustment R} {diffStep : Amount R}
  {workers : Except Fault Workers} {settings : Settings R} {o : Outcome R}

theorem six_le_of_active (h : make b true diffStep workers = .ok a) :
    ∀ i ∈ a.problem.active, 6 ≤ i := by
  obtain ⟨s, active, _, _, _, -, hactive, rfl⟩ := exists_of_make h
  intro i hi
  have hmem : i ∈ (List.range b.dimension).filter fun i ↦ decide (6 ≤ i) := by
    rw [if_pos rfl] at hactive
    rwa [← hactive]
  exact of_decide_eq_true (List.mem_filter.mp hmem).2

/-- **The camera that is held stays where it is.** Every point of a solve from the parameters of the
bundle has their first six numbers. If the solve succeeds, then the lowest camera has its shift, and
a rotation that depends on nothing but the one it had. -/
theorem held_of_solve (hmade : make b true diffStep workers = .ok a) (hsome : b.cameras.size ≠ 0)
    (hsolve : a.solve settings none = .ok (some (o, a'))) :
    ∃ x, b.store = .ok (some x) ∧
      (∀ i ∈ o.interactions, ∀ z ∈ i.points, z.take 6 = x.take 6) ∧
      (o.status = .converged → ∀ label camera, b.cameras.get? label = some camera →
        (∀ l ∈ b.cameras.labels, label ≤ l) →
        ∃ v, Rotation.columnOf camera.pose.rotation = .ok v ∧
          a'.bundle.cameras.get? label
            = some ⟨camera.intrinsics, ⟨(Rotation.ofVector v).toTensor, camera.pose.shift⟩⟩) := by
  have hsix := six_le_of_active hmade
  have hbundle : a.bundle = b ∧ a.problem.accepts = fits b := by
    obtain ⟨s, active, _, _, _, -, -, rfl⟩ := exists_of_make hmade
    exact ⟨rfl, rfl⟩
  obtain ⟨start, hstore, hmap⟩ := solve_eq_ok_iff.mp hsolve
  obtain ⟨⟨o', _⟩, hproblem, heq⟩ := Option.map_eq_some_iff.mp hmap
  obtain ⟨rfl, -⟩ := Prod.mk.inj heq
  dsimp only at hstore
  rw [hbundle.1] at hstore
  obtain ⟨p, hp, rfl⟩ := Bundle.exists_parameters_of_store hstore hsome
  obtain ⟨hpoint, hfreezes⟩ := Problem.freezes_of_solve hproblem
  refine ⟨p.toVector, hstore, fun i hi z hz ↦ (hfreezes.sameOff hi hz).take_eq hsix, ?_⟩
  intro hstatus label camera hcamera hlowest
  obtain ⟨z, hz, hrestore⟩ := afterSolve_of_converged hsolve (hbundle.1 ▸ hbundle.2) hstatus
  obtain ⟨b', hb', rfl⟩ := Option.map_eq_some_iff.mp hrestore
  rw [hbundle.1] at hb'
  exact Bundle.get?_of_restored hp (Bundle.restored_of_restore hb')
    ((hpoint z hz).take_eq hsix) hcamera hlowest

end Adjustment

/-- **Inactive variables are frozen.** Whatever the problem, the settings and the end of a solve,
the point that is returned has the length of the start and its inactive coordinates; so has every
point that is evaluated or committed; and a Jacobian calls the residual function at points that
differ from the best point of the time in one active variable. Where the first camera of a bundle is
held, its six numbers are the same in every point, and after a success its shift is the old one and
its rotation comes from its old one alone. -/
theorem inactive_frozen_of_solve {Q : Type} [Scalar Q] :
    (∀ (p : Problem Q) settings start o, p.solve settings start = some o →
      (start = none → o.point = none ∧ o.interactions = []) ∧
      ∀ x, start = some x → (∀ z ∈ o.point, SameOff p.active x z) ∧
        p.Freezes x o.trace.trials o.interactions) ∧
    (∀ (b : Bundle R) diffStep workers settings (a a' : Adjustment R) o,
      Adjustment.make b true diffStep workers = .ok a → b.cameras.size ≠ 0 →
      a.solve settings none = .ok (some (o, a')) →
      ∃ x, b.store = .ok (some x) ∧
        (∀ i ∈ o.interactions, ∀ z ∈ i.points, z.take 6 = x.take 6) ∧
        (o.status = .converged → ∀ label camera, b.cameras.get? label = some camera →
          (∀ l ∈ b.cameras.labels, label ≤ l) →
          ∃ v, Rotation.columnOf camera.pose.rotation = .ok v ∧ a'.bundle.cameras.get? label
            = some ⟨camera.intrinsics, ⟨(Rotation.ofVector v).toTensor, camera.pose.shift⟩⟩)) := by
  refine ⟨fun p settings start o hsolve ↦ ⟨?_, ?_⟩, ?_⟩
  · rintro rfl
    obtain rfl := Option.some.inj hsolve
    exact ⟨rfl, rfl⟩
  · rintro x rfl
    exact Problem.freezes_of_solve hsolve
  · intro b diffStep workers settings a a' o hmade hsome hsolve
    exact Adjustment.held_of_solve hmade hsome hsolve

/-! ## A goal and a view -/

open PartialRat

/-- Of three variables the last and the first one may move. -/
def twoOfThree : Problem PartialRat :=
  { threeGoals with active := [2, 0], active_nodup := by decide, active_lt := by decide }

theorem Adjustment.exists_make_of_test (b : Bundle R) (holdFirst : Bool) (diffStep : Amount R)
    (workers : Except Fault Workers) (test : Adjustment R → Bool)
    (h : (make b holdFirst diffStep workers).toOption.any test = true) :
    ∃ a, make b holdFirst diffStep workers = .ok a ∧ test a = true := by
  cases hmade : make b holdFirst diffStep workers with
  | error fault =>
    rw [hmade] at h
    exact nomatch h
  | ok a =>
    rw [hmade] at h
    exact ⟨a, rfl, h⟩

/-- The second of three coordinates stays at zero while the others go half of their way. While the
point that a camera sees is moved twice, the camera stays. -/
theorem inactive_frozen_twoOfThree :
    (∃ o, twoOfThree.solve halfway (some [0, 0, 0]) = some o ∧
      o.point = some [ofRat (1 / 2), 0, ofRat (3 / 2)] ∧
      ∀ z, .evaluate z ∈ o.interactions → z[1]? = some 0) ∧
    ∃ a o a', Adjustment.make .oneView true (.whole 1) (Number.truth true).workers = .ok a ∧
      a.solve cautiousSettings none = .ok (some (o, a')) ∧ o.status = .converged ∧
      o.trace.updates = 2 ∧ (∀ i ∈ o.interactions, ∀ z ∈ i.points, z.take 6 = [0, 0, 0, 0, 0, 0]) ∧
      a'.bundle.cameras.get? 0 = some ⟨straight.intrinsics,
        ⟨Mat3.identity.toTensor, straight.pose.shift⟩⟩ := by
  obtain ⟨hproblem, hadjustment⟩ := inactive_frozen_of_solve (R := PartialRat) (Q := PartialRat)
  constructor
  · obtain ⟨o, ho, htest⟩ := Problem.exists_solve_of_test twoOfThree halfway [0, 0, 0]
      [ofRat (-1), ofRat (-2), ofRat (-3)] 2
      (fun o ↦ decide (o.point = some [ofRat (1 / 2), 0, ofRat (3 / 2)]))
      (by decide) (by decide +kernel) (by decide +kernel)
    refine ⟨o, ho, of_decide_eq_true htest, fun z hz ↦ ?_⟩
    obtain ⟨-, hfreezes⟩ := (hproblem twoOfThree halfway _ o ho).2 [0, 0, 0] rfl
    exact (hfreezes.evaluated z hz).2 1 (by decide)
  · obtain ⟨a, hmade, htest⟩ := Adjustment.exists_make_of_test .oneView true (.whole 1)
      (Number.truth true).workers (fun a ↦ ((Progress.next a.problem cautiousSettings)^[5]
        (State.begin cautiousSettings
          (.ofResiduals [0, 0, 0, 0, 0, 0, 1, 1, 1] [ofRat (-2), ofRat (-4)]))).passes fun e s ↦
          decide ((a.problem.outcome [0, 0, 0, 0, 0, 0, 1, 1, 1] e s).status = .converged ∧
            (a.problem.outcome [0, 0, 0, 0, 0, 0, 1, 1, 1] e s).trace.updates = 2))
      (by decide +kernel)
    have hstore : Bundle.oneView.store = .ok (some [0, 0, 0, 0, 0, 0, 1, 1, 1]) := by
      decide +kernel
    have hresidual : Bundle.oneView.residual [0, 0, 0, 0, 0, 0, 1, 1, 1]
        = .ok [ofRat (-2), ofRat (-4)] := by decide +kernel
    have hproblem : a.bundle = .oneView ∧
        a.problem.residual = fun _ ↦ Bundle.oneView.residual := by
      obtain ⟨_, _, _, _, _, -, -, rfl⟩ := Adjustment.exists_of_make hmade
      exact ⟨rfl, rfl⟩
    have hactive : a.problem.active ≠ [] := fun hnil ↦
      absurd ((Adjustment.active_eq_nil_iff hmade (by decide)).mp hnil).2.2 (List.cons_ne_nil _ _)
    obtain ⟨o, ho, hend⟩ := Problem.exists_solve_of_test a.problem cautiousSettings _ _ 5
      (fun o ↦ decide (o.status = .converged ∧ o.trace.updates = 2)) hactive
      (by rw [hproblem.2]; exact hresidual) htest
    obtain ⟨hstatus, hupdates⟩ := of_decide_eq_true hend
    have hsolve : a.solve cautiousSettings none = .ok (some (o, a.afterSolve o)) :=
      Adjustment.solve_eq_ok_iff.mpr ⟨_, by rw [hproblem.1]; exact hstore, by rw [ho]; rfl⟩
    obtain ⟨x, hx, hpoints, hcamera⟩ :=
      hadjustment .oneView _ _ _ a _ o hmade (by decide) hsolve
    obtain rfl := Option.some.inj (Except.ok.inj (hx.symm.trans hstore))
    have hlabels : Bundle.oneView.cameras.labels = [0] := by decide +kernel
    obtain ⟨v, hv, hget⟩ := hcamera hstatus 0 straight rfl (by rw [hlabels]; decide)
    have hmatrix : (Rotation.columnOf straight.pose.rotation).map
        (fun v ↦ (Rotation.ofVector v).toTensor) = .ok Mat3.identity.toTensor := by decide +kernel
    rw [hv] at hmatrix
    have hrotation : (Rotation.ofVector v).toTensor = Mat3.identity.toTensor :=
      Except.ok.inj hmatrix
    refine ⟨a, o, _, hmade, hsolve, hstatus, hupdates, hpoints, ?_⟩
    rw [hget, hrotation]

end DampedLeastSquares
