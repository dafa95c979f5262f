import DampedLeastSquares.Bundle.Adjustment

/-!
# Reading parameters

A vector is read as parameters in two cuts, one pose after another and then one point after another,
and either cut can come out uneven. For a vector of the size that a bundle asks for it does not:
such a vector is always read, and so a bundle takes in exactly the vectors that its adjustment
accepts.
-/

namespace DampedLeastSquares

section

variable {R : Type}

/-- Poses are read off the front of a list that is long enough, and their numbers are gone from the
rest. -/
theorem PoseVector.exists_takeMany? (n : Nat) (v : List R) (h : 6 * n ≤ v.length) :
    ∃ poses rest, takeMany? n v = some (poses, rest) ∧ rest.length = v.length - 6 * n := by
  induction n generalizing v with
  | zero => exact ⟨[], v, rfl, rfl⟩
  | succ n ih =>
    rcases v with _ | ⟨a, _ | ⟨b, _ | ⟨c, _ | ⟨x, _ | ⟨y, _ | ⟨z, rest⟩⟩⟩⟩⟩⟩
    case cons.cons.cons.cons.cons.cons =>
      simp only [List.length_cons] at h ⊢
      obtain ⟨poses, left, htake, hlength⟩ := ih rest (by omega)
      exact ⟨_, left, by rw [takeMany?, htake]; rfl, by omega⟩
    all_goals
      simp only [List.length_cons, List.length_nil] at h
      omega

theorem Parameters.exists_readPoints? (n : Nat) (v : List R) (h : v.length = 3 * n) :
    ∃ points, readPoints? v = some points := by
  induction n generalizing v with
  | zero => exact ⟨[], by rw [List.length_eq_zero_iff.mp h]; rfl⟩
  | succ n ih =>
    rcases v with _ | ⟨x, _ | ⟨y, _ | ⟨z, rest⟩⟩⟩
    case cons.cons.cons =>
      simp only [List.length_cons] at h
      obtain ⟨points, hpoints⟩ := ih rest (by omega)
      exact ⟨⟨x, y, z⟩ :: points, by rw [readPoints?, hpoints]; rfl⟩
    all_goals
      simp only [List.length_cons, List.length_nil] at h
      omega

theorem PoseVector.getElem?_takeMany? {n : Nat} {v rest : List R} {poses : List (PoseVector R)}
    (h : takeMany? n v = some (poses, rest)) :
    poses.length = n ∧ 6 * n ≤ v.length ∧ rest = v.drop (6 * n) ∧
      ∀ i < n, poses[i]? = ofList? ((v.drop (6 * i)).take 6) := by
  induction n generalizing v poses with
  | zero =>
    obtain ⟨rfl, rfl⟩ := Prod.mk.inj (Option.some.inj h)
    exact ⟨rfl, Nat.zero_le _, rfl, fun i hi ↦ absurd hi (Nat.not_lt_zero i)⟩
  | succ n ih =>
    rcases v with _ | ⟨a, _ | ⟨b, _ | ⟨c, _ | ⟨x, _ | ⟨y, _ | ⟨z, v⟩⟩⟩⟩⟩⟩
    case cons.cons.cons.cons.cons.cons =>
      rw [takeMany?, Option.map_eq_some_iff] at h
      obtain ⟨⟨poses', rest'⟩, htake, heq⟩ := h
      obtain ⟨rfl, rfl⟩ := Prod.mk.inj heq
      obtain ⟨hlength, hle, hrest, hposes⟩ := ih htake
      refine ⟨congrArg (· + 1) hlength, Nat.add_le_add_right hle 6, hrest, fun i hi ↦ ?_⟩
      cases i with
      | zero => rfl
      | succ i => exact hposes i (Nat.lt_of_succ_lt_succ hi)
    all_goals cases h

theorem Parameters.getElem?_readPoints? {v : List R} {points : List (Vec3 R)}
    (h : readPoints? v = some points) :
    v.length = 3 * points.length ∧ ∀ j, points[j]? = Vec3.ofList? ((v.drop (3 * j)).take 3) := by
  fun_induction readPoints? v generalizing points with
  | case1 =>
    obtain rfl := Option.some.inj h
    exact ⟨rfl, fun j ↦ by rw [List.drop_nil]; rfl⟩
  | case2 x y z v ih =>
    obtain ⟨points', hpoints', rfl⟩ := Option.map_eq_some_iff.mp h
    obtain ⟨hlength, hpoints⟩ := ih hpoints'
    refine ⟨by simp only [List.length_cons, hlength]; omega, fun j ↦ ?_⟩
    cases j with
    | zero => rfl
    | succ j => exact hpoints j
  | case3 => cases h

/-- A vector with six numbers for each camera and three for each point is read. -/
theorem Parameters.exists_ofVector {cameras points : Nat} {v : List R}
    (h : v.length = 6 * cameras + 3 * points) : ∃ p, ofVector cameras v = .ok p := by
  obtain ⟨poses, rest, htake, hlength⟩ :=
    PoseVector.exists_takeMany? cameras v (by rw [h]; exact Nat.le_add_right _ _)
  obtain ⟨read, hread⟩ := exists_readPoints? points rest (by omega)
  refine ⟨⟨poses, read⟩, ?_⟩
  simp only [ofVector, htake, readPoints, hread]
  rfl

/-- The numbers of the parameters stand where the layout says. -/
structure Parameters.LaidOut (cameras : Nat) (v : List R) (p : Parameters R) : Prop where
  /-- There is a pose for each camera. -/
  length_poses : p.poses.length = cameras
  /-- What is behind the poses divides into points. -/
  length : v.length = 6 * cameras + 3 * p.points.length
  /-- Each pose has its own six numbers. -/
  pose : ∀ i < cameras, p.poses[i]? = PoseVector.ofList? ((v.drop (6 * i)).take 6)
  /-- Each point has its own three numbers. -/
  point : ∀ j, p.points[j]? = Vec3.ofList? ((v.drop (6 * cameras + 3 * j)).take 3)

theorem Parameters.laidOut_of_ofVector {cameras : Nat} {v : List R} {p : Parameters R}
    (h : ofVector cameras v = .ok p) : p.LaidOut cameras v := by
  rw [ofVector] at h
  cases htake : PoseVector.takeMany? cameras v with
  | none =>
    rw [htake] at h
    cases h
  | some read =>
    obtain ⟨poses, rest⟩ := read
    obtain ⟨hposes, hle, rfl, hpose⟩ := PoseVector.getElem?_takeMany? htake
    simp only [htake, readPoints] at h
    cases hread : readPoints? (v.drop (6 * cameras)) with
    | none =>
      rw [hread] at h
      cases h
    | some points =>
      rw [hread] at h
      obtain rfl := Except.ok.inj h
      obtain ⟨hlength, hpoint⟩ := getElem?_readPoints? hread
      rw [List.length_drop] at hlength
      refine ⟨hposes, (Nat.sub_eq_iff_eq_add' hle).mp hlength, hpose, fun j ↦ ?_⟩
      rw [hpoint, List.drop_drop]

theorem take_drop_set {v : List R} {s w c : Nat} (h : c < s ∨ s + w ≤ c) (a : R) :
    ((v.set c a).drop s).take w = (v.drop s).take w := by
  rw [List.drop_set]
  split
  · rfl
  · exact List.take_set_of_le (by omega)

namespace Parameters.LaidOut

variable {cameras c : Nat} {a : R} {v : List R} {p p' : Parameters R}
  (h : p.LaidOut cameras v) (h' : p'.LaidOut cameras (v.set c a))

include h h'

theorem pose_set {i : Nat} (hi : i < cameras) (hc : c < 6 * i ∨ 6 * i + 6 ≤ c) :
    p'.poses[i]? = p.poses[i]? := by
  rw [h'.pose i hi, h.pose i hi, take_drop_set hc]

theorem point_set {j : Nat} (hc : c < 6 * cameras + 3 * j ∨ 6 * cameras + 3 * j + 3 ≤ c) :
    p'.points[j]? = p.points[j]? := by
  rw [h'.point, h.point, take_drop_set hc]

theorem length_points_set : p'.points.length = p.points.length := by
  have hlength := h.length
  have hlength' := h'.length
  rw [List.length_set] at hlength'
  omega

end Parameters.LaidOut

end

variable {R : Type} [CircularScalar R]

theorem Bundle.restore_eq_some_iff {b b' : Bundle R} {t : Tensor R} :
    b.restore t = some b' ↔ ∃ v p, t.toList? = some v ∧ v.length = b.dimension ∧
      Parameters.ofVector b.cameras.size v = .ok p ∧ b' = b.withParameters p := by
  rw [restore]
  cases t.toList? with
  | none => simp
  | some v =>
    by_cases hlength : v.length = b.dimension
    · obtain ⟨p, hp⟩ := Parameters.exists_ofVector hlength
      simp [hlength, hp, eq_comm]
    · simp [hlength]

theorem Bundle.restore_eq_none_iff {b : Bundle R} {t : Tensor R} :
    b.restore t = none ↔ ∀ v, t.toList? = some v → v.length ≠ b.dimension := by
  rw [Option.eq_none_iff_forall_ne_some]
  constructor
  · intro h v hv hlength
    obtain ⟨p, hp⟩ := Parameters.exists_ofVector hlength
    exact h _ (restore_eq_some_iff.mpr ⟨v, p, hv, hlength, hp, rfl⟩)
  · rintro h b' hb'
    obtain ⟨v, p, hv, hlength, -⟩ := restore_eq_some_iff.mp hb'
    exact h v hv hlength

theorem Bundle.exists_restore {b : Bundle R} {x : List R} (h : Adjustment.fits b x = true) :
    ∃ b', b.restore (.ofList x) = some b' := by
  have hlength : x.length = b.dimension := of_decide_eq_true h
  obtain ⟨p, hp⟩ := Parameters.exists_ofVector hlength
  exact ⟨_, restore_eq_some_iff.mpr ⟨x, p, rfl, hlength, hp, rfl⟩⟩

end DampedLeastSquares
