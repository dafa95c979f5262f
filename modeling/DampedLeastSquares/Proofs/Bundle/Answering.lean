import DampedLeastSquares.Proofs.Bundle.AdjustmentSession
import DampedLeastSquares.Proofs.Solve.Faultless

/-!
# Models that always answer

When does a model give a problem without faults? A function has to answer with the right number of
residuals, and that is all. For a bundle it comes from its rig: the three lists of observations have
one length, each observation is of a point and in a camera that are there, and each camera has a
lens. No session of calls can undo this, since calls change the committed solution and the variables
that may move, and nothing else.

Of the settings it takes more than that they are allowed. A step of a difference quotient may be
given as a whole number too large for a float, and the number of workers as a float; either is
allowed, and then no Jacobian comes out.
-/

namespace DampedLeastSquares

/-! ## Settings -/

/-- The bound on updates is a whole number, and damping is by floats. -/
structure Damping.IsPlain (d : Damping) : Prop where
  /-- The bound is a whole number. -/
  maxCount : ∃ n, d.stopping.maxCount = .int n
  /-- The first damping is a float, if it is given. -/
  initialLambda : ∀ n ∈ d.initialLambda, ∃ x, n = .real x
  /-- The factor is a float. -/
  eta : ∃ x, d.eta = .real x

/-- There is a float next to the step, and workers are counted in whole numbers. -/
structure Differencing.IsPlain (d : Differencing) : Prop where
  /-- A step that is a whole number is not too large. -/
  diffStep : ∀ n, d.diffStep = .int n → Scalar.isFinite (Amount.ofWhole n : Float) = true
  /-- A number of workers that is a float is zero, so that the host decides. -/
  threads : ∀ x, d.threads = some (.real x) → (Number.real x).isTrue = false

theorem Damping.IsPlain.settings {d : Damping} (h : d.IsPlain) : d.settings.IsPlain where
  initialDamping := by
    intro damping hdamping
    obtain ⟨n, hn, rfl⟩ := Option.map_eq_some_iff.mp hdamping
    obtain ⟨x, rfl⟩ := h.initialLambda n hn
    exact ⟨x, rfl⟩
  eta := by
    obtain ⟨x, hx⟩ := h.eta
    exact ⟨x, congrArg Number.toAmount hx⟩

theorem Damping.IsPlain.exists_limit {d : Damping} (h : d.IsPlain) :
    ∃ bound, d.settings.limit = .atMost bound := by
  obtain ⟨n, hn⟩ := h.maxCount
  refine ⟨n.toNat, ?_⟩
  change d.stopping.limit = _
  rw [Stopping.limit, hn]
  rfl

namespace Differencing

variable {d : Differencing}

theorem IsPlain.exists_read (h : d.IsPlain) : ∃ a, d.diffStep.toAmount.read = .ok a := by
  cases hstep : d.diffStep with
  | int n => exact ⟨_, if_pos (h.diffStep n hstep)⟩
  | real x => exact ⟨x, rfl⟩
  | truth b =>
    have hfinite : Scalar.isFinite (Amount.ofWhole (if b then 1 else 0) : Float) = true := by
      cases b <;> decide +kernel
    exact ⟨_, if_pos hfinite⟩

theorem IsPlain.exists_workers (h : d.IsPlain) (host : Workers) :
    ∃ w, d.workers host = .ok w := by
  have hallowed := d.threads_ok
  rw [Differencing.workers]
  cases hthreads : d.threads with
  | none => exact ⟨host, rfl⟩
  | some n =>
    rw [hthreads] at hallowed
    dsimp only
    cases htrue : n.isTrue with
    | false => exact ⟨host, rfl⟩
    | true =>
      rw [if_pos rfl]
      cases n with
      | real x => exact absurd htrue (by rw [h.threads x hthreads]; exact Bool.false_ne_true)
      | truth b =>
        cases b with
        | false => exact nomatch htrue
        | true => exact ⟨_, rfl⟩
      | int k =>
        have hpos : 0 < k.toNat := by
          simp only [Number.isTrue, Number.isAtMost, Number.isAtLeast, Number.isBelow,
            Number.magnitude, Option.all_some, Bool.not_eq_true', Bool.and_eq_false_iff,
            decide_eq_false_iff_not] at htrue hallowed
          omega
        exact ⟨_, dif_pos hpos⟩

end Differencing

/-! ## Functions -/

namespace FunctionModel

variable {R : Type} [Scalar R] {m m' : FunctionModel R}

omit [Scalar R] in
theorem afterSolve_problem (m : FunctionModel R) (o : Outcome R) :
    (m.afterSolve o).problem = m.problem := by
  rw [afterSolve]
  split <;> rfl

/-- A call changes nothing of the problem but which variables may move. -/
theorem exists_active_of_call {c : Call R} {o? : Option (Outcome R)}
    (h : m.call c = some (o?, m')) : ∃ active active_nodup active_lt,
      m'.problem = { m.problem with active, active_nodup, active_lt } := by
  have hsame : ∃ active active_nodup active_lt,
      m.problem = { m.problem with active, active_nodup, active_lt } :=
    ⟨_, m.problem.active_nodup, m.problem.active_lt, rfl⟩
  cases c with
  | setActive indices =>
    obtain ⟨-, rfl⟩ := Prod.mk.inj (Option.some.inj h)
    split
    next m' hset =>
      obtain ⟨problem, hproblem, rfl⟩ := exists_of_setActive? hset
      exact Problem.exists_of_setActive? hproblem
    · exact hsame
  | setSolution x =>
    obtain ⟨-, rfl⟩ := Prod.mk.inj (Option.some.inj h)
    cases hset : m.setSolution x with
    | none => exact hsame
    | some m' =>
      rw [setSolution] at hset
      split at hset
      · split at hset
        · obtain rfl := Option.some.inj hset
          exact hsame
        · exact nomatch hset
      · exact nomatch hset
  | solve settings start =>
    obtain ⟨⟨o, m'⟩, hsolve, heq⟩ := Option.map_eq_some_iff.mp h
    obtain ⟨-, rfl⟩ := Prod.mk.inj heq
    obtain ⟨o', -, heq⟩ := Option.map_eq_some_iff.mp hsolve
    obtain ⟨-, rfl⟩ := Prod.mk.inj heq
    rw [afterSolve_problem]
    exact hsame

/-- **No session undoes that a problem always answers.** -/
theorem isFaultless_of_session (hm : m.problem.IsFaultless) {calls : List (Call R)}
    (h : m.session calls = some m') :
    m'.problem.IsFaultless ∧ m'.problem.dimension = m.problem.dimension := by
  induction calls generalizing m with
  | nil =>
    obtain rfl := Option.some.inj h
    exact ⟨hm, rfl⟩
  | cons c calls ih =>
    obtain ⟨⟨o?, m₁⟩, hcall, hrest⟩ := Option.bind_eq_some_iff.mp h
    obtain ⟨_, _, _, hproblem⟩ := exists_active_of_call hcall
    have hm₁ : m₁.problem.IsFaultless := by
      rw [hproblem]
      exact ⟨hm.residual, hm.diffStep, hm.workers, hm.accepts⟩
    obtain ⟨hfaultless, hdimension⟩ := ih hm₁ hrest
    exact ⟨hfaultless, hdimension.trans (by rw [hproblem])⟩

end FunctionModel

/-! ## Bundles -/

/-- The inside of a camera as callers are asked to give it: a matrix of three rows of three entries,
and a number of coefficients that has a meaning, in a row or in a column. -/
structure Intrinsics.IsRegular {R : Type} (i : Intrinsics R) : Prop where
  /-- The matrix is one of three by three. -/
  matrix : i.matrix.shape = [3, 3]
  /-- The number of coefficients has a meaning. -/
  distortion : ∃ coefficients, i.coefficients? = some coefficients ∧
    coefficients.length ∈ [0, 4, 5, 8, 12, 14]

theorem Distortion.exists_ofList? {R : Type} [Scalar R] {coefficients : List R}
    (h : coefficients.length ∈ [0, 4, 5, 8, 12, 14]) :
    ∃ d, Distortion.ofList? coefficients = some d := by
  -- Up to its length a list of coefficients is taken apart, and beyond that it has too many.
  rcases coefficients with _ | ⟨_, _ | ⟨_, _ | ⟨_, _ | ⟨_, _ | ⟨_, _ | ⟨_, _ | ⟨_, _ | ⟨_,
    _ | ⟨_, _ | ⟨_, _ | ⟨_, _ | ⟨_, _ | ⟨_, _ | ⟨_, _ | ⟨_, _⟩⟩⟩⟩⟩⟩⟩⟩⟩⟩⟩⟩⟩⟩⟩
  all_goals first | exact ⟨_, rfl⟩ | simp at h

theorem Intrinsics.IsRegular.exists_lens {R : Type} [CircularScalar R] {i : Intrinsics R}
    (h : i.IsRegular) : ∃ lens, i.lens? = some lens := by
  obtain ⟨coefficients, hcoefficients, hlength⟩ := h.distortion
  obtain ⟨d, hd⟩ := Distortion.exists_ofList? hlength
  obtain ⟨⟨shape, entries, hentries⟩, distortion⟩ := i
  obtain rfl : shape = [3, 3] := h.matrix
  obtain ⟨m, rfl⟩ := Mat3.exists_toList hentries
  rw [lens?, hcoefficients, Option.bind_some, hd]
  exact ⟨_, rfl⟩

namespace Bundle

variable {R : Type} [CircularScalar R]

/-- A bundle as callers are asked to give it. The number of a point may be counted from either
end. -/
structure IsSound (b : Bundle R) : Prop where
  /-- There is a camera. -/
  nonempty : b.cameras.size ≠ 0
  /-- All poses are regular. -/
  regular : b.IsRegular
  /-- The insides of all cameras are regular. -/
  intrinsics : ∀ entry ∈ b.cameras.entries, entry.2.intrinsics.IsRegular
  /-- Each observation has a camera. -/
  cameras : b.observations.cameras.length = b.observations.images.length
  /-- Each observation has a point. -/
  points : b.observations.points.length = b.observations.images.length
  /-- The camera of each observation is there. -/
  known : ∀ label ∈ b.observations.cameras, label ∈ b.cameras.labels
  /-- The point of each observation is there, counted from either end. -/
  inRange : ∀ index ∈ b.observations.points,
    -(b.points.length : Int) ≤ index ∧ index < b.points.length

variable {b : Bundle R}

omit [CircularScalar R] in
theorem IsSound.isMatched (h : b.IsSound) : b.IsMatched := ⟨⟨h.cameras, h.points⟩, h.inRange⟩

omit [CircularScalar R] in
theorem IsSound.exists_sparsity (h : b.IsSound) (haddress : b.IsAddressable) :
    ∃ s, b.sparsity = .ok s ∧ s.toTensor.shape = [b.conditions, b.dimension] := by
  have hs := h.isMatched.sparsity haddress h.known
  exact ⟨_, hs, h.isMatched.shape_toTensor hs⟩

theorem IsSound.exists_residual (h : b.IsSound) {x : List R} (hx : x.length = b.dimension) :
    ∃ y, b.residual x = .ok y ∧ y.length = b.conditions := by
  obtain ⟨p, hp⟩ := Parameters.exists_ofVector hx
  have hcovered := h.isMatched.covered hx (Parameters.laidOut_of_ofVector hp)
  have hlens : b.HasLenses b.cameras.entries := fun entry hentry _ ↦
    (h.intrinsics entry hentry).exists_lens
  obtain ⟨y, hy, hlength, -⟩ := exists_residualOf hcovered hlens
  exact ⟨y, (residual_of_ofVector hp).trans hy, hlength⟩

theorem IsSound.exists_store {b' : Bundle R} (h : b.IsSound) (hrig : b.SameRig b')
    (hregular : b'.IsRegular) : ∃ x, b'.store = .ok (some x) ∧ x.length = b.dimension := by
  have hsome : b'.cameras.size ≠ 0 := hrig.size ▸ h.nonempty
  exact ⟨_, hregular.store hsome, by rw [hregular.layout.length, hrig.dimension]⟩

end Bundle

namespace Adjustment

variable {R : Type} [CircularScalar R] {b : Bundle R} {a a' : Adjustment R}

theorem isRegular_of_session (h : a.bundle.IsRegular) {calls : List (Call R)}
    (hsession : a.session calls = some a') : a'.bundle.IsRegular ∧
      a'.problem.diffStep = a.problem.diffStep ∧ a'.problem.workers = a.problem.workers := by
  induction calls generalizing a with
  | nil =>
    obtain rfl := Option.some.inj hsession
    exact ⟨h, rfl, rfl⟩
  | cons c calls ih =>
    obtain ⟨a₁, hcall, hrest⟩ := Option.bind_eq_some_iff.mp hsession
    have hfirst : a₁.bundle.IsRegular ∧ a₁.problem.diffStep = a.problem.diffStep ∧
        a₁.problem.workers = a.problem.workers := by
      cases change_of_call hcall with
      | nothing => exact ⟨h, rfl, rfl⟩
      | restored bundle x hrestore =>
        have hrestored := (h.restore x).1
        rw [hrestore] at hrestored
        exact ⟨hrestored, rfl, rfl⟩
      | activated => exact ⟨h, rfl, rfl⟩
    obtain ⟨hregular, hdiffStep, hworkers⟩ := ih hfirst.1 hrest
    exact ⟨hregular, hdiffStep.trans hfirst.2.1, hworkers.trans hfirst.2.2⟩

/-- What becomes of a sound bundle by a session of calls gives a problem that always answers. -/
theorem DescendsFrom.isFaultless (h : a.DescendsFrom b) (hb : b.IsSound)
    (hdiffStep : ∃ c, a.problem.diffStep.read = .ok c)
    (hworkers : ∃ w, a.problem.workers = .ok w) : a.problem.IsFaultless where
  residual _ x hx := by
    rw [h.dimension] at hx
    obtain ⟨y, hy, hlength⟩ := hb.exists_residual (Int.ofNat.inj hx)
    rw [h.residual, h.rig.residual, h.conditions]
    exact ⟨y, hy, congrArg Int.ofNat hlength⟩
  diffStep := hdiffStep
  workers := hworkers
  accepts x hx := by
    rw [h.dimension] at hx
    rw [h.accepts]
    exact decide_eq_true ((Int.ofNat.inj hx).trans h.rig.dimension.symm)

/-- The adjustment of a sound bundle is made exactly if its columns can be looked up. -/
theorem isAddressable_iff_exists_make (hb : b.IsSound) (holdFirst : Bool) (diffStep : Amount R)
    (workers : Except Fault Workers) :
    b.IsAddressable ↔ ∃ a, make b holdFirst diffStep workers = .ok a := by
  constructor
  · intro haddress
    obtain ⟨s, hs, hshape⟩ := hb.exists_sparsity haddress
    have hfits : s.toTensor.shape.map Int.ofNat = [(b.conditions : Int), (b.dimension : Int)] := by
      rw [hshape]
      rfl
    rw [make, hs]
    simp only [bind, Except.bind, Problem.make, dif_pos hfits]
    exact ⟨_, rfl⟩
  · rintro ⟨a, ha⟩
    obtain ⟨s, _, _, _, _, hs, -⟩ := exists_of_make ha
    exact hb.isMatched.isAddressable hs

end Adjustment

/-! ## Solves -/

/-- **A model that always answers is solved, or its equations are ill-posed.** Let settings be
plain. Then no function that answers at every vector of the right length with the right number of
residuals fails to be solved for any other reason, from whichever array of that many numbers, after
whichever session of calls and with whichever pattern. Neither does a bundle whose cameras, points
and observations fit together: its adjustment is made exactly if its columns can be looked up, and
is solved from its own parameters or from any vector of the right length. -/
theorem converged_or_illPosed (host : Workers) {d : Differencing} (hd : d.IsPlain) {s : Damping}
    (hs : s.IsPlain) :
    (∀ (conditions dimension : Int) (residual : Residual Float) (pattern : Option (Tensor Bool))
      (solution : Option (Tensor Float)) (made : FunctionModel Float),
      FunctionModel.make conditions dimension residual d.diffStep.toAmount (d.workers host) pattern
        solution = .ok made →
      (∀ calls x, (x.length : Int) = dimension →
        ∃ y, residual calls x = .ok y ∧ (y.length : Int) = conditions) →
      ∀ calls m, made.session calls = some m →
      ∀ x : Tensor Float, (x.size : Int) = dimension →
        ∃ o m', m.solve s.settings (some x) = some (o, m') ∧
          (o.status = .converged ∨ o.status = .illPosed)) ∧
    ∀ (b : Bundle Float) (holdFirst : Bool), b.IsSound →
      (b.IsAddressable ↔
        ∃ made, Adjustment.make b holdFirst d.diffStep.toAmount (d.workers host) = .ok made) ∧
      ∀ made, Adjustment.make b holdFirst d.diffStep.toAmount (d.workers host) = .ok made →
        ∀ calls a, made.session calls = some a →
        ∀ start : Option (List Float), (∀ x ∈ start, x.length = b.dimension) →
          ∃ o a', a.solve s.settings start = .ok (some (o, a')) ∧
            (o.status = .converged ∨ o.status = .illPosed) := by
  obtain ⟨bound, hbound⟩ := hs.exists_limit
  refine ⟨?_, ?_⟩
  · intro conditions dimension residual pattern solution made hmade hanswers calls m hsession x hx
    obtain ⟨problem, hproblem, rfl⟩ := FunctionModel.exists_of_make hmade
    obtain ⟨pattern_shape, rfl⟩ := Problem.exists_of_make hproblem
    obtain ⟨hfaultless, hdimension⟩ := FunctionModel.isFaultless_of_session
      ⟨hanswers, hd.exists_read, hd.exists_workers host, fun _ ↦ decide_eq_true⟩ hsession
    have hstart : (x.entries.length : Int) = m.problem.dimension := hx.trans hdimension.symm
    obtain ⟨o, ho⟩ := Problem.exists_solve hbound m.problem (some x.entries)
    refine ⟨o, m.afterSolve o, ?_, hfaultless.status_of_solve hs.settings hstart ho⟩
    exact Option.map_eq_some_iff.mpr ⟨o, ho, rfl⟩
  · intro b holdFirst hb
    refine ⟨Adjustment.isAddressable_iff_exists_make hb holdFirst d.diffStep.toAmount
      (d.workers host), fun made hmade calls a hsession start hstart ↦ ?_⟩
    have hdescends := (Adjustment.descendsFrom_of_make hmade).session hsession
    obtain ⟨hregular, hdiffStep, hworkers⟩ : a.bundle.IsRegular ∧
        a.problem.diffStep = d.diffStep.toAmount ∧ a.problem.workers = d.workers host := by
      obtain ⟨_, _, _, _, _, -, -, rfl⟩ := Adjustment.exists_of_make hmade
      exact Adjustment.isRegular_of_session hb.regular hsession
    have hfaultless : a.problem.IsFaultless := hdescends.isFaultless hb
      (by rw [hdiffStep]; exact hd.exists_read) (by rw [hworkers]; exact hd.exists_workers host)
    have hsolves : ∀ x : List Float, x.length = b.dimension →
        ∃ o, a.problem.solve s.settings (some x) = some o ∧
          (o.status = .converged ∨ o.status = .illPosed) := by
      intro x hx
      have hxlength : (x.length : Int) = a.problem.dimension := by rw [hx, hdescends.dimension]
      obtain ⟨o, ho⟩ := Problem.exists_solve hbound a.problem (some x)
      exact ⟨o, ho, hfaultless.status_of_solve hs.settings hxlength ho⟩
    cases start with
    | some x =>
      obtain ⟨o, ho, hstatus⟩ := hsolves x (hstart x rfl)
      exact ⟨o, _, Adjustment.solve_eq_ok_iff.mpr ⟨some x, rfl, by rw [ho, Option.map_some]⟩,
        hstatus⟩
    | none =>
      -- The start is what the bundle stores by now.
      obtain ⟨x, hx, hlength⟩ := hb.exists_store hdescends.rig hregular
      obtain ⟨o, ho, hstatus⟩ := hsolves x hlength
      exact ⟨o, _, Adjustment.solve_eq_ok_iff.mpr ⟨some x, hx, by rw [ho, Option.map_some]⟩,
        hstatus⟩

/-- A camera that divides by depth, and sees the last of the points. -/
def lastSeen : Bundle Float where
  cameras := ⟨[(0, ⟨⟨Mat3.identity.toTensor, ⟨[0], [], rfl⟩⟩,
    ⟨Mat3.identity.toTensor, .ofList [0, 0, 0]⟩⟩)], by decide⟩
  observations := .ofWords .int32 [0] [⟨3, 5⟩] [-1]
  points := [⟨1, 1, 1⟩]

/-- With the settings that are given to nobody who asks for others, a distance is minimised, and a
bundle is adjusted. -/
theorem converged_or_illPosed_lastSeen :
    (∃ made o m', FunctionModel.make 1 1 (fun _ x ↦ .ok (x.map (· - 3)))
        (Number.real 1e-3).toAmount (Differencing.workers {} { count := 2 }) none none = .ok made ∧
      made.solve (Damping.settings {}) (some (.ofList [0])) = some (o, m') ∧
      (o.status = .converged ∨ o.status = .illPosed)) ∧
    ∃ made o a', Adjustment.make lastSeen true (Number.real 1e-3).toAmount
        (Differencing.workers {} { count := 2 }) = .ok made ∧
      made.solve (Damping.settings {}) none = .ok (some (o, a')) ∧
      (o.status = .converged ∨ o.status = .illPosed) := by
  have hd : Differencing.IsPlain {} := ⟨nofun, nofun⟩
  have hs : Damping.IsPlain {} := ⟨⟨100, rfl⟩, nofun, ⟨10, rfl⟩⟩
  obtain ⟨hfunctions, hbundles⟩ := converged_or_illPosed { count := 2 } hd hs
  refine ⟨?_, ?_⟩
  · obtain ⟨o, m', hsolve, hstatus⟩ := hfunctions 1 1 (fun _ x ↦ .ok (x.map (· - 3))) none none _
      rfl (fun _ x hx ↦ ⟨_, rfl, by rwa [List.length_map]⟩) [] _ rfl (.ofList [0]) rfl
    exact ⟨_, o, m', rfl, hsolve, hstatus⟩
  · have hsound : lastSeen.IsSound := by
      refine ⟨by decide, ?_, ?_, rfl, rfl, by decide +kernel, by decide⟩
      · intro entry hentry
        rw [List.mem_singleton.mp hentry]
        exact ⟨rfl, rfl⟩
      · intro entry hentry
        rw [List.mem_singleton.mp hentry]
        exact ⟨rfl, [], rfl, by decide⟩
    obtain ⟨hmakes, hsolves⟩ := hbundles lastSeen true hsound
    obtain ⟨made, hmade⟩ := hmakes.mp ⟨by decide, fun _ ↦ by decide⟩
    obtain ⟨o, a', hsolve, hstatus⟩ := hsolves made hmade [] made rfl none nofun
    exact ⟨made, o, a', hmade, hsolve, hstatus⟩

/-- A step of a difference quotient that is a whole number too large for a float is allowed. -/
def Differencing.wide : Differencing := { diffStep := .int (16 ^ 256) }

/-- A number of workers that is a float is allowed. -/
def Differencing.fractional : Differencing := { threads := some (.real 2.5) }

/-- One update at most. -/
def Damping.brief : Damping where
  stopping := { maxCount := .int 1 }
  initialLambda := some (.real 1)

/-- With these settings a solve that is to make a function zero which is one everywhere finds that
an evaluation failed. -/
def Differencing.Fails (d : Differencing) : Prop :=
  ∃ made o m', FunctionModel.make 1 1 (fun _ _ ↦ .ok [1]) d.diffStep.toAmount
      (d.workers { count := 2 }) none none = .ok made ∧
    made.solve Damping.brief.settings (some (.ofList [0])) = some (o, m') ∧
    o.status = .evaluationError

/-- Though there is always a residual, either of them keeps the Jacobian from coming out. -/
theorem evaluationError_of_solve :
    Damping.brief.IsPlain ∧ Differencing.wide.Fails ∧ Differencing.fractional.Fails := by
  have hplain : Damping.brief.IsPlain :=
    ⟨⟨1, rfl⟩, fun n hn ↦ ⟨1, (Option.some.inj hn).symm⟩, ⟨10, rfl⟩⟩
  have hfails : ∀ d ∈ [Differencing.wide, Differencing.fractional], d.Fails := by
    intro d hd
    obtain ⟨made, hmade, o, ho, htest⟩ : ∃ made, FunctionModel.make 1 1 (fun _ _ ↦ .ok [1])
          d.diffStep.toAmount (d.workers { count := 2 }) none none = .ok made ∧
        ∃ o, made.problem.solve Damping.brief.settings (some [0]) = some o ∧
          decide (o.status = .evaluationError) = true := by
      refine ⟨_, rfl, Problem.exists_solve_of_test _ Damping.brief.settings [0] [1] 1
        (fun o ↦ decide (o.status = .evaluationError)) (List.cons_ne_nil 0 []) rfl ?_⟩
      fin_cases hd <;> decide +kernel
    exact ⟨made, o, _, hmade, Option.map_eq_some_iff.mpr ⟨o, ho, rfl⟩, of_decide_eq_true htest⟩
  exact ⟨hplain, hfails _ (.head _), hfails _ (.tail _ (.head _))⟩

end DampedLeastSquares
