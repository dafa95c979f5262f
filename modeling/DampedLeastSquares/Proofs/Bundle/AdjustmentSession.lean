import DampedLeastSquares.Proofs.Bundle.SameResiduals
import DampedLeastSquares.Proofs.Problem.Session
import DampedLeastSquares.Proofs.Solve.WorkerCount

/-!
# Sessions of an adjustment

An adjustment evaluates the bundle as it stands at the moment, and every solution that is committed
replaces the poses and points of this bundle. The problem that was made for the first bundle goes on
being used for all the later ones, with the pattern, the numbers of conditions and variables, and
the order of the cameras it had then.

That is sound because a bundle asks with its rig alone, and restoring keeps the rig. A call on an
adjustment restores a vector, once or not at all, or says which variables may move; so a session of
calls, whatever becomes of them, ends with an adjustment that asks what it asked in the beginning.
-/

namespace DampedLeastSquares

variable {R : Type} [CircularScalar R]

namespace Adjustment

/-! ## Calls -/

/-- The adjustment after a call. To offer a solution is to restore it into the bundle. A call that
is refused, or that fails, leaves the adjustment alone, and a call never returns if its iteration
goes on for ever. -/
def call (a : Adjustment R) : Call R → Option (Adjustment R)
  | .setActive indices =>
    some (match a.setActive? indices with
      | .ok (some a') => a'
      | _ => a)
  | .setSolution x => some ((a.restore x).getD a)
  | .solve settings start =>
    match a.solve settings (start.map Tensor.entries) with
    | .ok solved => solved.map Prod.snd
    | .error _ => some a

/-- The adjustment after one call after another. -/
def session : Adjustment R → List (Call R) → Option (Adjustment R)
  | a, [] => some a
  | a, c :: calls => (a.call c).bind fun a' ↦ a'.session calls

variable {a a' : Adjustment R} {b : Bundle R} {holdFirst : Bool} {diffStep : Amount R}
  {workers : Except Fault Workers}

theorem exists_of_make (h : make b holdFirst diffStep workers = .ok a) :
    ∃ s active pattern_shape active_nodup active_lt, b.sparsity = .ok s ∧
      active = (if holdFirst then (List.range b.dimension).filter fun i ↦ decide (6 ≤ i)
        else List.range b.dimension) ∧
      a = ⟨b, { conditions := b.conditions, dimension := b.dimension, residual := fun _ ↦ b.residual
                diffStep, workers, pattern := some s.toTensor, active, accepts := fits b
                pattern_shape, active_nodup, active_lt }⟩ := by
  rw [make] at h
  cases hs : b.sparsity with
  | error fault =>
    rw [hs] at h
    cases h
  | ok s =>
    simp only [hs, bind, Except.bind, pure, Except.pure] at h
    split at h
    · cases h
    next problem hproblem =>
      obtain ⟨pattern_shape, rfl⟩ := Problem.exists_of_make hproblem
      obtain rfl := Except.ok.inj h
      cases holdFirst with
      | false => exact ⟨s, _, pattern_shape, _, _, rfl, rfl, rfl⟩
      | true => exact ⟨s, _, pattern_shape, _, _, rfl, rfl, rfl⟩

theorem exists_make (h : (make b holdFirst diffStep workers).isOk = true) :
    ∃ a, make b holdFirst diffStep workers = .ok a := by
  cases hmade : make b holdFirst diffStep workers with
  | error fault =>
    rw [hmade] at h
    exact nomatch h
  | ok a => exact ⟨a, rfl⟩

/-- What a call can do. -/
inductive Change (a : Adjustment R) : Adjustment R → Prop
  /-- Nothing has changed. -/
  | nothing : a.Change a
  /-- A vector was restored into the bundle. -/
  | restored (bundle : Bundle R) (x : Tensor R) (h : a.bundle.restore x = some bundle) :
    a.Change (a.withBundle bundle)
  /-- Other variables may move. -/
  | activated (active : List Nat) (active_nodup : active.Nodup)
    (active_lt : ∀ i ∈ active, (i : Int) < a.problem.dimension) :
    a.Change ⟨a.bundle, { a.problem with active, active_nodup, active_lt }⟩

omit [CircularScalar R] in
theorem exists_of_setActive? {indices : List Number} (h : a.setActive? indices = .ok (some a')) :
    ∃ problem, a.problem.setActive? indices = .ok (some problem) ∧ a' = { a with problem } := by
  rw [setActive?] at h
  cases hset : a.problem.setActive? indices with
  | error fault =>
    rw [hset] at h
    exact nomatch h
  | ok p? =>
    rw [hset] at h
    obtain ⟨problem, rfl, rfl⟩ := Option.map_eq_some_iff.mp (Except.ok.inj h)
    exact ⟨problem, rfl, rfl⟩

theorem change_restore (a : Adjustment R) (x : Tensor R) : a.Change ((a.restore x).getD a) := by
  rw [restore]
  cases h : a.bundle.restore x with
  | none => exact .nothing
  | some bundle => exact .restored bundle x h

theorem change_afterSolve (a : Adjustment R) (o : Outcome R) : a.Change (a.afterSolve o) := by
  rw [afterSolve]
  cases o.committed with
  | none => exact .nothing
  | some x => exact a.change_restore (.ofList x)

/-- **Whatever is called, a vector is restored, or other variables may move, or nothing happens.**
-/
theorem change_of_call {c : Call R} (h : a.call c = some a') : a.Change a' := by
  cases c with
  | setActive indices =>
    obtain rfl := Option.some.inj h
    cases hset : a.setActive? indices with
    | error fault => exact .nothing
    | ok set =>
      cases set with
      | none => exact .nothing
      | some a₁ =>
        obtain ⟨problem, hproblem, rfl⟩ := exists_of_setActive? hset
        obtain ⟨active, active_nodup, active_lt, rfl⟩ := Problem.exists_of_setActive? hproblem
        exact .activated active active_nodup active_lt
  | setSolution x =>
    obtain rfl := Option.some.inj h
    exact a.change_restore x
  | solve settings start =>
    rw [call] at h
    split at h
    next solved hsolve =>
      obtain ⟨⟨o, a₁⟩, rfl, rfl⟩ := Option.map_eq_some_iff.mp h
      obtain ⟨start', -, rfl⟩ := exists_solve_of_solve hsolve
      exact a.change_afterSolve o
    · obtain rfl := Option.some.inj h
      exact .nothing

/-! ## What stays -/

/-- An adjustment of what became of a bundle by taking in vectors. -/
structure DescendsFrom (a : Adjustment R) (b : Bundle R) : Prop where
  /-- The rig is that of the bundle. -/
  rig : b.SameRig a.bundle
  /-- The residuals are those of the bundle as it stands. -/
  residual : a.problem.residual = fun _ ↦ a.bundle.residual
  /-- The points that are accepted are those that the bundle takes in as it stands. -/
  accepts : a.problem.accepts = fits a.bundle
  /-- The pattern was found for the first bundle. -/
  pattern : ∃ s, b.sparsity = .ok s ∧ a.problem.pattern = some s.toTensor
  /-- The number of conditions is that of the first bundle. -/
  conditions : a.problem.conditions = b.conditions
  /-- The number of variables is that of the first bundle. -/
  dimension : a.problem.dimension = b.dimension

theorem descendsFrom_of_make (h : make b holdFirst diffStep workers = .ok a) :
    a.DescendsFrom b := by
  obtain ⟨s, active, pattern_shape, active_nodup, active_lt, hs, -, rfl⟩ := exists_of_make h
  exact ⟨.refl b, rfl, rfl, ⟨s, hs, rfl⟩, rfl, rfl⟩

/-- **A call keeps the rig and the problem.** -/
theorem DescendsFrom.change (h : a.DescendsFrom b) (hchange : a.Change a') :
    a'.DescendsFrom b := by
  cases hchange with
  | nothing => exact h
  | restored bundle x hrestore =>
    exact ⟨h.rig.trans (Bundle.sameRig_of_restore hrestore), rfl, rfl, h.pattern, h.conditions,
      h.dimension⟩
  | activated active active_nodup active_lt =>
    exact ⟨h.rig, h.residual, h.accepts, h.pattern, h.conditions, h.dimension⟩

/-- **A session of calls keeps what an adjustment descends from.** -/
theorem DescendsFrom.session (h : a.DescendsFrom b) {calls : List (Call R)}
    (hsession : a.session calls = some a') : a'.DescendsFrom b := by
  -- The adjustment changes on the way, and what it descends from does not.
  induction calls generalizing a with
  | nil =>
    obtain rfl := Option.some.inj hsession
    exact h
  | cons c calls ih =>
    obtain ⟨a₁, hcall, hrest⟩ := Option.bind_eq_some_iff.mp hsession
    exact ih (h.change (change_of_call hcall)) hrest

end Adjustment

/-- A call whose iteration, if there is one, has a limit that counts can reach. -/
def Call.IsLimited : Call R → Prop
  | .solve settings _ => ∃ bound, settings.limit = .atMost bound
  | _ => True

namespace Adjustment

variable {a a' : Adjustment R} {b : Bundle R} {holdFirst : Bool} {diffStep : Amount R}
  {workers : Except Fault Workers}

theorem exists_call (a : Adjustment R) {c : Call R} (h : c.IsLimited) :
    ∃ a', a.call c = some a' := by
  cases c with
  | setActive indices => exact ⟨_, rfl⟩
  | setSolution x => exact ⟨_, rfl⟩
  | solve settings start =>
    obtain ⟨bound, hbound⟩ := h
    rw [call]
    cases hsolve : a.solve settings (start.map Tensor.entries) with
    | error fault => exact ⟨_, rfl⟩
    | ok solved =>
      obtain ⟨start', -, rfl⟩ := solve_eq_ok_iff.mp hsolve
      obtain ⟨o, ho⟩ := Problem.exists_solve hbound a.problem start'
      rw [ho]
      exact ⟨_, rfl⟩

theorem exists_session (a : Adjustment R) {calls : List (Call R)} (h : ∀ c ∈ calls, c.IsLimited) :
    ∃ a', a.session calls = some a' := by
  induction calls generalizing a with
  | nil => exact ⟨a, rfl⟩
  | cons c calls ih =>
    rw [List.forall_mem_cons] at h
    obtain ⟨a₁, ha₁⟩ := a.exists_call h.1
    obtain ⟨a', ha'⟩ := ih a₁ h.2
    exact ⟨a', by rw [session, ha₁, Option.bind_some, ha']⟩

/-- **Committing does not change the problem.** Let an adjustment of a bundle be made, and let one
call after another be made on it: vectors offered, solves, other variables to move. The residuals of
the problem are then the same as in the beginning, as functions, and they are those of the bundle as
it stands. The pattern of the problem is the one that would be found for the bundle as it stands.
The numbers of conditions and variables, the labels in both their orders, and the points that are
accepted are as in the beginning. Any further calls come to an end, if solves have limits. -/
theorem asks_the_same_of_session (hmade : make b holdFirst diffStep workers = .ok a)
    {calls : List (Call R)} (hsession : a.session calls = some a') :
    a'.problem.residual = a.problem.residual ∧
    (∀ n, a'.problem.residual n = a'.bundle.residual) ∧
    a'.bundle.residual = b.residual ∧ a'.bundle.residualOfTensor = b.residualOfTensor ∧
    (∃ s, a'.bundle.sparsity = .ok s ∧ a'.problem.pattern = some s.toTensor) ∧
    (a'.problem.conditions = a.problem.conditions ∧ a'.problem.conditions = a'.bundle.conditions) ∧
    (a'.problem.dimension = a.problem.dimension ∧ a'.problem.dimension = a'.bundle.dimension) ∧
    a'.bundle.cameras.labels = b.cameras.labels ∧
    a'.bundle.cameras.entries.map Prod.fst = b.cameras.entries.map Prod.fst ∧
    a'.problem.accepts = a.problem.accepts ∧
    ∀ more : List (Call R), (∀ c ∈ more, c.IsLimited) → ∃ a'', a'.session more = some a'' := by
  have h := descendsFrom_of_make hmade
  have h' := h.session hsession
  obtain ⟨s, hs, hpattern⟩ := h'.pattern
  have hfits : a'.problem.accepts = a.problem.accepts := by
    rw [h'.accepts, h.accepts]
    funext x
    rw [fits, fits, h'.rig.dimension, h.rig.dimension]
  refine ⟨?_, fun n ↦ ?_, h'.rig.residual, h'.rig.residualOfTensor, ⟨s, ?_, hpattern⟩, ⟨?_, ?_⟩,
    ⟨?_, ?_⟩, h'.rig.labels, h'.rig.order, hfits, fun more hmore ↦ a'.exists_session hmore⟩
  · rw [h'.residual, h.residual, h'.rig.residual, h.rig.residual]
  · rw [h'.residual]
  · rw [h'.rig.sparsity, hs]
  · rw [h'.conditions, h.conditions]
  · rw [h'.conditions, h'.rig.conditions]
  · rw [h'.dimension, h.dimension]
  · rw [h'.dimension, h'.rig.dimension]

end Adjustment

/-! ## A view -/

open PartialRat

/-- A camera that only divides by depth. -/
def straight : Camera PartialRat where
  intrinsics := ⟨Mat3.identity.toTensor, ⟨[0], [], rfl⟩⟩
  pose := ⟨Mat3.identity.toTensor, .ofList [0, 0, 0]⟩

/-- A camera that sees a point elsewhere than it should. -/
def Bundle.oneView : Bundle PartialRat where
  cameras := ⟨[(0, straight)], by decide⟩
  observations := .ofWords .int32 [0] [⟨ofRat 3, ofRat 5⟩] [0]
  points := [⟨1, 1, 1⟩]

namespace Adjustment

/-- A vector that is taken in, something that is none and is refused, and a solve. -/
def threeCalls : List (Call PartialRat) :=
  [.setSolution (.ofList [0, 0, 0, 0, 0, 0, 1, 1, ofRat 2]), .setSolution (.scalar 0),
    .solve cautiousSettings none]

/-- Though the point has moved, the problem is the same. -/
theorem asks_the_same_of_session_oneView : ∃ a a₁ a',
    make .oneView true (.whole 1) (Number.truth true).workers = .ok a ∧
    a.session (threeCalls.take 2) = some a₁ ∧ a₁.bundle.points = [⟨1, 1, ofRat 2⟩] ∧
    a.session threeCalls = some a' ∧ a'.problem.residual = a.problem.residual ∧
    a'.bundle.residual = Bundle.oneView.residual ∧
    (∃ s, a'.bundle.sparsity = .ok s ∧ a'.problem.pattern = some s.toTensor) ∧
    a'.problem.dimension = 9 ∧ a'.bundle.cameras.labels = [0] := by
  obtain ⟨a, ha⟩ : ∃ a, make .oneView true (.whole 1) (Number.truth true).workers = .ok a :=
    exists_make (by decide +kernel)
  have htaken : ∃ a₁, a.session (threeCalls.take 2) = some a₁ ∧
      a₁.bundle.points = [⟨1, 1, ofRat 2⟩] := by
    obtain ⟨s, active, _, _, _, -, -, rfl⟩ := exists_of_make ha
    exact ⟨_, rfl, rfl⟩
  obtain ⟨a₁, ha₁, hpoints⟩ := htaken
  have hlimited : ∀ c ∈ threeCalls, c.IsLimited := by
    intro c hc
    fin_cases hc
    · exact trivial
    · exact trivial
    · exact ⟨2, rfl⟩
  obtain ⟨a', ha'⟩ := a.exists_session hlimited
  obtain ⟨hresidual, -, hbundle, -, hpattern, -, ⟨hdimension, -⟩, hlabels, -⟩ :=
    asks_the_same_of_session ha ha'
  have horder : Bundle.oneView.cameras.labels = [0] := by decide +kernel
  exact ⟨a, a₁, a', ha, ha₁, hpoints, ha', hresidual, hbundle, hpattern,
    hdimension.trans (descendsFrom_of_make ha).dimension, hlabels.trans horder⟩

end Adjustment

end DampedLeastSquares
