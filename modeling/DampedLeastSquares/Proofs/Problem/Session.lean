import DampedLeastSquares.Proofs.Solve.Best
import DampedLeastSquares.Proofs.Solve.Commit

/-!
# Sessions

A model is used by one call after another, and each of them finds it as the one before has left it.
What a session of calls does to the committed solution is therefore said of a single call, and then
carried from call to call.

A solve that is not told where to start starts at the committed solution, and commits its best point
if it is done. So the solution stays as it is, or gives way to a better one, whichever variables may
move and whatever becomes of the solves. For the residual function nothing is asked but that it is
pure: it may fail, be undefined, or change its mind about how many conditions there are.
-/

namespace DampedLeastSquares

variable {R : Type} [Scalar R]

/-! ## Solves from a committed point -/

namespace Problem

/-- A point is no worse than another one: it is the same, or its error is smaller. -/
def NoWorse (p : Problem R) (x y : List R) : Prop :=
  y = x ∨ ∃ e e', p.errorAt? x = some e ∧ p.errorAt? y = some e' ∧ e' < e

variable {p q : Problem R} {settings : Settings R} {x y z : List R}

theorem NoWorse.refl (p : Problem R) (x : List R) : p.NoWorse x x := Or.inl rfl

theorem NoWorse.trans [LawfulOrder R] (hxy : p.NoWorse x y) (hyz : p.NoWorse y z) :
    p.NoWorse x z := by
  rcases hxy with rfl | ⟨e, e', hx, hy, hlt⟩
  · exact hyz
  rcases hyz with rfl | ⟨e₁, e₂, hy', hz, hlt'⟩
  · exact Or.inr ⟨e, e', hx, hy, hlt⟩
  · obtain rfl := Option.some.inj (hy.symm.trans hy')
    exact Or.inr ⟨e, e₂, hx, hz, LawfulOrder.lt_trans hlt' hlt⟩

theorem errorAt?_congr (h : p.residual = q.residual) (x : List R) :
    p.errorAt? x = q.errorAt? x := by
  rw [errorAt?, errorAt?, h]

theorem NoWorse.congr (h : p.residual = q.residual) (hxy : p.NoWorse x y) : q.NoWorse x y := by
  rw [NoWorse, errorAt?_congr h, errorAt?_congr h] at hxy
  exact hxy

theorem retrace?_of_countP_eq_zero (p : Problem R) (start : List R) {trials : List (Trial R)}
    (h : trials.countP Trial.accepted = 0) : p.retrace? start trials = some start := by
  rw [List.countP_eq_length_filter, List.length_eq_zero_iff] at h
  rw [retrace?, h]
  rfl

variable [LawfulOrder R] {o : Outcome R}

theorem errorAt?_of_head? (h : p.solve settings (some x) = some o) {e : R}
    (he : o.trace.errors.head? = some e) : p.errorAt? x = some e := by
  cases solved_of_solve h with
  | nothingActive =>
    rw [trace_commit] at he
    exact nomatch he
  | unevaluated => exact nomatch he
  | iterated _ hends =>
    obtain ⟨residuals, hevaluated, -⟩ := id hends
    rw [trace_outcome, (least_of_ends hevaluated hends).head] at he
    rw [errorAt?_of_residual hevaluated, he]

theorem noWorse_of_ends (hp : p.IsPure) {e : Ending} {s : State R} (h : p.Ends settings x e s) :
    p.NoWorse x s.best.point := by
  have hbest := isBest_of_ends hp h
  have hcoherent := (recorded_of_ends (fun _ _ ↦ LawfulOrder.sub_pos_iff.mp) h).coherent
  obtain ⟨first, hhead, hfirst, -⟩ := hbest.start_not_lt
  by_cases hupdates : s.trace.updates = 0
  · rw [← hcoherent.countP_accepted] at hupdates
    have hretraced := hbest.retraced
    rw [p.retrace?_of_countP_eq_zero x hupdates] at hretraced
    exact Or.inl (Option.some.inj hretraced).symm
  · have hlt := hcoherent.last_lt_head hupdates hhead hbest.last_error
    exact Or.inr ⟨first, s.best.error, hfirst, hbest.errorAt, hlt⟩

theorem noWorse_of_solve (hp : p.IsPure) (h : p.solve settings (some x) = some o)
    (hstatus : o.status = .converged) (hpoint : o.point = some y) : p.NoWorse x y := by
  cases solved_of_solve h with
  | nothingActive =>
    rw [point_commit] at hpoint
    exact Or.inl (Option.some.inj hpoint).symm
  | unevaluated => exact nomatch hstatus
  | @iterated _ e s _ hends =>
    cases e with
    | illPosed | failed => exact nomatch hstatus
    | finished =>
      rw [outcome, point_commit] at hpoint
      rw [← Option.some.inj hpoint]
      exact noWorse_of_ends hp hends

end Problem

/-! ## Calls -/

/-- A call on a model. -/
inductive Call (R : Type)
  /-- The variables that may move are to be these. -/
  | setActive (indices : List Number)
  /-- A solution is offered. -/
  | setSolution (x : Tensor R)
  /-- The problem is to be solved, from a given start or from the committed solution. -/
  | solve (settings : Settings R) (start : Option (Tensor R))

namespace FunctionModel

/-- What a call returns, if it is a solve, and the model after it. A call that is refused, or that
fails, leaves the model alone. A call never returns if its iteration goes on for ever. -/
def call (m : FunctionModel R) : Call R → Option (Option (Outcome R) × FunctionModel R)
  | .setActive indices =>
    some (none, match m.setActive? indices with
      | .ok (some m') => m'
      | _ => m)
  | .setSolution x => some (none, (m.setSolution x).getD m)
  | .solve settings start => (m.solve settings start).map fun (o, m') ↦ (some o, m')

/-- The model after one call after another. -/
def session : FunctionModel R → List (Call R) → Option (FunctionModel R)
  | m, [] => some m
  | m, c :: calls => (m.call c).bind fun (_, m') ↦ m'.session calls

end FunctionModel

/-- A call that tells neither a solution nor a start. -/
inductive Call.Unaided : Call R → Prop
  /-- Other variables may move. -/
  | setActive (indices : List Number) : (Call.setActive indices).Unaided
  /-- The solve starts at the committed solution. -/
  | solve (settings : Settings R) : (Call.solve settings none).Unaided

namespace FunctionModel

/-- The model of a residual function that offers a committed vector as a start. -/
structure Holds (m : FunctionModel R) (residual : Residual R) (x : List R) : Prop where
  /-- The residual function. -/
  residual : m.problem.residual = residual
  /-- The solution is offered. -/
  offersStart : m.offersStart = true
  /-- The solution is a vector. -/
  solution : m.solution = some (.ofList x)

variable {m m' : FunctionModel R} {residual : Residual R} {x : List R}

omit [Scalar R] in
theorem holds_of_make {conditions dimension : Int} {diffStep : Amount R}
    {workers : Except Fault Workers} {pattern : Option (Tensor Bool)}
    (h : make conditions dimension residual diffStep workers pattern (some (.ofList x)) = .ok m) :
    m.Holds residual x := by
  obtain ⟨problem, hmade, rfl⟩ := exists_of_make h
  obtain ⟨pattern_shape, rfl⟩ := Problem.exists_of_make hmade
  exact ⟨rfl, rfl, rfl⟩

theorem Holds.solve_eq (h : m.Holds residual x) (settings : Settings R) :
    m.solve settings none
      = (m.problem.solve settings (some x)).map fun o ↦ (o, m.afterSolve o) := by
  rw [solve, initialGuess, h.offersStart, h.solution]
  rfl

omit [Scalar R] in
theorem Holds.setActive (h : m.Holds residual x) {indices : List Number}
    (hset : m.setActive? indices = .ok (some m')) : m'.Holds residual x := by
  obtain ⟨problem, hproblem, rfl⟩ := exists_of_setActive? hset
  obtain ⟨active, active_nodup, active_lt, rfl⟩ := Problem.exists_of_setActive? hproblem
  exact ⟨h.residual, h.offersStart, h.solution⟩

variable [LawfulOrder R] {p : Problem R} {settings : Settings R} {o : Outcome R}

/-- After a solve there is the same vector or a better one, and the same one if the solve failed. -/
theorem Holds.solve (hp : p.IsPure) (h : m.Holds p.residual x)
    (hsolve : m.solve settings none = some (o, m')) :
    (∃ y, m'.Holds p.residual y ∧ p.NoWorse x y) ∧
      (∀ e, o.trace.errors.head? = some e → p.errorAt? x = some e) ∧
      (o.status ≠ .converged → m' = m) := by
  have hpure : m.problem.IsPure := fun n y ↦ by
    rw [h.residual]
    exact hp n y
  obtain ⟨o', hproblem, heq⟩ := Option.map_eq_some_iff.mp ((h.solve_eq settings).symm.trans hsolve)
  obtain ⟨rfl, -⟩ := Prod.mk.inj heq
  refine ⟨?_, ?_, afterSolve_of_not_converged hsolve⟩
  · by_cases hstatus : o'.status = .converged
    · obtain ⟨y, hy, rfl⟩ := afterSolve_of_converged hsolve hstatus
      have hnoWorse := Problem.noWorse_of_solve hpure hproblem hstatus hy
      exact ⟨y, ⟨h.residual, h.offersStart, rfl⟩, hnoWorse.congr h.residual⟩
    · rw [afterSolve_of_not_converged hsolve hstatus]
      exact ⟨x, h, .refl p x⟩
  · intro e he
    rw [← Problem.errorAt?_congr h.residual]
    exact Problem.errorAt?_of_head? hproblem he

/-- **A call keeps the vector or finds a better one.** -/
theorem Holds.call (hp : p.IsPure) (h : m.Holds p.residual x) {c : Call R} (hc : c.Unaided)
    {o? : Option (Outcome R)} (hcall : m.call c = some (o?, m')) :
    (∃ y, m'.Holds p.residual y ∧ p.NoWorse x y) ∧ ∀ o ∈ o?,
      (∀ e, o.trace.errors.head? = some e → p.errorAt? x = some e) ∧
      (o.status ≠ .converged → m' = m) := by
  cases hc with
  | setActive indices =>
    obtain ⟨rfl, rfl⟩ := Prod.mk.inj (Option.some.inj hcall)
    refine ⟨⟨x, ?_, .refl p x⟩, nofun⟩
    split
    next m' hset => exact h.setActive hset
    · exact h
  | solve settings =>
    obtain ⟨⟨o, m'⟩, hsolve, heq⟩ := Option.map_eq_some_iff.mp hcall
    obtain ⟨rfl, rfl⟩ := Prod.mk.inj heq
    obtain ⟨hholds, houtcome⟩ := h.solve hp hsolve
    exact ⟨hholds, fun o' ho' ↦ Option.mem_some_iff.mp ho' ▸ houtcome⟩

/-- **A session keeps the vector or finds a better one.** -/
theorem Holds.session (hp : p.IsPure) (h : m.Holds p.residual x) {calls : List (Call R)}
    (hcalls : ∀ c ∈ calls, c.Unaided) (hsession : m.session calls = some m') :
    ∃ y, m'.Holds p.residual y ∧ p.NoWorse x y := by
  induction calls generalizing m x with
  | nil =>
    obtain rfl := Option.some.inj hsession
    exact ⟨x, h, .refl p x⟩
  | cons c calls ih =>
    rw [List.forall_mem_cons] at hcalls
    obtain ⟨⟨o?, m₁⟩, hcall, hrest⟩ := Option.bind_eq_some_iff.mp hsession
    obtain ⟨⟨y, hy, hxy⟩, -⟩ := h.call hp hcalls.1 hcall
    obtain ⟨z, hz, hyz⟩ := ih hy hcalls.2 hrest
    exact ⟨z, hz, hxy.trans hyz⟩

/-- **The committed solution never gets worse.** A model of a pure residual function is made with a
vector. After any session of calls that tell it neither a solution nor a start, it holds a vector.
Whatever is called next keeps this vector or commits one with a smaller error; so does a whole
session. The first error of a solve is that of the vector held so far, and a solve that fails
leaves everything in place. Every solve under a limit that counts can reach comes back. -/
theorem noWorse_of_session {conditions dimension : Int} {residual : Residual R}
    {diffStep : Amount R} {workers : Except Fault Workers} {pattern : Option (Tensor Bool)}
    {start : List R} {made : FunctionModel R}
    (hmade : make conditions dimension residual diffStep workers pattern (some (.ofList start))
      = .ok made) (hpure : ∀ n y, residual n y = residual 0 y) {before : List (Call R)}
    (hbefore : ∀ c ∈ before, c.Unaided) (hsession : made.session before = some m) :
    ∃ x, m.solution = some (.ofList x) ∧
      (∀ c o? m', c.Unaided → m.call c = some (o?, m') →
        (∃ y, m'.solution = some (.ofList y) ∧ made.problem.NoWorse x y) ∧
        ∀ o ∈ o?, (∀ e, o.trace.errors.head? = some e → made.problem.errorAt? x = some e) ∧
          (o.status ≠ .converged → m' = m)) ∧
      (∀ after m', (∀ c ∈ after, c.Unaided) → m.session after = some m' →
        ∃ y, m'.solution = some (.ofList y) ∧ made.problem.NoWorse x y) ∧
      ∀ settings bound, settings.limit = .atMost bound →
        ∃ o m', m.call (.solve settings none) = some (some o, m') := by
  have hholds := holds_of_make hmade
  have hresidual := hholds.residual
  have hp : made.problem.IsPure := fun n y ↦ by
    rw [hresidual]
    exact hpure n y
  rw [← hresidual] at hholds
  obtain ⟨x, hx, -⟩ := hholds.session hp hbefore hsession
  refine ⟨x, hx.solution, ?_, ?_, ?_⟩
  · intro c o? m' hc hcall
    obtain ⟨⟨y, hy, hxy⟩, houtcome⟩ := hx.call hp hc hcall
    exact ⟨⟨y, hy.solution, hxy⟩, houtcome⟩
  · intro after m' hafter hsession'
    obtain ⟨y, hy, hxy⟩ := hx.session hp hafter hsession'
    exact ⟨y, hy.solution, hxy⟩
  · intro settings bound hlimit
    obtain ⟨o, ho⟩ := Problem.exists_solve hlimit m.problem (some x)
    refine ⟨o, m.afterSolve o, ?_⟩
    rw [FunctionModel.call, hx.solve_eq, ho]
    rfl

open PartialRat in
/-- Before an undefined wall a first solve replaces the start by a better vector. Whatever is called
next keeps that vector or commits one with a smaller error. -/
theorem noWorse_of_session_wall :
    ∃ made m, make 1 1 (wall (.ok [⟨none⟩])).residual (.scalar (ofRat (1 / 4)))
        (Number.truth true).workers none (some (.ofList [0])) = .ok made ∧
      made.session [.solve cautiousSettings none] = some m ∧
      m.solution = some (.ofList [ofRat (3 / 2)]) ∧
      made.problem.errorAt? [0] = some (ofRat 3) ∧
      made.problem.errorAt? [ofRat (3 / 2)] = some (ofRat (3 / 2)) ∧
      ∀ c o? m', c.Unaided → m.call c = some (o?, m') →
        ∃ y, m'.solution = some (.ofList y) ∧ made.problem.NoWorse [ofRat (3 / 2)] y := by
  obtain ⟨made, hmade, hstart, hend, o, ho, htest⟩ :
      ∃ made, make 1 1 (wall (.ok [⟨none⟩])).residual (.scalar (ofRat (1 / 4)))
          (Number.truth true).workers none (some (.ofList [0])) = .ok made ∧
        made.problem.errorAt? [0] = some (ofRat 3) ∧
        made.problem.errorAt? [ofRat (3 / 2)] = some (ofRat (3 / 2)) ∧
        ∃ o, made.problem.solve cautiousSettings (some [0]) = some o ∧
          decide (o.status = .converged ∧ o.point = some [ofRat (3 / 2)]) = true :=
    ⟨_, rfl, by decide +kernel, by decide +kernel,
      Problem.exists_solve_of_test _ cautiousSettings [0] [ofRat (-3)] 6
        (fun o ↦ decide (o.status = .converged ∧ o.point = some [ofRat (3 / 2)]))
        (by decide) (by decide +kernel) (by decide +kernel)⟩
  obtain ⟨hstatus, hpoint⟩ := of_decide_eq_true htest
  have hsolve : made.solve cautiousSettings none = some (o, made.afterSolve o) := by
    rw [(holds_of_make hmade).solve_eq, ho]
    rfl
  obtain ⟨x, hx, hafter⟩ := afterSolve_of_converged hsolve hstatus
  obtain rfl := Option.some.inj (hx.symm.trans hpoint)
  have hsession : made.session [.solve cautiousSettings none] = some (made.afterSolve o) := by
    rw [session, call, hsolve]
    rfl
  have hsolution : (made.afterSolve o).solution = some (.ofList [ofRat (3 / 2)]) := by rw [hafter]
  have hbefore : ∀ c ∈ [Call.solve cautiousSettings none], c.Unaided := by
    intro c hc
    rw [List.mem_singleton.mp hc]
    exact .solve cautiousSettings
  obtain ⟨x, hx, hcall, -⟩ := noWorse_of_session hmade (fun _ _ ↦ rfl) hbefore hsession
  obtain rfl : x = [ofRat (3 / 2)] :=
    congrArg Tensor.entries (Option.some.inj (hx.symm.trans hsolution))
  exact ⟨made, made.afterSolve o, hmade, hsession, hsolution, hstart, hend,
    fun c o? m' hc hm' ↦ (hcall c o? m' hc hm').1⟩

end FunctionModel

end DampedLeastSquares
