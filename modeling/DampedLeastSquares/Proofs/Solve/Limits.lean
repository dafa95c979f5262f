import DampedLeastSquares.Proofs.Solve.Coherence

/-!
# Limits of a solve

Two solves of a problem may differ in nothing but when they stop: in the limit, and in the ratio
below which progress is too small. The one that is less patient then does what the other one does,
up to the trial after which it stops. Neither the limit nor the ratio has a bearing on anything
else, though the limit is asked for in two places, and progress in two.

The two are compared one step at a time. Steps from one state lead to one and the same state, unless
the trial is final for one of them only. From there on there is nothing to compare: the less patient
solve is over, and the course of the other one can only grow.
-/

namespace DampedLeastSquares

variable {R : Type}

/-! ## The beginning of a course -/

/-- A course is the beginning of another one. -/
structure Trace.IsPrefix (t t' : Trace R) : Prop where
  /-- The errors of the one are the first errors of the other. -/
  errors : t.errors <+: t'.errors
  /-- The improvements of the one are the first improvements of the other. -/
  improvements : t.improvements <+: t'.improvements
  /-- The trials of the one are the first trials of the other. -/
  trials : t.trials <+: t'.trials
  /-- The one has no more updates than the other. -/
  updates : t.updates ≤ t'.updates

theorem Trace.IsPrefix.refl (t : Trace R) : t.IsPrefix t :=
  ⟨List.prefix_refl _, List.prefix_refl _, List.prefix_refl _, le_rfl⟩

theorem Trace.IsPrefix.trans {t t' t'' : Trace R} (h : t.IsPrefix t') (h' : t'.IsPrefix t'') :
    t.IsPrefix t'' :=
  ⟨h.errors.trans h'.errors, h.improvements.trans h'.improvements, h.trials.trans h'.trials,
    h.updates.trans h'.updates⟩

theorem Trace.isPrefix_record (t : Trace R) (d : Decision R) (error reduction : R) :
    t.IsPrefix (t.record d error reduction) := by
  rw [record]
  cases d.accepted with
  | false => exact ⟨List.prefix_refl _, List.prefix_refl _, List.prefix_append _ _, le_rfl⟩
  | true =>
    exact ⟨List.prefix_append _ _, List.prefix_append _ _, List.prefix_append _ _, Nat.le_succ _⟩

variable [Scalar R] {p : Problem R} {settings settings' : Settings R}

/-- The last error of a coherent course is not greater than that of a beginning of it. -/
theorem Trace.IsPrefix.last_error [LawfulOrder R] {t t' : Trace R} (h : t.IsPrefix t')
    (ht : t.Coherent) (ht' : t'.Coherent) {e e' : R} (he : t.errors.getLast? = some e)
    (he' : t'.errors.getLast? = some e') : e' = e ∨ e' < e := by
  rw [ht.getLast?_errors] at he
  rw [ht'.getLast?_errors] at he'
  obtain ⟨hlength, hentry⟩ := List.getElem?_eq_some_iff.mp he
  have hbefore : t'.errors[t.updates]? = some e := by
    rw [List.prefix_iff_getElem?.mp h.errors _ hlength, hentry]
  rcases Nat.lt_or_eq_of_le h.updates with hlt | heq
  · exact Or.inr (ht'.lt_of_lt hlt hbefore he')
  · rw [← heq] at he'
    exact Or.inl (Option.some.inj (he'.symm.trans hbefore))

theorem State.isPrefix_step (s : State R) :
    s.trace.IsPrefix (s.step p settings).state.trace := by
  have hmove := move_step p settings s
  generalize s.step p settings = a at hmove ⊢
  cases hmove with
  | linearised | stuck | failed => exact .refl s.trace
  | tried =>
    rw [state_conclude]
    exact s.trace.isPrefix_record _ _ _

theorem State.isPrefix_of_run {s s' : State R} {e : Ending} (h : s.run p settings = some (e, s')) :
    s.trace.IsPrefix s'.trace :=
  Progress.invariant_of_finish (a := .running s) (fun s' ↦ s.trace.IsPrefix s'.trace)
    (fun s' hs' ↦ hs'.trans s'.isPrefix_step) (.refl s.trace) h

/-! ## Settings -/

/-- The second settings differ from the first ones in patience only, and stop nothing that the first
ones let go on. -/
structure Settings.LessPatient (settings settings' : Settings R) : Prop where
  /-- The first dampings are the same. -/
  initialDamping : settings.initialDamping = settings'.initialDamping
  /-- The factors of the damping are the same. -/
  eta : settings.eta = settings'.eta
  /-- The same is reported. -/
  verbose : settings.verbose = settings'.verbose
  /-- Where the second limit is reached, the first one is. -/
  limit : ∀ count, settings'.limit.reached count = true → settings.limit.reached count = true
  /-- What is too small for the second settings is so for the first ones. -/
  epsilon : ∀ ratio, ratio < settings'.epsilon → ratio < settings.epsilon

namespace Settings

/-- The settings with another limit and another ratio. -/
def stopping (settings : Settings R) (bound : Nat) (epsilon : R) : Settings R :=
  { settings with limit := .atMost bound, epsilon }

theorem lessPatient_stopping (hlt : ∀ a b c : R, a < b → b ≤ c → a < c) (settings : Settings R)
    {bound bound' : Nat} {epsilon epsilon' : R} (hbound : bound ≤ bound')
    (hepsilon : epsilon' ≤ epsilon) :
    (settings.stopping bound epsilon).LessPatient (settings.stopping bound' epsilon') where
  initialDamping := rfl
  eta := rfl
  verbose := rfl
  limit _ hreached := decide_eq_true (hbound.trans (of_decide_eq_true hreached))
  epsilon _ hratio := hlt _ _ _ hratio hepsilon

namespace LessPatient

variable (h : settings.LessPatient settings')

include h

theorem ratioBelow {ratio : Option R} (hbelow : ratioBelow settings'.epsilon ratio = true) :
    DampedLeastSquares.ratioBelow settings.epsilon ratio = true := by
  cases ratio with
  | none => exact hbelow
  | some a => exact decide_eq_true (h.epsilon a (of_decide_eq_true hbelow))

theorem isFinal {d : Decision R} {updates tried : Nat} {improvements : List R}
    {ratio : Option R} (hfinal : isFinal settings' d updates tried improvements ratio = true) :
    DampedLeastSquares.isFinal settings d updates tried improvements ratio = true := by
  simp only [DampedLeastSquares.isFinal, Bool.or_eq_true, Bool.and_eq_true,
    decide_eq_true_eq] at hfinal ⊢
  rcases hfinal with ((hlimit | ⟨htwo, hgain⟩) | ⟨htwo, hstep⟩) | ⟨hrejected, hstuck⟩
  · exact Or.inl (Or.inl (Or.inl (h.limit _ hlimit)))
  · exact Or.inl (Or.inl (Or.inr ⟨htwo, h.epsilon _ hgain⟩))
  · exact Or.inl (Or.inr ⟨htwo, h.ratioBelow hstep⟩)
  · exact Or.inr ⟨hrejected, hstuck.imp_right (h.limit _)⟩

theorem begin_eq (start : Visited R) :
    State.begin settings start = State.begin settings' start := by
  simp only [State.begin, State.initial, h.initialDamping, h.verbose]

end LessPatient

end Settings

/-! ## Steps side by side -/

/-- What steps from one state have led to: the same, or for the first settings an end where the
second ones go on. -/
inductive Progress.Outlasts : Progress R → Progress R → Prop
  /-- Nothing tells them apart. -/
  | same (a : Progress R) : Progress.Outlasts a a
  /-- A trial was final for the first settings only. -/
  | stopped {s s' : State R} (trace : s.trace = s'.trace) :
    Progress.Outlasts (.ended .finished s) (.running s')

namespace Settings.LessPatient

variable (h : settings.LessPatient settings')

include h

theorem after_eq {s : State R} {d : Decision R} {tried : Nat} {step : List R}
    {reached : Visited R} (hfinal : s.finalAfter settings d tried step reached
      = s.finalAfter settings' d tried step reached) (equations : NormalEquations R) :
    s.after settings equations d tried step reached
      = s.after settings' equations d tried step reached := by
  simp only [State.after, State.recordsAfter, hfinal, h.verbose]

theorem outlasts_conclude (s : State R) (equations : NormalEquations R) (d : Decision R)
    (tried : Nat) (step : List R) (reached : Visited R) :
    (s.conclude settings equations d tried step reached).Outlasts
      (s.conclude settings' equations d tried step reached) := by
  rw [State.conclude, State.conclude]
  cases hfinal' : s.finalAfter settings' d tried step reached with
  | true =>
    have hfinal : s.finalAfter settings d tried step reached = true := h.isFinal hfinal'
    rw [hfinal, h.after_eq (hfinal.trans hfinal'.symm)]
    exact .same _
  | false =>
    cases hfinal : s.finalAfter settings d tried step reached with
    | true => exact .stopped rfl
    | false =>
      rw [h.after_eq (hfinal.trans hfinal'.symm)]
      exact .same _

theorem outlasts_judge (s : State R) (equations : NormalEquations R) (damping : Amount R)
    (tried : Nat) (step : List R) (reached : Visited R) :
    (s.judge settings equations damping tried step reached).Outlasts
      (s.judge settings' equations damping tried step reached) := by
  rw [State.judge, State.judge, h.eta]
  split
  · exact .same _
  · exact h.outlasts_conclude s equations _ tried step reached

theorem outlasts_attempt (p : Problem R) (s : State R) (equations : NormalEquations R)
    (damping : Amount R) (tried : Nat) :
    (s.attempt p settings equations damping tried).Outlasts
      (s.attempt p settings' equations damping tried) := by
  rw [State.attempt, State.attempt]
  -- Up to the decision on the step the settings are not asked for.
  cases damping.read with
  | error fault => exact .same _
  | ok a =>
    dsimp only
    split
    next step _ _ =>
      cases p.applyUpdate s.best.point step with
      | error fault => exact .same _
      | ok point =>
        dsimp only
        cases p.residual (callCount s.interactions) point with
        | error fault => exact .same _
        | ok residuals => exact h.outlasts_judge _ equations damping tried step _
    · exact .same _

/-- **Steps from one state are the same, or one of them was final.** -/
theorem outlasts_step (p : Problem R) (s : State R) :
    (s.step p settings).Outlasts (s.step p settings') := by
  rw [State.step, State.step]
  cases s.phase with
  | linearise damping => exact .same _
  | attempt equations damping tried => exact h.outlasts_attempt p s equations damping tried

/-- **A run is the same with more patience, or it finished, and with more patience it goes on.** -/
theorem run_eq_or_goes_on {s : State R} {r : Ending × State R} (hrun : s.run p settings = some r) :
    s.run p settings' = some r ∨ r.1 = .finished ∧ ∃ s' : State R, r.2.trace = s'.trace ∧
      s.run p settings' = s'.run p settings' := by
  refine State.run.partial_correctness p settings (fun s r ↦ s.run p settings' = some r ∨
    r.1 = .finished ∧ ∃ s' : State R, r.2.trace = s'.trace ∧
      s.run p settings' = s'.run p settings') ?_ s r hrun
  intro run ih s r hr
  have houtlasts := h.outlasts_step p s
  rw [State.run_eq_finish]
  generalize s.step p settings = a at hr houtlasts
  generalize s.step p settings' = a' at houtlasts ⊢
  cases houtlasts with
  | stopped htrace =>
    obtain rfl := Option.some.inj hr
    exact Or.inr ⟨rfl, _, htrace, rfl⟩
  | same =>
    cases a with
    | ended e s' => exact Or.inl hr
    | running s' => exact ih s' r hr

end Settings.LessPatient

/-! ## Solves side by side -/

namespace Problem

theorem Ends.eq_or_isPrefix (h : settings.LessPatient settings') {start : List R} {e e' : Ending}
    {s s' : State R} (hends : p.Ends settings start e s) (hends' : p.Ends settings' start e' s') :
    e' = e ∧ s' = s ∨ e = .finished ∧ s.trace.IsPrefix s'.trace := by
  obtain ⟨residuals, hresiduals, hfinish⟩ := hends
  obtain ⟨residuals', hresiduals', hfinish'⟩ := hends'
  obtain rfl := Except.ok.inj (hresiduals.symm.trans hresiduals')
  rw [← h.begin_eq] at hfinish'
  cases hbegin : State.begin settings (.ofResiduals start residuals) with
  | ended e₀ s₀ =>
    rw [hbegin] at hfinish hfinish'
    exact Or.inl (Prod.mk.inj (Option.some.inj (hfinish'.symm.trans hfinish)))
  | running s₀ =>
    rw [hbegin] at hfinish hfinish'
    rcases h.run_eq_or_goes_on hfinish with hsame | ⟨hfinished, s₁, htrace, hgoes⟩
    · exact Or.inl (Prod.mk.inj (Option.some.inj (hfinish'.symm.trans hsame)))
    · have hpart := State.isPrefix_of_run (hgoes.symm.trans hfinish')
      exact Or.inr ⟨hfinished, htrace ▸ hpart⟩

/-- A solve is the same with more patience, or it finished, and with more patience its course goes
on. -/
theorem solve_eq_or_isPrefix (h : settings.LessPatient settings') {start : Option (List R)}
    {o o' : Outcome R} (ho : p.solve settings start = some o)
    (ho' : p.solve settings' start = some o') :
    o' = o ∨ (o.status = .converged ∨ o.status = .solutionRejected) ∧
      o.trace.IsPrefix o'.trace := by
  cases solved_of_solve ho with
  | noStart => exact Or.inl (Option.some.inj ho'.symm)
  | nothingActive hactive =>
    cases solved_of_solve ho' with
    | nothingActive => exact Or.inl rfl
    | unevaluated hsome | iterated hsome => exact absurd hactive hsome
  | unevaluated hsome hevaluated =>
    cases solved_of_solve ho' with
    | nothingActive hactive => exact absurd hactive hsome
    | unevaluated _ hevaluated' =>
      obtain rfl := Except.error.inj (hevaluated.symm.trans hevaluated')
      exact Or.inl rfl
    | iterated _ hends' =>
      obtain ⟨residuals, hresiduals, -⟩ := hends'
      cases hevaluated.symm.trans hresiduals
  | @iterated start e s hsome hends =>
    cases solved_of_solve ho' with
    | nothingActive hactive => exact absurd hactive hsome
    | unevaluated _ hevaluated' =>
      obtain ⟨residuals, hresiduals, -⟩ := hends
      cases hevaluated'.symm.trans hresiduals
    | iterated _ hends' =>
      rcases hends.eq_or_isPrefix h hends' with ⟨rfl, rfl⟩ | ⟨rfl, hpart⟩
      · exact Or.inl rfl
      · rw [trace_outcome, trace_outcome]
        exact Or.inr ⟨(p.status_outcome start .finished s).2 rfl, hpart⟩

/-- **More patience never hurts.** With a limit that is not smaller and a ratio that is not greater,
a solve tries all that it would have tried, accepts what it would have accepted, and may go on from
there. Its last error is the same or smaller. A solve that fails ends in the same way with more
patience. -/
theorem isPrefix_of_solve_of_le [LawfulOrder R] (hlt : ∀ a b c : R, a < b → b ≤ c → a < c)
    (p : Problem R) (settings : Settings R) (start : Option (List R)) {bound bound' : Nat}
    {epsilon epsilon' : R} (hbound : bound ≤ bound') (hepsilon : epsilon' ≤ epsilon) :
    ∃ o o', p.solve (settings.stopping bound epsilon) start = some o ∧
      p.solve (settings.stopping bound' epsilon') start = some o' ∧
      o.trace.trials <+: o'.trace.trials ∧ o.trace.errors <+: o'.trace.errors ∧
      o.trace.improvements <+: o'.trace.improvements ∧
      (∀ e e', o.trace.errors.getLast? = some e → o'.trace.errors.getLast? = some e' →
        e' = e ∨ e' < e) ∧
      (o.status = .illPosed ∨ o.status = .evaluationError → o' = o) := by
  have hless := settings.lessPatient_stopping hlt hbound hepsilon
  obtain ⟨o, ho⟩ : ∃ o, p.solve (settings.stopping bound epsilon) start = some o :=
    exists_solve rfl p start
  obtain ⟨o', ho'⟩ : ∃ o', p.solve (settings.stopping bound' epsilon') start = some o' :=
    exists_solve rfl p start
  refine ⟨o, o', ho, ho', ?_⟩
  rcases solve_eq_or_isPrefix hless ho ho' with rfl | ⟨hfinished, hpart⟩
  · refine ⟨List.prefix_refl _, List.prefix_refl _, List.prefix_refl _, fun e e' he he' ↦ ?_,
      fun _ ↦ rfl⟩
    exact Or.inl (Option.some.inj (he'.symm.trans he))
  · refine ⟨hpart.trials, hpart.errors, hpart.improvements, fun e e' he he' ↦ ?_, ?_⟩
    · have hcoherent {settings : Settings R} {o : Outcome R} {e : R}
          (ho : p.solve settings start = some o) (he : o.trace.errors.getLast? = some e) :
          o.trace.Coherent :=
        coherent_of_solve (fun _ _ ↦ LawfulOrder.sub_pos_iff.mp) ho fun hnil ↦ by simp [hnil] at he
      exact hpart.last_error (hcoherent ho he) (hcoherent ho' he') he he'
    · rintro (hstatus | hstatus) <;> rw [hstatus] at hfinished <;> simp at hfinished

open PartialRat in
/-- Before an undefined wall a damped first step is accepted, and with more patience two more steps
are tried after it. -/
theorem isPrefix_of_solve_wall :
    ∃ o o', (wall (.ok [⟨none⟩])).solve (cautiousSettings.stopping 1 (ofRat (1 / 2))) (some [0])
        = some o ∧
      (wall (.ok [⟨none⟩])).solve (cautiousSettings.stopping 2 0) (some [0]) = some o' ∧
      o.trace.errors = [ofRat 3, ofRat (3 / 2)] ∧
      o.trace.trials.map Trial.accepted = [true] ∧
      o'.trace.trials.map Trial.accepted = [true, false, false] ∧
      o.trace.trials <+: o'.trace.trials ∧ o.trace.errors <+: o'.trace.errors := by
  have hlt : ∀ a b c : PartialRat, a < b → b ≤ c → a < c := by
    intro a b c hab hbc
    obtain ⟨x, y, hx, hy, hxy⟩ := PartialRat.lt_iff.mp hab
    obtain ⟨y', z, hy', hz, hyz⟩ := PartialRat.le_iff.mp hbc
    obtain rfl := Option.some.inj (hy.symm.trans hy')
    exact PartialRat.lt_iff.mpr ⟨x, z, hx, hz, hxy.trans_le hyz⟩
  have hbound : 1 ≤ 2 := by decide
  have hepsilon : (0 : PartialRat) ≤ ofRat (1 / 2) := by decide +kernel
  obtain ⟨o, o', ho, ho', htrials, herrors, -⟩ := isPrefix_of_solve_of_le hlt (wall (.ok [⟨none⟩]))
    cautiousSettings (some [0]) hbound hepsilon
  obtain ⟨u, hu, htest⟩ := exists_solve_of_test (wall (.ok [⟨none⟩]))
    (cautiousSettings.stopping 1 (ofRat (1 / 2))) [0] [ofRat (-3)] 3
    (fun o ↦ decide (o.trace.errors = [ofRat 3, ofRat (3 / 2)] ∧
      o.trace.trials.map Trial.accepted = [true]))
    (by decide) (by decide +kernel) (by decide +kernel)
  obtain ⟨u', hu', htest'⟩ := exists_solve_of_test (wall (.ok [⟨none⟩]))
    (cautiousSettings.stopping 2 0) [0] [ofRat (-3)] 6
    (fun o ↦ decide (o.trace.trials.map Trial.accepted = [true, false, false]))
    (by decide) (by decide +kernel) (by decide +kernel)
  obtain rfl := Option.some.inj (ho.symm.trans hu)
  obtain rfl := Option.some.inj (ho'.symm.trans hu')
  obtain ⟨hcourse, haccepted⟩ := of_decide_eq_true htest
  exact ⟨o, o', ho, ho', hcourse, haccepted, of_decide_eq_true htest', htrials, herrors⟩

end Problem

end DampedLeastSquares
