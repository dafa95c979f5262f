import DampedLeastSquares.Proofs.Scalar.Order
import DampedLeastSquares.Proofs.Solve.Run

/-!
# Coherence of the course

The course of a solve tells the same story four times: as errors, as improvements, as trials and as
a number of updates. A course is coherent if the four agree. They are written together, in
`Trace.record`, and the error that an improvement is counted from is kept apart from the course,
with the best point. That it is the last error of the course is therefore part of what a step has to
keep.
-/

namespace DampedLeastSquares

variable {R : Type} [Scalar R]

namespace Trace

/-- What the parts of a course say about each other. -/
structure Coherent (t : Trace R) : Prop where
  /-- There is an error for the start and one for each update. -/
  length_errors : t.errors.length = t.updates + 1
  /-- There is an improvement for each update. -/
  length_improvements : t.improvements.length = t.updates
  /-- The updates are the accepted trials. -/
  countP_accepted : t.trials.countP Trial.accepted = t.updates
  /-- Each improvement is the difference of the errors on its two sides, of which the second is the
  smaller. -/
  gain : ∀ k, k < t.updates → ∃ a b, t.errors[k]? = some a ∧ t.errors[k + 1]? = some b ∧
    t.improvements[k]? = some (a - b) ∧ 0 < a - b ∧ b < a
  /-- The errors behind the first are those of the accepted trials. -/
  accepted_errors : (t.trials.filter Trial.accepted).map Trial.error = t.errors.tail
  /-- Each trial knows the number of trials that were accepted before it. -/
  update_eq : ∀ k trial, t.trials[k]? = some trial →
    trial.update = (t.trials.take k).countP Trial.accepted

theorem coherent_start (e : R) : ({ errors := [e] } : Trace R).Coherent where
  length_errors := rfl
  length_improvements := rfl
  countP_accepted := rfl
  gain k hk := absurd hk (Nat.not_lt_zero k)
  accepted_errors := rfl
  update_eq k trial h := by simp at h

theorem Coherent.errors_ne_nil {t : Trace R} (h : t.Coherent) : t.errors ≠ [] :=
  List.ne_nil_of_length_pos (by rw [h.length_errors]; omega)

theorem Coherent.improvement_pos {t : Trace R} (h : t.Coherent) {a : R}
    (ha : a ∈ t.improvements) : 0 < a := by
  obtain ⟨k, hk, rfl⟩ := List.getElem_of_mem ha
  obtain ⟨b, c, -, -, himprovement, hpos, -⟩ := h.gain k (h.length_improvements ▸ hk)
  rw [List.getElem?_eq_getElem hk, Option.some.injEq] at himprovement
  rwa [himprovement]

theorem Coherent.getLast?_errors {t : Trace R} (h : t.Coherent) :
    t.errors.getLast? = t.errors[t.updates]? := by
  rw [List.getLast?_eq_getElem?, h.length_errors, Nat.add_sub_cancel]

theorem Coherent.lt_of_lt [LawfulOrder R] {t : Trace R} (h : t.Coherent) {i j : Nat} (hij : i < j)
    {a b : R} (ha : t.errors[i]? = some a) (hb : t.errors[j]? = some b) : b < a := by
  induction j generalizing b with
  | zero => exact absurd hij (Nat.not_lt_zero i)
  | succ j ih =>
    have hj : j < t.updates := by
      have hlength := (List.getElem?_eq_some_iff.mp hb).1
      rw [h.length_errors] at hlength
      omega
    obtain ⟨c, d, hc, hd, -, -, hdc⟩ := h.gain j hj
    obtain rfl := Option.some.inj (hd.symm.trans hb)
    rcases Nat.lt_succ_iff_lt_or_eq.mp hij with hij | rfl
    · exact LawfulOrder.lt_trans hdc (ih hij hc)
    · rwa [← Option.some.inj (hc.symm.trans ha)]

theorem Coherent.last_lt_head [LawfulOrder R] {t : Trace R} (h : t.Coherent)
    (hupdates : t.updates ≠ 0) {a b : R} (ha : t.errors.head? = some a)
    (hb : t.errors.getLast? = some b) : b < a := by
  rw [List.head?_eq_getElem?] at ha
  rw [h.getLast?_errors] at hb
  exact h.lt_of_lt (Nat.pos_of_ne_zero hupdates) ha hb

/-- The last error is the first exactly if there were no updates. -/
theorem Coherent.getLast?_eq_head?_iff [LawfulOrder R] {t : Trace R} (h : t.Coherent) :
    t.errors.getLast? = t.errors.head? ↔ t.updates = 0 := by
  constructor
  · intro heq
    by_contra hupdates
    have hlast := List.getLast?_eq_some_getLast h.errors_ne_nil
    exact LawfulOrder.lt_irrefl _ (h.last_lt_head hupdates (heq ▸ hlast) hlast)
  · intro hzero
    rw [h.getLast?_errors, hzero, List.head?_eq_getElem?]

/-! ## One more trial -/

omit [Scalar R] in
private theorem update_eq_append {trials : List (Trial R)} {new : Trial R}
    (h : ∀ k trial, trials[k]? = some trial →
      trial.update = (trials.take k).countP Trial.accepted)
    (hnew : new.update = trials.countP Trial.accepted) (k : Nat) (trial : Trial R)
    (hk : (trials ++ [new])[k]? = some trial) :
    trial.update = ((trials ++ [new]).take k).countP Trial.accepted := by
  rcases Nat.lt_trichotomy k trials.length with hlt | rfl | hgt
  · rw [List.getElem?_append_left hlt] at hk
    rw [List.take_append_of_le_length hlt.le]
    exact h k trial hk
  · rw [List.getElem?_concat_length, Option.some.injEq] at hk
    rw [List.take_left, ← hk, hnew]
  · rw [List.getElem?_eq_none (by rw [List.length_append]; exact hgt)] at hk
    exact nomatch hk

variable {t : Trace R} {d : Decision R} {e e' : R}

theorem Coherent.record_rejected (h : t.Coherent) (hd : d.accepted = false) :
    (t.record d e' (e - e')).Coherent := by
  have hnew : (⟨t.updates, d.damping, e', d.accepted, d.dampingAfter⟩ : Trial R).update
      = t.trials.countP Trial.accepted := h.countP_accepted.symm
  refine ⟨?_, ?_, ?_, ?_, ?_, update_eq_append h.update_eq hnew⟩
  · simpa [record, hd] using h.length_errors
  · simpa [record, hd] using h.length_improvements
  · simp [record, hd, List.countP_append, h.countP_accepted]
  · simpa [record, hd] using h.gain
  · simpa [record, hd, List.filter_append] using h.accepted_errors

private theorem Coherent.gain_append (h : t.Coherent) (hlast : t.errors[t.updates]? = some e)
    (hpos : 0 < e - e') (hlt : e' < e) (k : Nat) (hk : k < t.updates + 1) :
    ∃ a b, (t.errors ++ [e'])[k]? = some a ∧ (t.errors ++ [e'])[k + 1]? = some b ∧
      (t.improvements ++ [e - e'])[k]? = some (a - b) ∧ 0 < a - b ∧ b < a := by
  have hkerrors : k < t.errors.length := by rwa [h.length_errors]
  rcases Nat.lt_succ_iff_lt_or_eq.mp hk with hk | rfl
  · obtain ⟨a, b, ha, hb, himprovement, hgain⟩ := h.gain k hk
    refine ⟨a, b, ?_, ?_, ?_, hgain⟩
    · rwa [List.getElem?_append_left hkerrors]
    · rwa [List.getElem?_append_left (by rw [h.length_errors]; omega)]
    · rwa [List.getElem?_append_left (by rwa [h.length_improvements])]
  · refine ⟨e, e', ?_, ?_, ?_, hpos, hlt⟩
    · rwa [List.getElem?_append_left hkerrors]
    · rw [← h.length_errors, List.getElem?_concat_length]
    · rw [← h.length_improvements, List.getElem?_concat_length]

theorem Coherent.record_accepted (h : t.Coherent) (hlast : t.errors[t.updates]? = some e)
    (hpos : 0 < e - e') (hlt : e' < e) (hd : d.accepted = true) :
    (t.record d e' (e - e')).Coherent := by
  have hnew : (⟨t.updates, d.damping, e', d.accepted, d.dampingAfter⟩ : Trial R).update
      = t.trials.countP Trial.accepted := h.countP_accepted.symm
  refine ⟨?_, ?_, ?_, ?_, ?_, update_eq_append h.update_eq hnew⟩
  · simp [record, hd, h.length_errors]
  · simp [record, hd, h.length_improvements]
  · simp [record, hd, List.countP_append, h.countP_accepted]
  · simpa [record, hd] using h.gain_append hlast hpos hlt
  · simp [record, hd, List.filter_append, h.accepted_errors,
      List.tail_append_of_ne_nil h.errors_ne_nil]

end Trace

/-! ## Runs -/

namespace State

variable {p : Problem R} {settings : Settings R}

/-- The course is coherent, and its last error is that of the best point. -/
structure Recorded (s : State R) : Prop where
  /-- The course is coherent. -/
  coherent : s.trace.Coherent
  /-- The best point has the last error. -/
  last_error : s.trace.errors[s.trace.updates]? = some s.best.error

theorem recorded_begin (settings : Settings R) (start : Visited R) :
    (State.begin settings start).state.Recorded := by
  refine ⟨?_, ?_⟩
  · rw [trace_begin]
    exact Trace.coherent_start start.error
  · rw [trace_begin, best_begin]
    rfl

theorem Recorded.after (hsub : ∀ a b : R, 0 < a - b → b < a) {s : State R} (h : s.Recorded)
    {equations : NormalEquations R} {d : Decision R} {tried : Nat} {step : List R}
    {reached : Visited R} (hd : d.accepted = true ↔ 0 < s.best.error - reached.error) :
    (s.after settings equations d tried step reached).Recorded := by
  cases haccepted : d.accepted with
  | false =>
    refine ⟨h.coherent.record_rejected haccepted, ?_⟩
    rw [errors_after_of_rejected haccepted, updates_after_of_rejected haccepted,
      best_after_of_rejected haccepted]
    exact h.last_error
  | true =>
    have hpos := hd.mp haccepted
    refine ⟨h.coherent.record_accepted h.last_error hpos (hsub _ _ hpos) haccepted, ?_⟩
    rw [errors_after_of_accepted haccepted, updates_after_of_accepted haccepted,
      best_after_of_accepted haccepted, ← h.coherent.length_errors, List.getElem?_concat_length]

theorem Recorded.step (hsub : ∀ a b : R, 0 < a - b → b < a) {s : State R} (h : s.Recorded) :
    (s.step p settings).state.Recorded := by
  have hmove := move_step p settings s
  generalize s.step p settings = a at hmove ⊢
  cases hmove with
  | linearised | stuck | failed => exact ⟨h.coherent, h.last_error⟩
  | @tried _ _ _ _ reached _ _ hdecided =>
    have hs : ({ s with interactions := s.interactions ++ [.evaluate reached.point] } :
        State R).Recorded := ⟨h.coherent, h.last_error⟩
    rw [state_conclude]
    exact hs.after hsub (accepted_iff_of_decideTrial hdecided)

end State

theorem gainRatio_append (before : List R) (previous last : R) :
    gainRatio (before ++ [previous, last]) = last / previous := by
  simp [gainRatio]

namespace Problem

variable {p : Problem R} {settings : Settings R}

theorem recorded_of_ends (hsub : ∀ a b : R, 0 < a - b → b < a) {start : List R} {e : Ending}
    {s : State R} (h : p.Ends settings start e s) : s.Recorded := by
  obtain ⟨residuals, -, hfinish⟩ := h
  exact Progress.invariant_of_finish State.Recorded (fun _ hs ↦ hs.step hsub)
    (State.recorded_begin _ _) hfinish

theorem coherent_of_solve (hsub : ∀ a b : R, 0 < a - b → b < a) {start : Option (List R)}
    {o : Outcome R} (h : p.solve settings start = some o) (herrors : o.trace.errors ≠ []) :
    o.trace.Coherent := by
  cases solved_of_solve h with
  | noStart | unevaluated => exact absurd rfl herrors
  | nothingActive =>
    rw [trace_commit] at herrors
    exact absurd rfl herrors
  | iterated _ hends =>
    rw [trace_outcome]
    exact (recorded_of_ends hsub hends).coherent

theorem recorded_stateAfter (hsub : ∀ a b : R, 0 < a - b → b < a) (p : Problem R)
    (settings : Settings R) (start residuals : List R) (n : Nat) :
    (p.stateAfter settings start residuals n).Recorded :=
  Progress.invariant_iterate_next State.Recorded (fun _ hs ↦ hs.step hsub)
    (State.recorded_begin _ _) n

/-- **The course of a solve is coherent.** It is empty exactly if there was no guess, no active
variable or no residual at the start. Otherwise its parts agree, and so they do after any number of
steps, so that the ratio of the last two improvements is never one to zero. Under a limit that
counts can reach there is a course. -/
theorem coherent_trace_of_solve (hsub : ∀ a b : R, 0 < a - b → b < a) (p : Problem R)
    (settings : Settings R) (start : Option (List R)) :
    (∀ bound, settings.limit = .atMost bound → ∃ o, p.solve settings start = some o) ∧
    (∀ o, p.solve settings start = some o →
      (o.trace.errors = [] ↔ start = none ∨ p.active = [] ∨
        ∃ x fault, start = some x ∧ p.residual 0 x = .error fault) ∧
      (o.trace.errors = [] → o.trace = {}) ∧
      (o.trace.errors ≠ [] → o.trace.Coherent)) ∧
    ∀ x residuals n before previous last,
      (p.stateAfter settings x residuals n).trace.improvements = before ++ [previous, last] →
      gainRatio (p.stateAfter settings x residuals n).trace.improvements = last / previous ∧
        0 < previous := by
  refine ⟨fun bound hlimit ↦ exists_solve hlimit p start, fun o ho ↦ ?_, ?_⟩
  · cases solved_of_solve ho with
    | noStart => simp
    | nothingActive hactive => simp [hactive]
    | unevaluated hactive hevaluated => simp [hactive, hevaluated]
    | iterated hactive hends =>
      obtain ⟨residuals, hevaluated, -⟩ := id hends
      have hcoherent := (recorded_of_ends hsub hends).coherent
      rw [trace_outcome]
      refine ⟨iff_of_false hcoherent.errors_ne_nil ?_,
        fun hnil ↦ absurd hnil hcoherent.errors_ne_nil, fun _ ↦ hcoherent⟩
      rintro (hstart | hnone | ⟨x, fault, hx, hfault⟩)
      · exact nomatch hstart
      · exact hactive hnone
      · obtain rfl := Option.some.inj hx
        rw [hevaluated] at hfault
        exact nomatch hfault
  · intro x residuals n before previous last himprovements
    have hcoherent := (recorded_stateAfter hsub p settings x residuals n).coherent
    rw [himprovements]
    exact ⟨gainRatio_append before previous last,
      hcoherent.improvement_pos (by rw [himprovements]; simp)⟩

open PartialRat in
/-- Before an undefined wall the first step goes too far, the second is accepted, and the next two
go too far again. -/
theorem coherent_trace_wall :
    ∃ o, (wall (.ok [⟨none⟩])).solve wallSettings (some [0]) = some o ∧
      o.trace.errors = [ofRat 3, ofRat (3 / 2)] ∧
      o.trace.trials.map Trial.accepted = [false, true, false, false] ∧ o.trace.Coherent := by
  obtain ⟨o, ho, htest⟩ := exists_solve_of_test (wall (.ok [⟨none⟩])) wallSettings [0]
    [ofRat (-3)] 6
    (fun o ↦ decide (o.trace.errors = [ofRat 3, ofRat (3 / 2)] ∧
      o.trace.trials.map Trial.accepted = [false, true, false, false]))
    (by decide) (by decide +kernel) (by decide +kernel)
  obtain ⟨herrors, haccepted⟩ := of_decide_eq_true htest
  obtain ⟨-, hcoherent, -⟩ := coherent_trace_of_solve (fun _ _ ↦ LawfulOrder.sub_pos_iff.mp)
    (wall (.ok [⟨none⟩])) wallSettings (some [0])
  exact ⟨o, ho, herrors, haccepted, (hcoherent o ho).2.2 (by rw [herrors]; exact nofun)⟩

end Problem

end DampedLeastSquares
