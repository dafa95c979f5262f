import DampedLeastSquares.Proofs.Solve.Limits
import DampedLeastSquares.Proofs.Solve.Reports
import DampedLeastSquares.Proofs.Solve.Stopping
import DampedLeastSquares.Solve.Report

/-!
# The table of progress

A solve that reports its progress writes a table: three lines of head, a row for the start, and a
row for each Jacobian with the trials that were made with it. A row is written when the last of
these trials has been decided on, and not before, so that a Jacobian that fails, or whose equations
turn out to be ill-posed, has none.

The table replays the course. The row for a Jacobian shows the number of updates after its last
trial, the error after so many updates, and the damping after that trial. Since each Jacobian
follows an update, the numbers are one, two, three and so on. Only the last row can repeat the
number before it, which happens if the iteration ends with a rejected trial.
-/

namespace DampedLeastSquares

variable {R : Type}

/-! ## Rows -/

/-- The table of progress among some records. -/
def table (records : List (Record R)) : List (Record R) := records.filter Record.isProgress

/-- The table of progress of a solve. -/
def Outcome.table (o : Outcome R) : List (Record R) := DampedLeastSquares.table o.records

/-- The trials with the Jacobian number `k`, which are those with so many updates before them. -/
def Trace.round (t : Trace R) (k : Nat) : List (Trial R) :=
  t.trials.filter fun trial ↦ trial.update == k

theorem table_append (records more : List (Record R)) :
    table (records ++ more) = table records ++ table more :=
  List.filter_append records more

theorem table_withoutTable (records : List (Record R)) : table (withoutTable records) = [] := by
  refine List.filter_eq_nil_iff.mpr fun r hr ↦ ?_
  rw [Bool.eq_false_of_not_eq_true' (List.mem_filter.mp hr).2]
  exact Bool.false_ne_true

theorem table_append_of_isProgress (records : List (Record R)) {more : List (Record R)}
    (h : ∀ r ∈ more, r.isProgress = false) : table (records ++ more) = table records := by
  have hmore : table more = [] :=
    List.filter_eq_nil_iff.mpr fun r hr ↦ by rw [h r hr]; exact Bool.false_ne_true
  rw [table_append, hmore, List.append_nil]

open Decimal (padLeft general) in
/-- The row for the start is numbered zero. Where no damping was given it says that there will be
one. -/
theorem Record.message_start (error : Float) (damping : Option Float) :
    (Record.start error damping).message
      = padLeft 6 "0" ++ cell 12 error ++ padLeft 16 (damping.elim "auto" (general 6)) := by
  cases damping <;> rfl

variable [Scalar R]

/-- The row for a Jacobian, the last trial with which is given: it shows the number of updates after
the trial, the error and the ratio of improvements after so many updates, and the damping after the
trial. -/
def Trace.Shows (t : Trace R) (trial : Trial R) (row : Record R) : Prop :=
  ∃ error stepRatio, t.errors[trial.updatesAfter]? = some error ∧
    row = .row trial.updatesAfter error trial.dampingAfter.toScalar stepRatio
      (gainRatio (t.improvements.take trial.updatesAfter))

/-- The rows replay the first Jacobians, each of which ended with an update. -/
def Trace.ReplayedBy (t : Trace R) (rows : List (Record R)) : Prop :=
  ∀ k row, rows[k]? = some row → ∃ trial, (t.round k).getLast? = some trial ∧
    trial.accepted = true ∧ t.Shows trial row

/-- The rows of the table replay a course with so many Jacobians. -/
structure Trace.Replays (t : Trace R) (rows : List (Record R)) (jacobians : Nat)
    (finished : Prop) : Prop where
  /-- If the iteration finished, then each Jacobian has a row. -/
  length_of_finished : finished → rows.length = jacobians
  /-- If the iteration did not finish, then the last Jacobian has no row. -/
  length_of_not_finished : ¬finished → rows.length + 1 = jacobians
  /-- Each row shows the last trial with its Jacobian. Its number is one more than that of the
  Jacobian, unless that trial was rejected; the row is then the last one, and the iteration
  finished. -/
  row : ∀ k row, rows[k]? = some row → ∃ trial, (t.round k).getLast? = some trial ∧
    t.Shows trial row ∧ (trial.accepted = true ∧ trial.updatesAfter = k + 1 ∨
      trial.accepted = false ∧ trial.updatesAfter = k ∧ k + 1 = rows.length ∧ finished)

/-! ## One more trial -/

namespace Trace

variable {t : Trace R} {d : Decision R} {error reduction : R}

omit [Scalar R]

theorem updatesAfter_of_getLast?_round {k : Nat} {trial : Trial R}
    (h : (t.round k).getLast? = some trial) :
    trial.updatesAfter = if trial.accepted then k + 1 else k := by
  obtain ⟨-, hupdate⟩ := List.mem_filter.mp (List.mem_of_getLast? h)
  rw [Trial.updatesAfter, beq_iff_eq.mp hupdate]

theorem round_record_of_lt {k : Nat} (hk : k < t.updates) :
    (t.record d error reduction).round k = t.round k := by
  have hne : (t.updates == k) = false := beq_false_of_ne hk.ne'
  rw [round, record, List.filter_append,
    List.filter_cons_of_neg (by rw [hne]; exact Bool.false_ne_true)]
  exact List.append_nil _

theorem getLast?_round_record :
    ((t.record d error reduction).round t.updates).getLast?
      = some ⟨t.updates, d.damping, error, d.accepted, d.dampingAfter⟩ := by
  have hnew : [(⟨t.updates, d.damping, error, d.accepted, d.dampingAfter⟩ : Trial R)].filter
      (fun trial ↦ trial.update == t.updates)
        = [⟨t.updates, d.damping, error, d.accepted, d.dampingAfter⟩] :=
    List.filter_cons_of_pos (beq_self_eq_true t.updates)
  rw [round, record, List.filter_append, hnew, List.getLast?_concat]

end Trace

namespace Trace

variable {t : Trace R} {d : Decision R} {error reduction : R} {rows : List (Record R)}

theorem Shows.record {trial : Trial R} {row : Record R} (h : t.Shows trial row)
    (hle : trial.updatesAfter ≤ t.improvements.length) :
    (t.record d error reduction).Shows trial row := by
  obtain ⟨e, ratio, he, rfl⟩ := h
  have hprefix := t.isPrefix_record d error reduction
  obtain ⟨errors, herrors⟩ := hprefix.errors
  obtain ⟨improvements, himprovements⟩ := hprefix.improvements
  refine ⟨e, ratio, ?_, ?_⟩
  · rw [← herrors, List.getElem?_append_left (List.getElem?_eq_some_iff.mp he).1, he]
  · rw [← himprovements, List.take_append_of_le_length hle]

theorem ReplayedBy.record (h : t.ReplayedBy rows) (hlength : rows.length = t.updates)
    (himprovements : t.improvements.length = t.updates) :
    (t.record d error reduction).ReplayedBy rows := by
  intro k row hk
  obtain ⟨trial, hlast, haccepted, hshows⟩ := h k row hk
  have hlt : k < t.updates := hlength ▸ (List.getElem?_eq_some_iff.mp hk).1
  refine ⟨trial, by rw [round_record_of_lt hlt]; exact hlast, haccepted, hshows.record ?_⟩
  rw [updatesAfter_of_getLast?_round hlast, if_pos haccepted, himprovements]
  exact hlt

theorem ReplayedBy.concat (h : t.ReplayedBy rows) {trial : Trial R} {row : Record R}
    (hlast : (t.round rows.length).getLast? = some trial) (haccepted : trial.accepted = true)
    (hshows : t.Shows trial row) : t.ReplayedBy (rows ++ [row]) := by
  intro k row' hk
  rcases getElem?_concat_eq_some hk with hk | ⟨rfl, rfl⟩
  · exact h k row' hk
  · exact ⟨trial, hlast, haccepted, hshows⟩

theorem ReplayedBy.row (h : t.ReplayedBy rows) (finished : Prop) (length : Nat) :
    ∀ k row, rows[k]? = some row → ∃ trial, (t.round k).getLast? = some trial ∧
      t.Shows trial row ∧ (trial.accepted = true ∧ trial.updatesAfter = k + 1 ∨
        trial.accepted = false ∧ trial.updatesAfter = k ∧ k + 1 = length ∧ finished) := by
  intro k row hk
  obtain ⟨trial, hlast, haccepted, hshows⟩ := h k row hk
  have hnumber := updatesAfter_of_getLast?_round hlast
  rw [if_pos haccepted] at hnumber
  exact ⟨trial, hlast, hshows, Or.inl ⟨haccepted, hnumber⟩⟩

theorem ReplayedBy.replays_unfinished (h : t.ReplayedBy rows) {jacobians : Nat} {finished : Prop}
    (hlength : rows.length + 1 = jacobians) (hno : ¬finished) :
    t.Replays rows jacobians finished :=
  ⟨fun hyes ↦ absurd hyes hno, fun _ ↦ hlength, h.row finished rows.length⟩

theorem ReplayedBy.replays_accepted (h : t.ReplayedBy rows) {jacobians : Nat} {finished : Prop}
    (hlength : rows.length = jacobians) (hyes : finished) : t.Replays rows jacobians finished :=
  ⟨fun _ ↦ hlength, fun hno ↦ absurd hyes hno, h.row finished rows.length⟩

theorem ReplayedBy.replays_rejected (h : t.ReplayedBy rows) {jacobians : Nat} {finished : Prop}
    {trial : Trial R} {row : Record R} (hlength : rows.length + 1 = jacobians)
    (hlast : (t.round rows.length).getLast? = some trial) (hrejected : trial.accepted = false)
    (hshows : t.Shows trial row) (hyes : finished) :
    t.Replays (rows ++ [row]) jacobians finished := by
  have hnumber := updatesAfter_of_getLast?_round hlast
  rw [hrejected, if_neg Bool.false_ne_true] at hnumber
  have hall : (rows ++ [row]).length = rows.length + 1 := List.length_append
  refine ⟨fun _ ↦ hall.trans hlength, fun hno ↦ absurd hyes hno, fun k row' hk ↦ ?_⟩
  rcases getElem?_concat_eq_some hk with hk | ⟨rfl, rfl⟩
  · exact h.row finished (rows ++ [row]).length k row' hk
  · exact ⟨trial, hlast, hshows, Or.inr ⟨hrejected, hnumber, hall.symm, hyes⟩⟩

end Trace

/-! ## Steps -/

namespace State

variable {p : Problem R} {settings : Settings R} {s : State R} {head : List (Record R)}

/-- The table has a row for each update, and the last error of the course is that of the best
point. -/
structure Tabled (head : List (Record R)) (s : State R) : Prop where
  /-- There is an error for the start and one for each update. -/
  length_errors : s.trace.errors.length = s.trace.updates + 1
  /-- The best point has the last error. -/
  last_error : s.trace.errors[s.trace.updates]? = some s.best.error
  /-- Below the head there is a row for each Jacobian that ended with an update. -/
  rows : ∃ rows, table s.records = head ++ rows ∧ rows.length = s.trace.updates ∧
    s.trace.ReplayedBy rows

/-- The row that a decision on a step may add to the table. -/
def newRow (s : State R) (d : Decision R) (step : List R) (reached : Visited R) : Record R :=
  .row (s.traceAfter d reached).updates (s.bestAfter d reached).error d.dampingAfter.toScalar
    (stepRatio step (s.bestAfter d reached).point) (gainRatio (s.traceAfter d reached).improvements)

section

variable {d : Decision R} {tried : Nat} {step : List R} {reached : Visited R}

theorem table_recordsAfter (hverbose : settings.verbose = true) :
    table (s.recordsAfter settings d tried step reached)
      = if d.accepted || s.finalAfter settings d tried step reached
          then table s.records ++ [s.newRow d step reached] else table s.records := by
  rw [recordsAfter, hverbose, Bool.true_and, apply_ite table, table_append]
  rfl

theorem Tabled.last_error_after (h : s.Tabled head) :
    (s.traceAfter d reached).errors[(s.traceAfter d reached).updates]?
      = some (s.bestAfter d reached).error := by
  rw [traceAfter, Trace.record, bestAfter]
  cases d.accepted with
  | true =>
    simp only [if_true]
    rw [← h.length_errors, List.getElem?_concat_length]
  | false => exact h.last_error

theorem Tabled.length_errors_after (h : s.Tabled head) :
    (s.traceAfter d reached).errors.length = (s.traceAfter d reached).updates + 1 := by
  rw [traceAfter, Trace.record]
  cases d.accepted with
  | true => exact List.length_append.trans (congrArg (· + 1) h.length_errors)
  | false => exact h.length_errors

theorem Tabled.shows_newRow (h : s.Tabled head) (hopen : s.Open p settings) :
    (s.traceAfter d reached).Shows (s.newTrial d reached) (s.newRow d step reached) := by
  have hnumber : (s.newTrial d reached).updatesAfter = (s.traceAfter d reached).updates :=
    Open.updatesAfter_newTrial
  have hlength : (s.traceAfter d reached).improvements.length
      = (s.traceAfter d reached).updates := hopen.length_improvements_after
  refine ⟨(s.bestAfter d reached).error, stepRatio step (s.bestAfter d reached).point, ?_, ?_⟩
  · rw [hnumber]
    exact h.last_error_after
  · rw [hnumber, ← hlength, List.take_length, hlength]
    rfl

theorem getLast?_round_traceAfter :
    ((s.traceAfter d reached).round s.trace.updates).getLast? = some (s.newTrial d reached) :=
  Trace.getLast?_round_record

theorem Tabled.after_rejected (h : s.Tabled head) (hopen : s.Open p settings)
    (hverbose : settings.verbose = true) (hrejected : d.accepted = false)
    (hfinal : s.finalAfter settings d tried step reached = false) (equations : NormalEquations R) :
    (s.after settings equations d tried step reached).Tabled head := by
  obtain ⟨rows, htable, hlength, hrows⟩ := h.rows
  refine ⟨h.length_errors_after, h.last_error_after, rows, ?_, ?_,
    hrows.record hlength hopen.length_improvements⟩
  · change table (s.recordsAfter settings d tried step reached) = _
    rw [table_recordsAfter hverbose, hrejected, hfinal]
    exact htable
  · rw [updates_after_of_rejected hrejected, hlength]

theorem Tabled.after_accepted (h : s.Tabled head) (hopen : s.Open p settings)
    (hverbose : settings.verbose = true) (haccepted : d.accepted = true)
    (equations : NormalEquations R) (tried : Nat) (step : List R) (reached : Visited R) :
    (s.after settings equations d tried step reached).Tabled head := by
  obtain ⟨rows, htable, hlength, hrows⟩ := h.rows
  refine ⟨h.length_errors_after, h.last_error_after, rows ++ [s.newRow d step reached], ?_, ?_, ?_⟩
  · change table (s.recordsAfter settings d tried step reached) = _
    rw [table_recordsAfter hverbose, haccepted, Bool.true_or, if_pos rfl, htable,
      List.append_assoc]
  · rw [updates_after_of_accepted haccepted, List.length_append, hlength]
    rfl
  · refine (hrows.record hlength hopen.length_improvements).concat ?_ haccepted
      (h.shows_newRow hopen)
    rw [hlength]
    exact getLast?_round_traceAfter

end

end State

/-- What a step has led to, with the table that replays the course. -/
def Progress.Tabled (head : List (Record R)) : Progress R → Prop
  | .running s => s.Tabled head
  | .ended e s => ∃ rows, table s.records = head ++ rows ∧
      s.trace.Replays rows (bases s.interactions).length (e = .finished)

namespace State

variable {p : Problem R} {settings : Settings R} {s : State R} {head : List (Record R)}

/-- While steps are tried there is one more Jacobian than updates. -/
theorem Open.length_bases_of_attempt (h : s.Open p settings) {equations : NormalEquations R}
    {damping : Amount R} {tried : Nat} (hphase : s.phase = .attempt equations damping tried) :
    (bases s.interactions).length = s.trace.updates + 1 := by
  obtain ⟨earlier, hbases, hlength, -⟩ := h.exists_earlier hphase
  rw [hbases, List.length_append, hlength]
  rfl

theorem Open.length_bases_of_failure (h : s.Open p settings) {fault : Fault}
    {more : List (Interaction R)} (hfailure : s.Failure p settings fault more) :
    (bases (s.interactions ++ more)).length = s.trace.updates + 1 := by
  cases hfailure with
  | jacobian hphase hcalled =>
    have hround := h.round
    rw [hphase] at hround
    rw [bases_append, List.length_append, hround]
    rfl
  | damping hphase =>
    rw [List.append_nil]
    exact h.length_bases_of_attempt hphase
  | update hpoised =>
    rw [List.append_nil]
    exact h.length_bases_of_attempt hpoised.phase
  | residual hpoised =>
    rw [bases_append_evaluate]
    exact h.length_bases_of_attempt hpoised.phase
  | decision htrial =>
    rw [bases_append_evaluate]
    exact h.length_bases_of_attempt htrial.phase

omit [Scalar R] in
theorem table_illPosed (records : List (Record R)) (still : List Nat) (var : Nat → Nat) :
    table (records ++ still.map (fun i ↦ Record.unresponsive (var i)) ++ [.illPosed])
      = table records := by
  rw [List.append_assoc]
  exact table_append_of_isProgress records fun _ ↦ isProgress_of_mem_illPosed

theorem Tabled.finished (h : s.Tabled head) (hopen : s.Open p settings)
    (hverbose : settings.verbose = true) {equations : NormalEquations R} {damping : Amount R}
    {tried : Nat} (hphase : s.phase = .attempt equations damping tried) {d : Decision R}
    {step : List R} {reached : Visited R}
    (hfinal : s.finalAfter settings d tried step reached = true) :
    ∃ rows, table (s.recordsAfter settings d tried step reached) = head ++ rows ∧
      (s.traceAfter d reached).Replays rows (bases s.interactions).length
        (Ending.finished = .finished) := by
  cases haccepted : d.accepted with
  | true =>
    obtain ⟨rows, htable, hlength, hrows⟩ :=
      (h.after_accepted hopen hverbose haccepted equations tried step reached).rows
    rw [updates_after_of_accepted haccepted, ← hopen.length_bases_of_attempt hphase] at hlength
    exact ⟨rows, htable, hrows.replays_accepted hlength rfl⟩
  | false =>
    obtain ⟨rows, htable, hlength, hrows⟩ := h.rows
    refine ⟨rows ++ [s.newRow d step reached], ?_,
      (hrows.record hlength hopen.length_improvements).replays_rejected ?_
        (hlength ▸ getLast?_round_traceAfter) haccepted (h.shows_newRow hopen) rfl⟩
    · rw [table_recordsAfter hverbose, hfinal, Bool.or_true, if_pos rfl, htable, List.append_assoc]
    · rw [hlength, hopen.length_bases_of_attempt hphase]

/-- **A step keeps the table in line with the course.** -/
theorem Tabled.step (h : s.Tabled head) (hopen : s.Open p settings)
    (hverbose : settings.verbose = true) : (s.step p settings).Tabled head := by
  obtain ⟨rows, htable, hlength, hrows⟩ := id h.rows
  have hmove := move_step p settings s
  generalize s.step p settings = a at hmove ⊢
  cases hmove with
  | linearised =>
    refine ⟨h.length_errors, h.last_error, rows, ?_, hlength, hrows⟩
    exact (table_append_of_isProgress _ fun _ hr ↦ isProgress_of_mem_reportJacobian hr).trans htable
  | stuck hphase =>
    refine ⟨rows, (table_illPosed _ _ _).trans htable, hrows.replays_unfinished ?_ nofun⟩
    rw [hlength]
    exact (hopen.length_bases_of_attempt hphase).symm
  | failed hfailure =>
    refine ⟨rows, htable, hrows.replays_unfinished ?_ nofun⟩
    rw [hlength, hopen.length_bases_of_failure hfailure]
  | @tried equations damping tried step reached d htrial hdecided =>
    -- That the point was evaluated before the decision is of no importance to the table.
    rw [conclude]
    split
    next hfinal =>
      obtain ⟨rows, htable, hreplays⟩ := h.finished hopen hverbose htrial.phase hfinal
      rw [← bases_append_evaluate s.interactions reached.point] at hreplays
      exact ⟨rows, htable, hreplays⟩
    next hfinal =>
      cases haccepted : d.accepted with
      | true =>
        have hafter := h.after_accepted hopen hverbose haccepted equations tried step reached
        exact ⟨hafter.length_errors, hafter.last_error, hafter.rows⟩
      | false =>
        have hafter := h.after_rejected hopen hverbose haccepted
          (Bool.not_eq_true _ ▸ hfinal) equations
        exact ⟨hafter.length_errors, hafter.last_error, hafter.rows⟩

end State

/-! ## Solves -/

namespace Problem

variable {p : Problem R} {settings : Settings R} {start : List R}

/-- The head of the table, with the row for the start. -/
def tableHead (error : R) (damping : Option R) : List (Record R) :=
  [.rule, .heading, .rule, .start error damping]

theorem tabled_begin (hverbose : settings.verbose = true) {damping : Option R}
    (hshown : settings.shownDamping = .ok damping) (residuals : List R) :
    (State.begin settings (.ofResiduals start residuals)).StopsExactly p settings ∧
      (State.begin settings (.ofResiduals start residuals)).Tabled
        (tableHead (Linear.rms residuals) damping) := by
  refine ⟨stopsExactly_begin _, ?_⟩
  rw [State.begin_of_shownDamping hverbose hshown]
  exact ⟨rfl, rfl, [], rfl, rfl, nofun⟩

theorem tabled_step (hverbose : settings.verbose = true) {head : List (Record R)} (s : State R)
    (h : (Progress.running s).StopsExactly p settings ∧ (Progress.running s).Tabled head) :
    (s.step p settings).StopsExactly p settings ∧ (s.step p settings).Tabled head :=
  ⟨h.1.step, h.2.step h.1 hverbose⟩

theorem tabled_iterate_next (hverbose : settings.verbose = true) {damping : Option R}
    (hshown : settings.shownDamping = .ok damping) (residuals : List R) (n : Nat) :
    ((Progress.next p settings)^[n] (State.begin settings (.ofResiduals start residuals))).Tabled
      (tableHead (Linear.rms residuals) damping) :=
  (Progress.good_iterate_next
    (fun a ↦ a.StopsExactly p settings ∧ a.Tabled (tableHead (Linear.rms residuals) damping))
    (tabled_step hverbose) (tabled_begin hverbose hshown residuals) n).2

theorem tabled_of_ends (hverbose : settings.verbose = true) {damping : Option R}
    (hshown : settings.shownDamping = .ok damping) {residuals : List R}
    (hevaluated : p.residual 0 start = .ok residuals) {e : Ending} {s : State R}
    (h : p.Ends settings start e s) :
    ∃ rows, table s.records = tableHead (Linear.rms residuals) damping ++ rows ∧
      s.trace.Replays rows (bases s.interactions).length (e = .finished) := by
  obtain ⟨residuals', hevaluated', hfinish⟩ := h
  obtain rfl := Except.ok.inj (hevaluated.symm.trans hevaluated')
  exact (Progress.good_of_finish
    (fun a ↦ a.StopsExactly p settings ∧ a.Tabled (tableHead (Linear.rms residuals) damping))
    (tabled_step hverbose) (tabled_begin hverbose hshown residuals) hfinish).2

theorem getElem?_errors_zero_of_ends {residuals : List R}
    (hevaluated : p.residual 0 start = .ok residuals) {e : Ending} {s : State R}
    (h : p.Ends settings start e s) : s.trace.errors[0]? = some (Linear.rms residuals) := by
  obtain ⟨residuals', hevaluated', hfinish⟩ := h
  obtain rfl := Except.ok.inj (hevaluated.symm.trans hevaluated')
  have hprefix : ({ errors := [Linear.rms residuals] } : Trace R).IsPrefix s.trace := by
    refine Progress.invariant_of_finish
      (fun s ↦ ({ errors := [Linear.rms residuals] } : Trace R).IsPrefix s.trace)
      (fun s hs ↦ hs.trans s.isPrefix_step) ?_ hfinish
    rw [State.trace_begin]
    exact .refl _
  obtain ⟨errors, herrors⟩ := hprefix.errors
  rw [← herrors]
  rfl

theorem table_of_silent (hverbose : settings.verbose = false) {e : Ending} {s : State R}
    (h : p.Ends settings start e s) : table s.records = [] := by
  obtain ⟨residuals, -, hfinish⟩ := h
  have hsame : settings.reporting false = settings := by rw [← hverbose]; rfl
  -- Silent steps commute with the erasure, so what is its own erasure at first stays so.
  have herased : s.withoutTable = s := by
    refine Progress.invariant_of_finish (fun s ↦ s.withoutTable = s) (fun s hs ↦ ?_) ?_ hfinish
    · have hstep : s.withoutTable.step p (settings.reporting false)
          = (s.step p settings).map State.withoutTable := s.step_withoutTable
      have hstate := Progress.state_map State.withoutTable (s.step p settings)
      rw [hs, hsame] at hstep
      rw [← hstep] at hstate
      exact hstate.symm
    · rw [State.begin_of_silent hverbose]
      rfl
  rw [← herased]
  exact table_withoutTable s.records

section

omit [Scalar R]

theorem table_commit (p : Problem R) (x : List R) (trace : Trace R)
    (interactions : List (Interaction R)) (records : List (Record R)) :
    (p.commit x trace interactions records).table = table records := by
  rw [commit]
  split
  · rfl
  · exact (table_append _ _).trans (List.append_nil _)

theorem table_outcome (p : Problem R) (start : List R) (e : Ending) (s : State R) :
    (p.outcome start e s).table = table s.records := by
  cases e with
  | finished => exact p.table_commit _ _ _ _
  | illPosed => rfl
  | failed fault => exact (table_append _ _).trans (List.append_nil _)

theorem bases_outcome (p : Problem R) (start : List R) (e : Ending) (s : State R) :
    bases (p.outcome start e s).interactions = bases s.interactions := by
  cases e with
  | finished =>
    rw [outcome, interactions_commit, bases_append]
    exact List.append_nil _
  | illPosed | failed => rfl

end

theorem table_of_solve_silent {start : Option (List R)} {o : Outcome R}
    (h : p.solve settings start = some o) (hverbose : settings.verbose = false) : o.table = [] := by
  cases solved_of_solve h with
  | noStart | unevaluated => rfl
  | nothingActive => exact p.table_commit _ _ _ _
  | iterated _ hends => rw [table_outcome, table_of_silent hverbose hends]

theorem exists_rows_of_solve {o : Outcome R} (h : p.solve settings (some start) = some o)
    (hverbose : settings.verbose = true) (hactive : p.active ≠ []) {residuals : List R}
    (hevaluated : p.residual 0 start = .ok residuals) {damping : Option R}
    (hshown : settings.shownDamping = .ok damping) :
    ∃ error rows, o.trace.errors[0]? = some error ∧ o.table = tableHead error damping ++ rows ∧
      o.trace.Replays rows (bases o.interactions).length
        (o.status = .converged ∨ o.status = .solutionRejected) := by
  cases solved_of_solve h with
  | nothingActive hnone => exact absurd hnone hactive
  | unevaluated _ hfault => exact nomatch hevaluated.symm.trans hfault
  | @iterated _ e s _ hends =>
    obtain ⟨rows, htable, hreplays⟩ := tabled_of_ends hverbose hshown hevaluated hends
    rw [finished_iff_status_outcome p start e s] at hreplays
    refine ⟨Linear.rms residuals, rows, ?_, ?_, ?_⟩
    · rw [trace_outcome, getElem?_errors_zero_of_ends hevaluated hends]
    · rw [table_outcome, htable]
    · rwa [trace_outcome, bases_outcome]

theorem table_of_solve_unshown {o : Outcome R} (h : p.solve settings (some start) = some o)
    (hverbose : settings.verbose = true) (hactive : p.active ≠ []) {residuals : List R}
    (hevaluated : p.residual 0 start = .ok residuals) {fault : Fault}
    (hunshown : settings.shownDamping = .error fault) :
    o.status = .evaluationError ∧ o.table = [.rule, .heading, .rule] := by
  cases solved_of_solve h with
  | nothingActive hnone => exact absurd hnone hactive
  | unevaluated _ hfault => exact nomatch hevaluated.symm.trans hfault
  | @iterated _ e s _ hends =>
    obtain ⟨residuals', -, hfinish⟩ := hends
    rw [State.begin_of_unshown hverbose hunshown] at hfinish
    obtain ⟨rfl, rfl⟩ := Prod.mk.inj (Option.some.inj hfinish)
    exact ⟨rfl, p.table_outcome _ _ _⟩

end Problem

/-- What the table is if progress is reported and there are residuals at the start. -/
structure Problem.Tabulates (p : Problem R) (settings : Settings R) (start residuals : List R) :
    Prop where
  /-- It begins with its head and a row with the first error and the first damping. Below there is
  a row for each Jacobian, except for the last one if the equations were ill-posed or something
  failed. -/
  replays : ∀ damping, settings.shownDamping = .ok damping →
    ∀ o, p.solve settings (some start) = some o →
      ∃ error rows, o.trace.errors[0]? = some error ∧ o.table = tableHead error damping ++ rows ∧
        o.trace.Replays rows (bases o.interactions).length
          (o.status = .converged ∨ o.status = .solutionRejected)
  /-- A solve that still runs, and may do so for ever, has written a row for each update. -/
  running : ∀ damping, settings.shownDamping = .ok damping →
    ∀ n s, (Progress.next p settings)^[n] (State.begin settings (.ofResiduals start residuals))
        = .running s →
      ∃ rows, table s.records = tableHead (Linear.rms residuals) damping ++ rows ∧
        rows.length = s.trace.updates ∧ s.trace.ReplayedBy rows
  /-- If the first damping cannot be shown, since it is a whole number too large for a scalar, there
  is only the head, and the solve fails. -/
  unshown : ∀ fault o, settings.shownDamping = .error fault →
    p.solve settings (some start) = some o →
      o.status = .evaluationError ∧ o.table = [.rule, .heading, .rule]

/-- What holds of the reports of progress of solves over the scalars `R`. -/
structure ReportsProgress (R : Type) [Scalar R] : Prop where
  /-- Reports have no bearing on what a solve of a problem comes to. -/
  problem : ∀ (p : Problem R) settings verbose start,
    (p.solve (settings.reporting verbose) start).map Outcome.result
      = (p.solve settings start).map Outcome.result
  /-- Reports have no bearing on what a solve of a model comes to and leaves behind. -/
  model : ∀ (m : FunctionModel R) settings verbose start,
    (m.solve (settings.reporting verbose) start).map (Prod.map Outcome.result id)
      = (m.solve settings start).map (Prod.map Outcome.result id)
  /-- Reports have no bearing on what a solve of an adjustment comes to and leaves behind. -/
  adjustment : ∀ {S : Type} [CircularScalar S] (a : Adjustment S) settings verbose start,
    (a.solve (settings.reporting verbose) start).map (Option.map (Prod.map Outcome.result id))
      = (a.solve settings start).map (Option.map (Prod.map Outcome.result id))
  /-- The silent solve makes the same use of the problem and reports the same, apart from the
  table. -/
  withoutTable : ∀ (p : Problem R) settings damping start, settings.shownDamping = .ok damping →
    p.solve (settings.reporting false) start = (p.solve settings start).map Outcome.withoutTable
  /-- In silence there is no table. -/
  silent : ∀ (p : Problem R) settings start o, p.solve settings start = some o →
    settings.verbose = false → o.table = []
  /-- The row for the start shows a word for the first damping if none was given. -/
  message_start : ∀ (error : Float) damping, (Record.start error damping).message
    = Decimal.padLeft 6 "0" ++ Record.cell 12 error ++
      Decimal.padLeft 16 (damping.elim "auto" (Decimal.general 6))
  /-- With progress reported, and residuals at the start, there is a table. -/
  tabulates : ∀ (p : Problem R) settings start residuals, settings.verbose = true →
    p.active ≠ [] → p.residual 0 start = .ok residuals → p.Tabulates settings start residuals

/-- **The table of progress replays the course and steers nothing.** -/
theorem table_replays : ReportsProgress R where
  problem := Problem.map_result_solve
  model := FunctionModel.map_result_solve
  adjustment := Adjustment.map_result_solve
  withoutTable p _ _ start hshown := Problem.solve_silent hshown p start
  silent _ _ _ _ h hverbose := Problem.table_of_solve_silent h hverbose
  message_start := Record.message_start
  tabulates p settings start residuals hverbose hactive hevaluated := by
    constructor
    case replays =>
      exact fun damping hshown o h ↦
        Problem.exists_rows_of_solve h hverbose hactive hevaluated hshown
    case running =>
      intro damping hshown n s hrunning
      have htabled : ((Progress.next p settings)^[n] (State.begin settings
          (.ofResiduals start residuals))).Tabled
            (Problem.tableHead (Linear.rms residuals) damping) :=
        Problem.tabled_iterate_next hverbose hshown residuals n
      rw [hrunning] at htabled
      exact htabled.rows
    case unshown =>
      exact fun fault o hunshown h ↦
        Problem.table_of_solve_unshown h hverbose hactive hevaluated hunshown

/-- The number of updates that a row shows. -/
def Record.updates? : Record R → Option Nat
  | .row updates .. => some updates
  | _ => none

open PartialRat in
/-- Before an undefined wall the second trial is accepted, and the fourth one, which is rejected,
is the last. So there are two rows with the number one below that of the start. -/
theorem table_replays_wall :
    ∃ o rows, (wall (.ok [⟨none⟩])).solve wallSettings (some [0]) = some o ∧
      o.table = Problem.tableHead (ofRat 3) (some (ofRat (1 / 8))) ++ rows ∧
      o.table.filterMap Record.updates? = [1, 1] ∧ (bases o.interactions).length = 2 ∧
      o.trace.Replays rows 2 True ∧
      ∃ o', (wall (.ok [⟨none⟩])).solve (wallSettings.reporting false) (some [0]) = some o' ∧
        o'.result = o.result ∧ o'.table = [] := by
  obtain ⟨o, ho, htest⟩ := Problem.exists_solve_of_test (wall (.ok [⟨none⟩])) wallSettings [0]
    [ofRat (-3)] 6
    (fun o ↦ decide (o.status = .converged ∧ o.trace.errors = [ofRat 3, ofRat (3 / 2)] ∧
      o.table.filterMap Record.updates? = [1, 1] ∧ (bases o.interactions).length = 2))
    (by decide) (by decide +kernel) (by decide +kernel)
  obtain ⟨hstatus, herrors, hnumbers, hjacobians⟩ := of_decide_eq_true htest
  have htabulates := table_replays.tabulates (wall (.ok [⟨none⟩])) wallSettings [0] [ofRat (-3)]
    rfl (by decide) (by decide +kernel)
  obtain ⟨error, rows, herror, htable, hreplays⟩ :=
    htabulates.replays (some (ofRat (1 / 8))) rfl o ho
  obtain rfl : ofRat 3 = error := by
    rw [herrors] at herror
    exact Option.some.inj herror
  have hresult := table_replays.problem (wall (.ok [⟨none⟩])) wallSettings false (some [0])
  rw [ho] at hresult
  obtain ⟨o', ho', hresult'⟩ := Option.map_eq_some_iff.mp hresult
  rw [hjacobians, hstatus] at hreplays
  have hfinished : (Status.converged = .converged ∨ Status.converged = .solutionRejected) = True :=
    eq_true (Or.inl rfl)
  rw [hfinished] at hreplays
  exact ⟨o, rows, ho, htable, hnumbers, hjacobians, hreplays, o', ho', hresult',
    table_replays.silent _ _ _ o' ho' rfl⟩

/-- A first damping that is a whole number too large for a float is allowed. -/
def Damping.excessive : Damping where
  stopping := { epsilon := .real 0.25 }
  initialLambda := some (.int (16 ^ 256))
  eta := .real 8
  verbose := some (.truth true)

/-- With a first damping too large for a float a solve writes the head of the table and no row for
the start, although it has residuals there. -/
theorem table_of_solve_excessive :
    ∃ made o m', FunctionModel.make 1 1 (fun _ x ↦ .ok (x.map fun a ↦ a - 3)) (.scalar 0.25)
        (.ok { count := 1 }) none none = .ok made ∧
      made.solve Damping.excessive.settings (some (.ofList [0])) = some (o, m') ∧
      Damping.excessive.settings.verbose = true ∧ made.problem.active ≠ [] ∧
      made.problem.residual 0 [0] = .ok [0 - 3] ∧ o.trace.errors.length = 1 ∧
      o.table = [.rule, .heading, .rule] := by
  have hread : (Amount.whole (16 ^ 256) : Amount Float).read = .error .wholeTooLarge := by
    have hlarge : Scalar.isFinite (Amount.ofWhole (16 ^ 256) : Float) = false := by decide +kernel
    rw [Amount.read, hlarge]
    rfl
  have hunshown : Damping.excessive.settings.shownDamping = .error .wholeTooLarge := by
    change (some (Amount.whole (16 ^ 256))).mapM Amount.read = _
    rw [Option.mapM_some, hread]
    rfl
  obtain ⟨made, hmade, hactive, hevaluated⟩ : ∃ made, FunctionModel.make 1 1
      (fun _ x ↦ .ok (x.map fun a ↦ a - 3)) (.scalar 0.25) (.ok { count := 1 }) none none
        = .ok made ∧ made.problem.active ≠ [] ∧
      made.problem.residual 0 [0] = .ok [(0 : Float) - 3] :=
    ⟨_, rfl, List.cons_ne_nil 0 [], rfl⟩
  obtain ⟨o, ho, hresult⟩ := Problem.exists_solve_of_unshown hunshown hactive hevaluated
  obtain ⟨-, htable⟩ := Problem.table_of_solve_unshown ho rfl hactive hevaluated hunshown
  have htrace : o.trace = { errors := [Linear.rms [0 - 3]] } := congrArg Result.trace hresult
  refine ⟨made, o, made.afterSolve o, hmade, Option.map_eq_some_iff.mpr ⟨o, ho, rfl⟩, rfl, hactive,
    hevaluated, ?_, htable⟩
  rw [htrace]
  rfl

end DampedLeastSquares
