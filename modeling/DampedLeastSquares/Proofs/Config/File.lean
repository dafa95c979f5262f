import DampedLeastSquares.Config.File
import DampedLeastSquares.Problem.Basic
import DampedLeastSquares.Proofs.Config.Format

/-!
# Settings that are saved and loaded

Settings are saved as a document. Each value that is read from it converts to the setting it was
written for, and settings that were accepted once are accepted again. So a file gives back what was
saved in it. The one exception is a number of workers that is zero: it is written like a missing
number, which means the same.
-/

namespace DampedLeastSquares

open Decimal Toml

/-! ## Settings made again -/

theorem Stopping.make_eq (s : Stopping) : make (some s.maxCount) (some s.epsilon) = .ok s := by
  rw [make, dif_pos s.maxCount_ok]
  exact dif_pos s.epsilon_ok

theorem Damping.make_eq (d : Damping) :
    make d.stopping d.initialLambda (some d.eta) d.verbose = .ok d := by
  obtain ⟨stopping, initialLambda, eta, verbose, heta, hlambda⟩ := d
  rw [make, dif_pos heta]
  cases initialLambda with
  | none => rfl
  | some lambda => exact dif_pos hlambda

theorem Differencing.make_eq (d : Differencing) : make (some d.diffStep) d.threads = .ok d := by
  obtain ⟨diffStep, threads, hstep, hthreads⟩ := d
  rw [make, dif_pos hstep]
  cases threads with
  | none => rfl
  | some n => exact dif_pos hthreads

/-! ## No workers -/

/-- The same settings without a number of workers that is zero. -/
def Differencing.withoutZero (d : Differencing) : Differencing where
  diffStep := d.diffStep
  threads := d.threads.filter (·.isTrue)
  diffStep_ok := d.diffStep_ok
  threads_ok := by
    have h := d.threads_ok
    cases hthreads : d.threads with
    | none => rfl
    | some n =>
      rw [hthreads] at h
      rw [Option.filter]
      split
      · exact h
      · rfl

/-- The same settings without a number of workers that is zero. -/
def Config.withoutZero (c : Config) : Config := ⟨c.damping, c.differencing.withoutZero⟩

theorem Differencing.workers_withoutZero (d : Differencing) (host : Workers) :
    d.withoutZero.workers host = d.workers host := by
  obtain ⟨diffStep, threads, hstep, hthreads⟩ := d
  cases threads with
  | none => rfl
  | some n =>
    by_cases hn : n.isTrue
    · simp only [workers, withoutZero, Option.filter_some, if_pos hn]
    · simp only [workers, withoutZero, Option.filter_some, if_neg hn]

theorem Config.threadsText_filter (threads : Option Number) :
    threadsText (threads.filter (·.isTrue)) = threadsText threads := by
  cases threads with
  | none => rfl
  | some n =>
    by_cases hn : n.isTrue
    · rw [Option.filter_some, if_pos hn]
    · rw [Option.filter_some, if_neg hn, threadsText, threadsText, if_neg hn]

theorem Config.render_withoutZero (c : Config) : c.withoutZero.render = c.render := by
  unfold render
  rw [← threadsText_filter c.differencing.threads]
  rfl

/-! ## Loading -/

namespace Config

theorem ofEntries_document (c : Config) : ofEntries c.document = (do
    let maxCount ← toWhole c.damping.stopping.maxCount.value
    let epsilon ← toReal c.damping.stopping.epsilon.value
    let stopping ← (Stopping.make (some (.int maxCount)) (some (.real epsilon))).mapError .setting
    let lambda ← toLambda (lambdaValue c.damping.initialLambda)
    let eta ← toReal c.damping.eta.value
    let damping ← (Damping.make stopping lambda (some (.real eta))
      (some (.truth (toTruth (verboseValue c.damping.verbose))))).mapError .setting
    let threads ← toWhole (threadsValue c.differencing.threads)
    let diffStep ← toReal c.differencing.diffStep.value
    let workers := if threads = 0 then none else some (Number.int threads)
    let differencing ← (Differencing.make (some (.real diffStep)) workers).mapError .setting
    return ⟨damping, differencing⟩) :=
  rfl

end Config

/-! ## Typed settings -/

/-- A whole number of 64 bits with a sign. -/
def IsWord (n : Int) : Prop := -0x8000000000000000 ≤ n ∧ n < 0x8000000000000000

/-- Settings of the types that they are read as: counts that are whole numbers of 64 bits, a truth
value, and floats. -/
structure Config.IsTyped (c : Config) : Prop where
  /-- Updates are counted in whole numbers. -/
  maxCount : ∃ n, c.damping.stopping.maxCount = .int n ∧ IsWord n
  /-- The ratio at which progress is too small is a float. -/
  epsilon : ∃ x, c.damping.stopping.epsilon = .real x
  /-- The first damping, if given, is a float. -/
  initialLambda : ∀ lambda ∈ c.damping.initialLambda, ∃ x, lambda = .real x
  /-- The factor by which damping grows is a float. -/
  eta : ∃ x, c.damping.eta = .real x
  /-- Whether progress is reported is a truth value. -/
  verbose : ∃ b, c.damping.verbose = some (.truth b)
  /-- The step of a difference quotient is a float. -/
  diffStep : ∃ x, c.differencing.diffStep = .real x
  /-- Workers, if they are counted, are counted in whole numbers. -/
  threads : ∀ n ∈ c.differencing.threads, ∃ k, n = .int k ∧ IsWord k

/-- What is compared with a whole number is not undefined. -/
theorem Number.isReadable_of_isAtLeast {x : Float} {bound : Int}
    (h : (Number.real x).isAtLeast bound = true) : (Number.real x).IsReadable := by
  intro hx
  rw [isAtLeast, magnitude, hx] at h
  exact absurd h nofun

theorem Number.isReadable_of_isAbove {x : Float} {bound : Int}
    (h : (Number.real x).isAbove bound = true) : (Number.real x).IsReadable := by
  intro hx
  rw [isAbove, magnitude, hx] at h
  exact absurd h nofun

theorem Number.isTrue_int_iff (k : Int) : (Number.int k).isTrue = true ↔ k ≠ 0 := by
  rw [isTrue, isAtMost, isAtLeast, magnitude, Bool.not_eq_true', ← Bool.decide_and,
    decide_eq_false_iff_not]
  exact not_congr (by omega)

theorem IsWord.readable {n : Int} (h : IsWord n) :
    (Number.int n).IsReadable ∧ Config.isWritable (.int n) = true := by
  obtain ⟨hlow, hhigh⟩ := h
  have hheld : Config.IsHeld n := ⟨le_trans (by decide) hlow, hhigh.trans (by decide)⟩
  exact ⟨hheld.isReadable, Config.isWritable_int_iff.mpr hheld⟩

namespace Config

variable {c : Config}

theorem IsTyped.readable (h : c.IsTyped) {n : Number} (hn : n ∈ c.numbers) :
    n.IsReadable ∧ isWritable n = true := by
  obtain ⟨k, hmaxCount, hk⟩ := h.maxCount
  obtain ⟨x, hepsilon⟩ := h.epsilon
  obtain ⟨y, heta⟩ := h.eta
  obtain ⟨b, hverbose⟩ := h.verbose
  obtain ⟨z, hdiffStep⟩ := h.diffStep
  have hx := c.damping.stopping.epsilon_ok
  have hy := c.damping.eta_ok
  have hz := c.differencing.diffStep_ok
  rw [hepsilon] at hx
  rw [heta] at hy
  rw [hdiffStep] at hz
  simp only [numbers, List.mem_append, List.mem_cons, List.not_mem_nil, or_false,
    Option.mem_toList, hmaxCount, hepsilon, heta, hverbose, hdiffStep, Option.some_inj] at hn
  obtain (((((rfl | rfl) | hn) | rfl) | rfl) | rfl) | hn := hn
  · exact hk.readable
  · exact ⟨Number.isReadable_of_isAtLeast hx, rfl⟩
  · obtain ⟨w, rfl⟩ := h.initialLambda n hn
    have hw := c.damping.initialLambda_ok
    rw [Option.mem_def.mp hn] at hw
    exact ⟨Number.isReadable_of_isAtLeast hw, rfl⟩
  · exact ⟨Number.isReadable_of_isAbove hy, rfl⟩
  · exact ⟨trivial, rfl⟩
  · exact ⟨Number.isReadable_of_isAbove hz, rfl⟩
  · obtain ⟨w, rfl, hw⟩ := h.threads n hn
    exact hw.readable

theorem toLambda_lambdaValue {lambda : Option Number} (h : ∀ l ∈ lambda, ∃ x, l = .real x) :
    toLambda (lambdaValue lambda) = .ok lambda := by
  cases lambda with
  | none => rfl
  | some l =>
    obtain ⟨x, rfl⟩ := h l rfl
    rfl

/-- No number of workers is read from zero. -/
theorem toWhole_threadsValue {threads : Option Number}
    (h : ∀ n ∈ threads, ∃ k, n = .int k ∧ IsWord k) :
    ∃ k, toWhole (threadsValue threads) = .ok k ∧
      (if k = 0 then none else some (Number.int k)) = threads.filter (·.isTrue) := by
  cases threads with
  | none => exact ⟨0, rfl, rfl⟩
  | some n =>
    obtain ⟨k, rfl, -⟩ := h n rfl
    rw [threadsValue, Option.filter_some]
    by_cases hk : k = 0
    · have hfalse : ¬(Number.int k).isTrue = true := fun h ↦ (Number.isTrue_int_iff k).mp h hk
      rw [if_neg hfalse, if_neg hfalse]
      exact ⟨0, rfl, rfl⟩
    · have htrue : (Number.int k).isTrue = true := (Number.isTrue_int_iff k).mpr hk
      rw [if_pos htrue, if_pos htrue]
      exact ⟨k, rfl, if_neg hk⟩

theorem IsTyped.ofEntries_document (h : c.IsTyped) : ofEntries c.document = .ok c.withoutZero := by
  obtain ⟨n, hmaxCount, -⟩ := h.maxCount
  obtain ⟨x, hepsilon⟩ := h.epsilon
  obtain ⟨y, heta⟩ := h.eta
  obtain ⟨b, hverbose⟩ := h.verbose
  obtain ⟨z, hdiffStep⟩ := h.diffStep
  obtain ⟨k, hk, hthreads⟩ := toWhole_threadsValue h.threads
  have hstopping := Stopping.make_eq c.damping.stopping
  have hdamping := Damping.make_eq c.damping
  have hdifferencing : Differencing.make (some c.differencing.diffStep)
      (c.differencing.threads.filter (·.isTrue)) = .ok c.differencing.withoutZero :=
    Differencing.make_eq c.differencing.withoutZero
  rw [hmaxCount, hepsilon] at hstopping
  rw [heta, hverbose] at hdamping
  rw [← hthreads, hdiffStep] at hdifferencing
  rw [Config.ofEntries_document, hmaxCount, hepsilon, toLambda_lambdaValue h.initialLambda, heta,
    hverbose, hdiffStep, hk]
  simp only [Number.value, toWhole, toReal, verboseValue, toTruth, bind, Except.bind, pure,
    Except.pure, Except.mapError, hstopping, hdamping, hdifferencing]
  rfl

/-! ## The file -/

theorem IsTyped.render? (h : c.IsTyped) : c.render? = some c.render :=
  if_pos (List.all_eq_true.mpr fun _ hn ↦ (h.readable hn).2)

theorem IsTyped.save (h : c.IsTyped) (f : ConfigFile) :
    f.save c = (ConfigFile.ofText c.render, .ok ()) := by
  rw [ConfigFile.save, h.render?]

theorem IsTyped.load (h : c.IsTyped) :
    (ConfigFile.ofText c.render).load = .ok c.withoutZero := by
  have hreads := isFormat.reads h.render? fun _ hx ↦ (h.readable hx).1
  rw [← h.ofEntries_document, ConfigFile.load, ConfigFile.ofText]
  simp only [ofOctets, Text.decodeUtf8_toUTF8, hreads]

theorem IsTyped.withoutZero (h : c.IsTyped) : c.withoutZero.IsTyped where
  maxCount := h.maxCount
  epsilon := h.epsilon
  initialLambda := h.initialLambda
  eta := h.eta
  verbose := h.verbose
  diffStep := h.diffStep
  threads n hn := h.threads n (Option.mem_filter_iff.mp hn).1

end Config

theorem Differencing.withoutZero_eq_self {d : Differencing}
    (h : ∀ n ∈ d.threads, n.isTrue = true) : d.withoutZero = d := by
  obtain ⟨diffStep, threads, hstep, hthreads⟩ := d
  have hfilter : threads.filter (·.isTrue) = threads := by
    cases threads with
    | none => rfl
    | some n => rw [Option.filter_some, if_pos (h n rfl)]
  simp only [withoutZero, hfilter]

/-- **A file gives back the settings that are saved in it.** A number of workers that is zero comes
back as none, which means the same. What comes back is saved in the same octets again. -/
theorem ConfigFile.load_save {c : Config} (h : c.IsTyped) (f g : ConfigFile) :
    ∃ file c', f.save c = (file, .ok ()) ∧ file.load = .ok c' ∧ g.save c' = (file, .ok ()) ∧
      (c.differencing.threads ≠ some (.int 0) → c' = c) ∧
      (c.differencing.threads = some (.int 0) → c'.damping = c.damping ∧
        c'.differencing.diffStep = c.differencing.diffStep ∧ c'.differencing.threads = none) ∧
      ∀ host, c'.differencing.workers host = c.differencing.workers host := by
  refine ⟨ofText c.render, c.withoutZero, h.save f, h.load, ?_, fun hthreads ↦ ?_,
    fun hthreads ↦ ⟨rfl, rfl, ?_⟩, c.differencing.workers_withoutZero⟩
  · rw [← c.render_withoutZero]
    exact h.withoutZero.save g
  · have htrue : ∀ n ∈ c.differencing.threads, n.isTrue = true := by
      intro n hn
      obtain ⟨k, rfl, -⟩ := h.threads n hn
      refine (Number.isTrue_int_iff k).mpr fun hk ↦ hthreads ?_
      rw [← hk]
      exact hn
    exact congrArg (Config.mk c.damping) (Differencing.withoutZero_eq_self htrue)
  · change c.differencing.threads.filter (·.isTrue) = none
    rw [hthreads]
    rfl

theorem Number.isAtLeast_infinite :
    (some (Number.real (1 / 0))).all (·.isAtLeast 0) = true := by
  decide +kernel

/-- Settings with a damping beyond every number and no workers. -/
def Config.unbounded : Config where
  damping := {
    stopping := { maxCount_ok := rfl, epsilon_ok := rfl }
    initialLambda := some (.real (1 / 0))
    eta_ok := rfl
    initialLambda_ok := Number.isAtLeast_infinite }
  differencing := { threads := some (.int 0), diffStep_ok := rfl, threads_ok := rfl }

theorem Config.unbounded_isTyped : Config.unbounded.IsTyped where
  maxCount := ⟨100, rfl, by decide, by decide⟩
  epsilon := ⟨_, rfl⟩
  initialLambda lambda h := ⟨_, (Option.some_inj.mp h).symm⟩
  eta := ⟨_, rfl⟩
  verbose := ⟨false, rfl⟩
  diffStep := ⟨_, rfl⟩
  threads n h := ⟨0, (Option.some_inj.mp h).symm, by decide, by decide⟩

/-- Saved and loaded, they leave the number of workers to the host. -/
theorem ConfigFile.load_save_unbounded : Config.unbounded.IsTyped ∧
    ∃ file c', missing.save Config.unbounded = (file, .ok ()) ∧ file.load = .ok c' ∧
      c'.differencing.threads = none := by
  refine ⟨Config.unbounded_isTyped, ?_⟩
  obtain ⟨file, c', hsave, hload, -, -, hzero, -⟩ :=
    load_save Config.unbounded_isTyped missing missing
  exact ⟨file, c', hsave, hload, (hzero rfl).2.2⟩

end DampedLeastSquares
