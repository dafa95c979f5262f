import DampedLeastSquares.Config.Reading
import DampedLeastSquares.Proofs.Config.Magnitudes

/-!
# Settings key by key

Settings are read in one go, in which values are converted and ranges are checked by turns, and the
first fault ends it. Here the reading is taken apart. A `Key` is what is known of one setting: where
its value stands, what the value is converted to, what it is without one, and what is refused. The
`order` is the list of all that can go wrong. Each `Step` in it looks at a single key or a single
table and at nothing that was read before, so a document is settings exactly if no step fails, and
otherwise its fault is that of the first step that does.

What follows is that each setting is what its own key says, and that nothing else in a document has
a say.
-/

namespace DampedLeastSquares.Config

open Toml (Value Entries)

/-! ## Keys -/

/-- A setting in a document. -/
structure Key where
  /-- The table that the key is in. -/
  table : String
  /-- The key. -/
  name : String
  /-- What a value is converted to. -/
  convert : Value → Except ConfigFault (Option Number)
  /-- What is taken without a value. -/
  default : Option Number
  /-- The refusal of a number that is not in range. -/
  refusal? : Number → Option SettingFault
  /-- The setting among all. -/
  get : Config → Option Number

namespace Key

/-- The most updates. -/
def maxIterations : Key where
  table := "solver"
  name := "max_iterations"
  convert v := (toWhole v).map fun n ↦ some (.int n)
  default := some (.int 100)
  refusal? n := if n.isBelow 1 = false then none else some (.maxCount n)
  get c := some c.damping.stopping.maxCount

/-- The ratio at which progress is too small. -/
def epsilon : Key where
  table := "solver"
  name := "epsilon"
  convert v := (toReal v).map fun x ↦ some (.real x)
  default := some (.real 1e-6)
  refusal? n := if n.isAtLeast 0 = true then none else some (.epsilon n)
  get c := some c.damping.stopping.epsilon

/-- The first damping. -/
def lambda : Key where
  table := "solver"
  name := "lambda"
  convert := toLambda
  default := none
  refusal? n := if n.isAtLeast 0 = true then none else some (.initialLambda n)
  get c := c.damping.initialLambda

/-- The factor by which damping grows. -/
def eta : Key where
  table := "solver"
  name := "eta"
  convert v := (toReal v).map fun x ↦ some (.real x)
  default := some (.real 10)
  refusal? n := if n.isAbove 1 = true then none else some (.eta n)
  get c := some c.damping.eta

/-- Whether progress is reported. -/
def verbose : Key where
  table := "solver"
  name := "verbose"
  convert v := .ok (some (.truth (toTruth v)))
  default := some (.truth false)
  refusal? _ := none
  get c := c.damping.verbose

/-- The step of a difference quotient. -/
def diffStep : Key where
  table := "jacobian"
  name := "diff_step"
  convert v := (toReal v).map fun x ↦ some (.real x)
  default := some (.real 1e-3)
  refusal? n := if n.isAbove 0 = true then none else some (.diffStep n)
  get c := some c.differencing.diffStep

/-- The number of workers, where zero stands for none. -/
def threads : Key where
  table := "jacobian"
  name := "threads"
  convert v := (toWhole v).map fun n ↦ if n = 0 then none else some (.int n)
  default := none
  refusal? n := if (!n.isBelow 0) = true then none else some (.threads n)
  get c := c.differencing.threads

/-- The keys of all settings. -/
def all : List Key := [maxIterations, epsilon, lambda, eta, verbose, diffStep, threads]

/-- The value of a key in a document. Without its table it has none. -/
def value? (k : Key) (document : Entries) : Option Value :=
  match document.get? k.table with
  | some (.table entries) => Entries.get? entries k.name
  | _ => none

/-- What the value of a key is converted to. -/
def converted (k : Key) : Option Value → Except ConfigFault (Option Number)
  | none => .ok k.default
  | some v => k.convert v

/-- What the value of a key makes of its setting. -/
def read (k : Key) (value? : Option Value) : Except ConfigFault (Option Number) := do
  let n? ← k.converted value?
  match n?.bind k.refusal? with
  | none => .ok n?
  | some fault => .error (.setting fault)

end Key

/-! ## Steps -/

/-- Something that can go wrong while settings are read. -/
inductive Step
  /-- A section may be no table. -/
  | table (name : String)
  /-- A value may not convert to its setting. -/
  | convert (key : Key)
  /-- A setting may not be in its range. -/
  | check (key : Key)

/-- The tables of the settings. -/
def tables : List String := ["solver", "jacobian"]

/-- The fault of a section that is no table. -/
def tableFault? (document : Entries) (name : String) : Option ConfigFault :=
  match document.get? name with
  | none | some (.table _) => none
  | some v => some (.noTable (typeName v))

/-- The fault of a step. A value that does not convert is not checked. -/
def Step.fault? (document : Entries) : Step → Option ConfigFault
  | table name => tableFault? document name
  | convert k =>
    match k.converted (k.value? document) with
    | .error fault => some fault
    | .ok _ => none
  | check k =>
    match k.converted (k.value? document) with
    | .error _ => none
    | .ok n? => (n?.bind k.refusal?).map .setting

/-- The steps in the order in which they are taken. -/
def order : List Step :=
  [.table "solver", .convert .maxIterations, .convert .epsilon, .check .maxIterations,
    .check .epsilon, .convert .lambda, .convert .eta, .convert .verbose, .check .eta,
    .check .lambda, .table "jacobian", .convert .threads, .convert .diffStep, .check .diffStep,
    .check .threads]

/-- The fault of the first step that fails. -/
def firstFault? (document : Entries) (steps : List Step) : Option ConfigFault :=
  steps.findSome? (·.fault? document)

theorem forall_mem_order {p : Step → Prop} (htable : ∀ name ∈ tables, p (.table name))
    (hconvert : ∀ k ∈ Key.all, p (.convert k)) (hcheck : ∀ k ∈ Key.all, p (.check k)) :
    ∀ s ∈ order, p s := by
  simp only [tables, Key.all, List.forall_mem_cons] at htable hconvert hcheck
  simp only [order, List.forall_mem_cons]
  grind

/-! ## Settings as numbers -/

theorem eq_of_get {c c' : Config} (h : ∀ k ∈ Key.all, k.get c = k.get c') : c = c' := by
  obtain ⟨⟨⟨maxCount, epsilon, _, _⟩, lambda, eta, verbose, _, _⟩, ⟨diffStep, threads, _, _⟩⟩ := c
  obtain ⟨⟨⟨maxCount', epsilon', _, _⟩, lambda', eta', verbose', _, _⟩,
    ⟨diffStep', threads', _, _⟩⟩ := c'
  simp only [Key.all, List.forall_mem_cons] at h
  obtain ⟨hmaxCount, hepsilon, hlambda, heta, hverbose, hdiffStep, hthreads, -⟩ := h
  obtain rfl : maxCount = maxCount' := Option.some.inj hmaxCount
  obtain rfl : epsilon = epsilon' := Option.some.inj hepsilon
  obtain rfl : lambda = lambda' := hlambda
  obtain rfl : eta = eta' := Option.some.inj heta
  obtain rfl : verbose = verbose' := hverbose
  obtain rfl : diffStep = diffStep' := Option.some.inj hdiffStep
  obtain rfl : threads = threads' := hthreads
  rfl

theorem default_eq {k : Key} (h : k ∈ Key.all) : k.default = k.get {} := by
  simp only [Key.all, List.mem_cons, List.not_mem_nil, or_false] at h
  rcases h with rfl | rfl | rfl | rfl | rfl | rfl | rfl <;> rfl

/-! ## Taking the steps -/

section

variable {document : Entries} {α β : Type}

/-- A computation takes some steps of reading: it has the fault of the first that fails, or a result
of which something is known. -/
def Takes (document : Entries) (steps : List Step) (e : Except ConfigFault α) (known : α → Prop) :
    Prop :=
  match firstFault? document steps with
  | some fault => e = .error fault
  | none => ∃ a, e = .ok a ∧ known a

variable {s : Step} {steps later : List Step} {e : Except ConfigFault α} {known : α → Prop}

theorem takes_ok {a : α} (h : known a) : Takes document [] (.ok a) known := ⟨a, rfl, h⟩

theorem takes_of_fault?_eq_none (hs : s.fault? document = none)
    (h : Takes document later e known) : Takes document (s :: later) e known := by
  rw [Takes, firstFault?, List.findSome?_cons, hs]
  exact h

theorem takes_of_fault?_eq_some {fault : ConfigFault} (hs : s.fault? document = some fault) :
    Takes document (s :: later) (.error fault : Except ConfigFault α) known := by
  rw [Takes, firstFault?, List.findSome?_cons, hs]

/-- Computations one after the other take their steps one after the other. -/
theorem Takes.bind {f : α → Except ConfigFault β} {known' : β → Prop}
    (h : Takes document steps e known) (hf : ∀ a, known a → Takes document later (f a) known') :
    Takes document (steps ++ later) (e >>= f) known' := by
  rw [Takes, firstFault?, List.findSome?_append]
  rw [Takes, firstFault?] at h
  cases hfirst : steps.findSome? (·.fault? document) with
  | some fault =>
    rw [hfirst] at h
    exact congrArg (· >>= f) h
  | none =>
    rw [hfirst] at h
    obtain ⟨a, rfl, hknown⟩ := h
    exact hf a hknown

theorem Takes.map {f : α → β} {known' : β → Prop} (h : Takes document steps e known)
    (hf : ∀ a, known a → known' (f a)) :
    Takes document steps (e >>= fun a ↦ pure (f a)) known' :=
  steps.append_nil ▸ h.bind fun a ha ↦ takes_ok (hf a ha)

/-! ### Tables and values -/

theorem takes_section (document : Entries) (name : String) :
    Takes document [.table name] (section? document name)
      fun entries ↦ ∀ k : Key, k.table = name → entries.get? k.name = k.value? document := by
  rw [section?]
  cases hname : document.get? name with
  | none =>
    refine takes_of_fault?_eq_none (by rw [Step.fault?, tableFault?, hname]) (takes_ok ?_)
    intro k hk
    rw [Key.value?, hk, hname]
    rfl
  | some v =>
    cases v with
    | table entries =>
      refine takes_of_fault?_eq_none (by rw [Step.fault?, tableFault?, hname]) (takes_ok ?_)
      intro k hk
      rw [Key.value?, hk, hname]
    | _ => exact takes_of_fault?_eq_some (by rw [Step.fault?, tableFault?, hname])

theorem takes_read {k : Key} (number : α → Option Number) {entries : Entries}
    {convert : Value → Except ConfigFault α} {default : α}
    (hentries : entries.get? k.name = k.value? document)
    (hconvert : ∀ v, k.convert v = (convert v).map number) (hdefault : k.default = number default) :
    Takes document [.convert k] (Config.read entries k.name convert default)
      fun a ↦ k.converted (k.value? document) = .ok (number a) := by
  rw [Config.read, hentries]
  cases hvalue : k.value? document with
  | none =>
    have hconverted : k.converted none = .ok (number default) := congrArg Except.ok hdefault
    exact takes_of_fault?_eq_none (by rw [Step.fault?, hvalue, hconverted]) (takes_ok hconverted)
  | some v =>
    have hconverted : k.converted (some v) = (convert v).map number := hconvert v
    change Takes document _ (convert v) _
    cases hv : convert v with
    | error fault =>
      have hfails : (Step.convert k).fault? document = some fault := by
        rw [Step.fault?, hvalue, hconverted, hv]
        rfl
      exact takes_of_fault?_eq_some hfails
    | ok a =>
      rw [hv] at hconverted
      have hpasses : (Step.convert k).fault? document = none := by
        rw [Step.fault?, hvalue, hconverted]
        rfl
      exact takes_of_fault?_eq_none hpasses (takes_ok hconverted)

/-! ### Ranges -/

theorem fault?_check {k : Key} {n? : Option Number}
    (h : k.converted (k.value? document) = .ok n?) :
    (Step.check k).fault? document = (n?.bind k.refusal?).map .setting := by
  rw [Step.fault?, h]

theorem takes_check {k : Key} {n : Number} {p : Prop} [Decidable p] {fault : SettingFault}
    {next : p → Except SettingFault α} (h : k.converted (k.value? document) = .ok (some n))
    (hrefusal : k.refusal? n = if p then none else some fault)
    (hnext : ∀ hp, Takes document later ((next hp).mapError .setting) known) :
    Takes document (.check k :: later)
      ((if hp : p then next hp else .error fault).mapError .setting) known := by
  have hfault := fault?_check h
  rw [Option.bind_some, hrefusal] at hfault
  by_cases hp : p
  · rw [if_pos hp] at hfault
    rw [dif_pos hp]
    exact takes_of_fault?_eq_none hfault (hnext hp)
  · rw [if_neg hp] at hfault
    rw [dif_neg hp]
    exact takes_of_fault?_eq_some hfault

theorem takes_check_none {k : Key} (h : k.converted (k.value? document) = .ok none)
    (hlater : Takes document later e known) : Takes document (.check k :: later) e known :=
  takes_of_fault?_eq_none (fault?_check h) hlater

theorem takes_stopping {n : Int} {x : Float}
    (hn : Key.maxIterations.converted (Key.maxIterations.value? document) = .ok (some (.int n)))
    (hx : Key.epsilon.converted (Key.epsilon.value? document) = .ok (some (.real x))) :
    Takes document [.check .maxIterations, .check .epsilon]
      ((Stopping.make (some (.int n)) (some (.real x))).mapError .setting)
      fun s ↦ s.maxCount = .int n ∧ s.epsilon = .real x :=
  takes_check hn rfl fun _ ↦ takes_check hx rfl fun _ ↦ takes_ok ⟨rfl, rfl⟩

theorem takes_damping {stopping : Stopping} {lambda : Option Number} {x : Float} {b : Bool}
    (hlambda : Key.lambda.converted (Key.lambda.value? document) = .ok lambda)
    (hx : Key.eta.converted (Key.eta.value? document) = .ok (some (.real x))) :
    Takes document [.check .eta, .check .lambda]
      ((Damping.make stopping lambda (some (.real x)) (some (.truth b))).mapError .setting)
      fun d ↦ d.stopping = stopping ∧ d.initialLambda = lambda ∧ d.eta = .real x ∧
        d.verbose = some (.truth b) := by
  cases lambda with
  | none =>
    exact takes_check hx rfl fun _ ↦ takes_check_none hlambda (takes_ok ⟨rfl, rfl, rfl, rfl⟩)
  | some n =>
    exact takes_check hx rfl fun _ ↦ takes_check hlambda rfl fun _ ↦
      takes_ok ⟨rfl, rfl, rfl, rfl⟩

theorem takes_differencing {threads : Option Number} {x : Float}
    (hx : Key.diffStep.converted (Key.diffStep.value? document) = .ok (some (.real x)))
    (hthreads : Key.threads.converted (Key.threads.value? document) = .ok threads) :
    Takes document [.check .diffStep, .check .threads]
      ((Differencing.make (some (.real x)) threads).mapError .setting)
      fun d ↦ d.diffStep = .real x ∧ d.threads = threads := by
  cases threads with
  | none => exact takes_check hx rfl fun _ ↦ takes_check_none hthreads (takes_ok ⟨rfl, rfl⟩)
  | some n =>
    exact takes_check hx rfl fun _ ↦ takes_check hthreads rfl fun _ ↦ takes_ok ⟨rfl, rfl⟩

/-! ### All settings -/

/-- **Reading settings takes the steps in their order**, and each setting is what the value of its
key is converted to. -/
theorem takes_ofEntries (document : Entries) :
    Takes document order (ofEntries document)
      fun c ↦ ∀ k ∈ Key.all, k.converted (k.value? document) = .ok (k.get c) := by
  have hid (v : Value) : toLambda v = (toLambda v).map id := by cases toLambda v <;> rfl
  refine (takes_section document "solver").bind fun solver hsolver ↦ ?_
  refine (takes_read (fun n ↦ some (.int n)) (hsolver .maxIterations rfl) (fun _ ↦ rfl) rfl).bind
    fun n hn ↦ ?_
  refine (takes_read (fun x ↦ some (.real x)) (hsolver .epsilon rfl) (fun _ ↦ rfl) rfl).bind
    fun x hx ↦ ?_
  refine (takes_stopping hn hx).bind fun stopping ⟨hmaxCount, hepsilon⟩ ↦ ?_
  refine (takes_read id (hsolver .lambda rfl) hid rfl).bind fun lambda hlambda ↦ ?_
  refine (takes_read (fun x ↦ some (.real x)) (hsolver .eta rfl) (fun _ ↦ rfl) rfl).bind
    fun y hy ↦ ?_
  refine (takes_read (fun b ↦ some (.truth b)) (hsolver .verbose rfl) (fun _ ↦ rfl) rfl).bind
    fun b hb ↦ ?_
  refine (takes_damping hlambda hy).bind fun damping ⟨hstopping, hfirst, heta, hverbose⟩ ↦ ?_
  refine (takes_section document "jacobian").bind fun jacobian hjacobian ↦ ?_
  refine (takes_read (fun k ↦ if k = 0 then none else some (.int k)) (hjacobian .threads rfl)
    (fun _ ↦ rfl) rfl).bind fun k hk ↦ ?_
  refine (takes_read (fun x ↦ some (.real x)) (hjacobian .diffStep rfl) (fun _ ↦ rfl) rfl).bind
    fun z hz ↦ ?_
  refine (takes_differencing hz hk).map fun differencing ⟨hdiffStep, hthreads⟩ ↦ ?_
  subst hstopping hfirst
  rw [← hthreads] at hk
  rw [← hmaxCount] at hn
  rw [← hepsilon] at hx
  rw [← heta] at hy
  rw [← hverbose] at hb
  rw [← hdiffStep] at hz
  simp only [Key.all, List.forall_mem_cons]
  exact ⟨hn, hx, hlambda, hy, hb, hz, hk, nofun⟩

theorem ofEntries_eq_ok_iff {c : Config} : ofEntries document = .ok c ↔
    firstFault? document order = none ∧
      ∀ k ∈ Key.all, k.converted (k.value? document) = .ok (k.get c) := by
  have h := takes_ofEntries document
  rw [Takes] at h
  cases hfirst : firstFault? document order with
  | some fault =>
    simp only [hfirst] at h
    rw [h]
    exact ⟨nofun, fun h ↦ nomatch h.1⟩
  | none =>
    simp only [hfirst] at h
    obtain ⟨c', hc', hkeys⟩ := h
    rw [hc']
    refine ⟨fun hc ↦ Except.ok.inj hc ▸ ⟨rfl, hkeys⟩, fun hc ↦ congrArg _ (eq_of_get ?_)⟩
    exact fun k hk ↦ Except.ok.inj ((hkeys k hk).symm.trans (hc.2 k hk))

theorem ofEntries_eq_error_iff {fault : ConfigFault} :
    ofEntries document = .error fault ↔ firstFault? document order = some fault := by
  have h := takes_ofEntries document
  rw [Takes] at h
  cases hfirst : firstFault? document order with
  | some fault' =>
    simp only [hfirst] at h
    rw [h, Except.error.injEq, Option.some.injEq]
  | none =>
    simp only [hfirst] at h
    obtain ⟨c, hc, -⟩ := h
    rw [hc]
    exact ⟨nofun, nofun⟩

/-! ## One key at a time -/

theorem read_eq_ok_iff {k : Key} {value? : Option Value} {n? : Option Number} :
    k.read value? = .ok n? ↔ k.converted value? = .ok n? ∧ n?.bind k.refusal? = none := by
  rw [Key.read]
  cases k.converted value? with
  | error fault => exact ⟨nofun, fun h ↦ nomatch h.1⟩
  | ok m? =>
    change (match m?.bind k.refusal? with
      | none => Except.ok m?
      | some fault => .error (ConfigFault.setting fault)) = .ok n? ↔ _
    cases hrefusal : m?.bind k.refusal? with
    | none =>
      refine ⟨fun h ↦ ⟨h, Except.ok.inj h ▸ hrefusal⟩, fun h ↦ h.1⟩
    | some fault =>
      refine ⟨nofun, fun ⟨hn, hnone⟩ ↦ ?_⟩
      rw [← Except.ok.inj hn, hrefusal] at hnone
      exact nomatch hnone

theorem refusal?_get (c : Config) {k : Key} (h : k ∈ Key.all) :
    (k.get c).bind k.refusal? = none := by
  have hlambda := c.damping.initialLambda_ok
  have hthreads := c.differencing.threads_ok
  simp only [Key.all, List.mem_cons, List.not_mem_nil, or_false] at h
  rcases h with rfl | rfl | rfl | rfl | rfl | rfl | rfl
  · exact if_pos c.damping.stopping.maxCount_ok
  · exact if_pos c.damping.stopping.epsilon_ok
  · change c.damping.initialLambda.bind _ = none
    cases hn : c.damping.initialLambda with
    | none => rfl
    | some n => exact if_pos (by rwa [hn] at hlambda)
  · exact if_pos c.damping.eta_ok
  · change c.damping.verbose.bind _ = none
    cases c.damping.verbose <;> rfl
  · exact if_pos c.differencing.diffStep_ok
  · change c.differencing.threads.bind _ = none
    cases hn : c.differencing.threads with
    | none => rfl
    | some n => exact if_pos (by rwa [hn] at hthreads)

/-- A document is settings exactly if its sections are tables and each key makes its own setting. -/
theorem ofEntries_eq_ok_iff_read {c : Config} : ofEntries document = .ok c ↔
    (∀ name ∈ tables, tableFault? document name = none) ∧
      ∀ k ∈ Key.all, k.read (k.value? document) = .ok (k.get c) := by
  rw [ofEntries_eq_ok_iff, firstFault?, List.findSome?_eq_none_iff]
  constructor
  · rintro ⟨hsteps, hkeys⟩
    refine ⟨fun name hname ↦ hsteps (.table name) ?_, fun k hk ↦ ?_⟩
    · simp only [tables, List.mem_cons, List.not_mem_nil, or_false] at hname
      rcases hname with rfl | rfl <;> simp [order]
    · exact read_eq_ok_iff.mpr ⟨hkeys k hk, refusal?_get c hk⟩
  · rintro ⟨htables, hkeys⟩
    have hconverted (k) (hk : k ∈ Key.all) := (read_eq_ok_iff.mp (hkeys k hk)).1
    refine ⟨forall_mem_order htables (fun k hk ↦ ?_) (fun k hk ↦ ?_), hconverted⟩
    · rw [Step.fault?, hconverted k hk]
    · rw [fault?_check (hconverted k hk), (read_eq_ok_iff.mp (hkeys k hk)).2]
      rfl

theorem firstFault?_congr {document' : Entries}
    (h : ∀ s ∈ steps, s.fault? document = s.fault? document') :
    firstFault? document steps = firstFault? document' steps := by
  rw [firstFault?, firstFault?, ← List.head?_filterMap, ← List.head?_filterMap,
    List.filterMap_congr h]

/-- Only the seven keys have a say, and which of the sections is no table. -/
theorem ofEntries_congr {document' : Entries}
    (htables : ∀ name ∈ tables, tableFault? document name = tableFault? document' name)
    (hkeys : ∀ k ∈ Key.all, k.value? document = k.value? document') :
    ofEntries document = ofEntries document' := by
  have hsteps : ∀ s ∈ order, s.fault? document = s.fault? document' := by
    refine forall_mem_order htables (fun k hk ↦ ?_) (fun k hk ↦ ?_)
    · rw [Step.fault?, Step.fault?, hkeys k hk]
    · rw [Step.fault?, Step.fault?, hkeys k hk]
  have hfirst := firstFault?_congr hsteps
  cases hdocument : ofEntries document with
  | error fault =>
    rw [ofEntries_eq_error_iff, hfirst, ← ofEntries_eq_error_iff] at hdocument
    exact hdocument.symm
  | ok c =>
    rw [ofEntries_eq_ok_iff, hfirst] at hdocument
    refine (ofEntries_eq_ok_iff.mpr ⟨hdocument.1, fun k hk ↦ ?_⟩).symm
    rw [← hkeys k hk]
    exact hdocument.2 k hk

theorem get_eq_of_value?_eq_none {c : Config} (h : ofEntries document = .ok c) {k : Key}
    (hk : k ∈ Key.all) (hnone : k.value? document = none) : k.get c = k.get {} := by
  have hconverted := (ofEntries_eq_ok_iff.mp h).2 k hk
  rw [hnone] at hconverted
  rw [← Except.ok.inj hconverted, default_eq hk]

/-! ## Ranges -/

/-- Settings that a document can give: counts that are whole numbers, a truth value, and floats that
have a place on the line, all of them in range. -/
structure InRange (c : Config) : Prop where
  /-- There is at least one update. -/
  maxCount : ∃ n : Int, c.damping.stopping.maxCount = .int n ∧ 1 ≤ n
  /-- The ratio at which progress is too small is zero or more. -/
  epsilon : c.damping.stopping.epsilon.IsFloatIn (Set.Ici 0)
  /-- The first damping, if given, is zero or more. -/
  initialLambda : ∀ lambda ∈ c.damping.initialLambda, lambda.IsFloatIn (Set.Ici 0)
  /-- Damping grows. -/
  eta : c.damping.eta.IsFloatIn (Set.Ioi 1)
  /-- Progress is reported or not. -/
  verbose : ∃ b, c.damping.verbose = some (.truth b)
  /-- There is a step. -/
  diffStep : c.differencing.diffStep.IsFloatIn (Set.Ioi 0)
  /-- There is at least one worker, if their number is given. -/
  threads : ∀ n ∈ c.differencing.threads, ∃ k : Int, n = .int k ∧ 1 ≤ k

theorem exists_of_map_eq_ok {ε : Type} {e : Except ε α} {f : α → β} {b : β}
    (h : e.map f = .ok b) : ∃ a, f a = b := by
  cases e with
  | error fault => exact nomatch h
  | ok a => exact ⟨a, Except.ok.inj h⟩

theorem exists_of_converted {k : Key} (number : α → Option Number)
    {convert : Value → Except ConfigFault α} {default : α}
    (hconvert : ∀ v, k.convert v = (convert v).map number) (hdefault : k.default = number default)
    {value? : Option Value} {n? : Option Number} (h : k.converted value? = .ok n?) :
    ∃ a, number a = n? := by
  cases value? with
  | none => exact ⟨default, hdefault ▸ Except.ok.inj h⟩
  | some v => exact exists_of_map_eq_ok ((hconvert v).symm.trans h)

theorem exists_real_of_converted {k : Key} {default : Float}
    (hconvert : ∀ v, k.convert v = (toReal v).map fun x ↦ some (.real x))
    (hdefault : k.default = some (.real default)) {value? : Option Value} {n : Number}
    (h : k.converted value? = .ok (some n)) : ∃ x, n = .real x := by
  obtain ⟨x, hx⟩ := exists_of_converted (fun x ↦ some (Number.real x)) hconvert hdefault h
  exact ⟨x, (Option.some.inj hx).symm⟩

theorem exists_of_toLambda {v : Value} {n : Number} (h : toLambda v = .ok (some n)) :
    ∃ x, n = .real x := by
  rw [toLambda.eq_def] at h
  split at h
  · split at h <;> cases h
  · obtain ⟨x, hx⟩ := exists_of_map_eq_ok h
    exact ⟨x, (Option.some.inj hx).symm⟩

theorem inRange_of_ofEntries {c : Config} (h : ofEntries document = .ok c) : c.InRange := by
  obtain ⟨-, hkeys⟩ := ofEntries_eq_ok_iff.mp h
  simp only [Key.all, List.forall_mem_cons] at hkeys
  obtain ⟨hmaxCount, hepsilon, hlambda, heta, hverbose, hdiffStep, hthreads, -⟩ := hkeys
  have hzero : (((0 : Int) : ℝ) : EReal) = 0 := by simp
  have hone : (((1 : Int) : ℝ) : EReal) = 1 := by simp
  constructor
  case maxCount =>
    obtain ⟨n, hn⟩ := exists_of_converted (fun n ↦ some (.int n)) (fun _ ↦ rfl) rfl hmaxCount
    have hrange := c.damping.stopping.maxCount_ok
    rw [← Option.some.inj hn] at hrange
    exact ⟨n, (Option.some.inj hn).symm, not_lt.mp (of_decide_eq_false hrange)⟩
  case epsilon =>
    exact hzero ▸ .of_isAtLeast (exists_real_of_converted (fun _ ↦ rfl) rfl hepsilon)
      c.damping.stopping.epsilon_ok
  case initialLambda =>
    intro lambda hsome
    have hrange := c.damping.initialLambda_ok
    change Key.lambda.converted _ = .ok c.damping.initialLambda at hlambda
    rw [Option.mem_def.mp hsome] at hrange hlambda
    refine hzero ▸ .of_isAtLeast ?_ hrange
    cases hvalue : Key.lambda.value? document with
    | none => exact nomatch hvalue ▸ hlambda
    | some v => exact exists_of_toLambda (hvalue ▸ hlambda)
  case eta =>
    exact hone ▸ .of_isAbove (exists_real_of_converted (fun _ ↦ rfl) rfl heta) c.damping.eta_ok
  case verbose =>
    cases hvalue : Key.verbose.value? document with
    | none => exact ⟨_, (Except.ok.inj (hvalue ▸ hverbose)).symm⟩
    | some v => exact ⟨_, (Except.ok.inj (hvalue ▸ hverbose)).symm⟩
  case diffStep =>
    exact hzero ▸ .of_isAbove (exists_real_of_converted (fun _ ↦ rfl) rfl hdiffStep)
      c.differencing.diffStep_ok
  case threads =>
    intro n hsome
    let number (k : Int) : Option Number := if k = 0 then none else some (.int k)
    have hdefault : Key.threads.default = number 0 := rfl
    obtain ⟨k, hk⟩ := exists_of_converted number (fun _ ↦ rfl) hdefault hthreads
    replace hk : (if k = 0 then none else some (.int k)) = some n := hk.trans hsome
    have hrange := c.differencing.threads_ok
    rw [Option.mem_def.mp hsome] at hrange
    split at hk
    · exact nomatch hk
    next hne =>
      obtain rfl := Option.some.inj hk
      have hbelow : (Number.int k).isBelow 0 = false := by simpa using hrange
      have hnonneg : ¬k < 0 := of_decide_eq_false hbelow
      exact ⟨k, rfl, by omega⟩

/-! ## The main statement -/

/-- **Each setting is what its own key says.** A document is settings exactly if its sections are
tables and each key makes its own setting from its own value. Settings that come out are in range,
and those without a value are the ones that settings have without a document. So two documents that
agree on the seven keys, and on which of the two sections is no table, are the same settings or have
the same fault, whatever else is in them. -/
theorem ofEntries_key_by_key (document : Entries) :
    (∀ c, ofEntries document = .ok c ↔ (∀ name ∈ tables, tableFault? document name = none) ∧
      ∀ k ∈ Key.all, k.read (k.value? document) = .ok (k.get c)) ∧
    (∀ c, ofEntries document = .ok c → c.InRange ∧
      ∀ k ∈ Key.all, k.value? document = none → k.get c = k.get {}) ∧
    ∀ document', (∀ name ∈ tables, tableFault? document name = tableFault? document' name) →
      (∀ k ∈ Key.all, k.value? document = k.value? document') →
      ofEntries document = ofEntries document' := by
  refine ⟨fun c ↦ ofEntries_eq_ok_iff_read, fun c hc ↦ ⟨inRange_of_ofEntries hc, ?_⟩, ?_⟩
  · exact fun k ↦ get_eq_of_value?_eq_none hc
  · exact fun document' ↦ ofEntries_congr

/-- A text is a count, a truth value is one, an empty list is false, and what nothing asks for is
passed over. -/
example : (ofEntries [
      ("version".toList, .date),
      ("solver".toList, .table [("order".toList, .dateTime),
        ("max_iterations".toList, .text " 25".toList), ("eta".toList, .integer 4),
        ("lambda".toList, .text "Auto".toList), ("verbose".toList, .array [])]),
      ("jacobian".toList, .table [("threads".toList, .boolean true)])]).map
        (fun c ↦ Key.all.map fun k ↦ k.get c) =
    .ok [some (.int 25), some (.real 1e-6), none, some (.real 4), some (.truth false),
      some (.real 1e-3), some (.int 1)] := rfl

end

end DampedLeastSquares.Config
