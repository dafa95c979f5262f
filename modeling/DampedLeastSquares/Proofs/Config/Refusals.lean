import DampedLeastSquares.Config.File
import DampedLeastSquares.Proofs.Config.Format
import DampedLeastSquares.Proofs.Config.Keys
import DampedLeastSquares.Proofs.Decimal.Largest

/-!
# Values that are no setting of any kind

A setting out of range is a value that is not allowed, and so is a text that is no numeral. But the
values in a document are converted before their ranges are looked at, and some do not get that far:
a section need not be a table, a number need not be a number, and an infinite float is no count.
Such a misfit is reported by the conversion, as a fault of another kind.

For each step of reading the kinds are compared: the misfits are exactly what makes a step fail in
another way than by a value that is not allowed. A whole number too large for a float would be one
more, but no text writes one.
-/

namespace DampedLeastSquares

/-- The kind of a fault, if it is not that a value is not allowed. -/
def ConfigFault.strayKind? (fault : ConfigFault) : Option FaultKind :=
  if fault.kind = .value then none else some fault.kind

namespace Config

open Toml (Value Entries)

/-- The kind of the fault in which something ends, if it is not that a value is not allowed. -/
def strayKind? {α : Type} : Except ConfigFault α → Option FaultKind
  | .error fault => fault.strayKind?
  | .ok _ => none

/-! ## Misfits -/

/-- What makes a value a misfit for any number. -/
def numberMisfit? : Value → Option FaultKind
  | .date | .time | .dateTime | .array _ | .table _ => some .type
  | _ => none

/-- What makes a value a misfit for a count. -/
def countMisfit? : Value → Option FaultKind
  | .float x =>
    match Decimal.Exact.ofFloat x with
    | .infinite _ => some .overflow
    | _ => none
  | v => numberMisfit? v

/-- The keys of counts. -/
def counts : List String := ["max_iterations", "threads"]

/-- What makes a value a misfit for a key. Every value has a truth. -/
def Key.misfit? (k : Key) (v : Value) : Option FaultKind :=
  if k.name = "verbose" then none
  else if k.name ∈ counts then countMisfit? v
  else numberMisfit? v

/-- What makes a value a misfit for a section. -/
def sectionMisfit? : Value → Option FaultKind
  | .table _ => none
  | _ => some .attribute

/-- The misfit of a step. What is in range or not is none. -/
def Step.misfit? (document : Entries) : Step → Option FaultKind
  | table name => (document.get? name).bind sectionMisfit?
  | convert k => (k.value? document).bind k.misfit?
  | check _ => none

/-! ## Conversions -/

section

variable {α β : Type}

theorem strayKind?_map (e : Except ConfigFault α) (f : α → β) :
    strayKind? (e.map f) = strayKind? e := by
  cases e <;> rfl

theorem strayKind?_toWhole (v : Value) : strayKind? (toWhole v) = countMisfit? v := by
  cases v with
  | float x =>
    rw [toWhole, Number.truncate, Number.magnitude, countMisfit?]
    cases Decimal.Exact.ofFloat x with
    | finite negative mantissa exponent => cases exponent <;> rfl
    | _ => rfl
  | text chars =>
    rw [toWhole]
    cases Text.readInt chars with
    | ok n => rfl
    | error fault => cases fault <;> rfl
  | _ => rfl

/-- A whole number of 128 bits is not too large for a float. -/
theorem strayKind?_toReal {v : Value} (h : v.Each Value.IsSmall) :
    strayKind? (toReal v) = numberMisfit? v := by
  cases v with
  | integer n =>
    cases h with | leaf h =>
    obtain ⟨hlow, hhigh⟩ := h
    have hfew : n.natAbs < 2 ^ 129 := by
      rw [Toml.leastInteger] at hlow
      rw [Toml.greatestInteger] at hhigh
      omega
    have hmany : 2 ^ 129 ≤ 2 ^ 1024 - 2 ^ 970 := by decide +kernel
    have hfinite : (Decimal.ofInt n).isFinite = true :=
      Decimal.isFinite_ofInt_iff.mpr (hfew.trans_le hmany)
    change strayKind? (if (Decimal.ofInt n).isFinite then _ else _) = _
    rw [if_pos hfinite]
    rfl
  | text chars =>
    rw [toReal]
    cases Text.readFloat? chars <;> rfl
  | _ => rfl

theorem strayKind?_toLambda {v : Value} (h : v.Each Value.IsSmall) :
    strayKind? (toLambda v) = numberMisfit? v := by
  cases v with
  | text chars =>
    rw [toLambda]
    split <;> rfl
  | _ => exact (strayKind?_map _ fun x ↦ some (Number.real x)).trans (strayKind?_toReal h)

end

/-! ## Steps -/

variable {document : Entries}

theorem strayKind?_convert {k : Key} (hk : k ∈ Key.all) {v : Value} (h : v.Each Value.IsSmall) :
    strayKind? (k.convert v) = k.misfit? v := by
  simp only [Key.all, List.mem_cons, List.not_mem_nil, or_false] at hk
  rcases hk with rfl | rfl | rfl | rfl | rfl | rfl | rfl
  · exact (strayKind?_map _ _).trans (strayKind?_toWhole v)
  · exact (strayKind?_map _ _).trans (strayKind?_toReal h)
  · exact strayKind?_toLambda h
  · exact (strayKind?_map _ _).trans (strayKind?_toReal h)
  · rfl
  · exact (strayKind?_map _ _).trans (strayKind?_toReal h)
  · exact (strayKind?_map _ _).trans (strayKind?_toWhole v)

theorem kind_of_refusal? {k : Key} (hk : k ∈ Key.all) {n : Number} {fault : SettingFault}
    (h : k.refusal? n = some fault) : fault.kind = .value := by
  have hite {c : Prop} [Decidable c] {refusal : SettingFault} (hrefusal : refusal.kind = .value)
      (h : (if c then none else some refusal) = some fault) : fault.kind = .value := by
    split at h
    · cases h
    · exact Option.some.inj h ▸ hrefusal
  simp only [Key.all, List.mem_cons, List.not_mem_nil, or_false] at hk
  rcases hk with rfl | rfl | rfl | rfl | rfl | rfl | rfl
  case inr.inr.inr.inr.inl => cases h
  all_goals exact hite rfl h

/-- **What a misfit is the misfit of is the kind of the fault**, and a step that fails without one
fails by a value that is not allowed. -/
theorem misfit?_eq (hsmall : ∀ k ∈ Key.all, ∀ v ∈ k.value? document, v.Each Value.IsSmall) :
    ∀ s ∈ order, s.misfit? document = (s.fault? document).bind ConfigFault.strayKind? := by
  refine forall_mem_order (fun name _ ↦ ?_) (fun k hk ↦ ?_) (fun k hk ↦ ?_)
  · rw [Step.misfit?, Step.fault?, tableFault?]
    cases document.get? name with
    | none => rfl
    | some v => cases v <;> rfl
  · rw [Step.misfit?, Step.fault?]
    cases hvalue : k.value? document with
    | none => rfl
    | some v =>
      rw [Option.bind_some, Key.converted, ← strayKind?_convert hk (hsmall k hk v hvalue)]
      cases k.convert v <;> rfl
  · rw [Step.misfit?, Step.fault?]
    cases k.converted (k.value? document) with
    | error fault => rfl
    | ok n? =>
      change none = ((n?.bind k.refusal?).map ConfigFault.setting).bind _
      cases hrefusal : n?.bind k.refusal? with
      | none => rfl
      | some fault =>
        obtain ⟨n, -, hn⟩ := Option.bind_eq_some_iff.mp hrefusal
        exact (if_pos (kind_of_refusal? hk hn)).symm

/-! ## Files -/

theorem each_value? {text : List Char} (h : Toml.parse? text = some document) (k : Key) :
    ∀ v ∈ k.value? document, v.Each Value.IsSmall := by
  intro v hv
  rw [Option.mem_def, Key.value?] at hv
  split at hv
  next entries hentries =>
    obtain ⟨name, hname⟩ := Toml.mem_of_lookup hentries
    obtain ⟨key, hkey⟩ := Toml.mem_of_lookup hv
    cases Config.isFormat.isSmall h _ hname with
    | leaf h => exact h.elim
    | table hinside => exact hinside _ hkey
  · cases hv

/-- A misfit shows if it comes first. -/
theorem error_kind_iff (hsmall : ∀ k ∈ Key.all, ∀ v ∈ k.value? document, v.Each Value.IsSmall)
    {kind : FaultKind} (hkind : kind ≠ .value) :
    (∃ fault, ofEntries document = .error fault ∧ fault.kind = kind) ↔
      ∃ before s later, order = before ++ s :: later ∧ (∀ t ∈ before, t.fault? document = none) ∧
        s.misfit? document = some kind := by
  simp only [ofEntries_eq_error_iff, firstFault?, List.findSome?_eq_some_iff]
  constructor
  · rintro ⟨fault, ⟨before, s, later, horder, hfault, hbefore⟩, rfl⟩
    refine ⟨before, s, later, horder, hbefore, ?_⟩
    rw [misfit?_eq hsmall s (by simp [horder]), hfault]
    exact if_neg hkind
  · rintro ⟨before, s, later, horder, hbefore, hmisfit⟩
    rw [misfit?_eq hsmall s (by simp [horder])] at hmisfit
    obtain ⟨fault, hfault, hstray⟩ := Option.bind_eq_some_iff.mp hmisfit
    refine ⟨fault, ⟨before, s, later, horder, hfault, hbefore⟩, ?_⟩
    rw [ConfigFault.strayKind?] at hstray
    split at hstray
    · cases hstray
    · exact Option.some.inj hstray

theorem misfit?_eq_none (hsmall : ∀ k ∈ Key.all, ∀ v ∈ k.value? document, v.Each Value.IsSmall)
    {c : Config} (h : ofEntries document = .ok c) : ∀ s ∈ order, s.misfit? document = none := by
  intro s hs
  have hfirst := (ofEntries_eq_ok_iff.mp h).1
  rw [misfit?_eq hsmall s hs, List.findSome?_eq_none_iff.mp hfirst s hs]
  rfl

theorem numberMisfit?_eq {v : Value} {kind : FaultKind} (h : numberMisfit? v = some kind) :
    kind = .type := by
  have hkind : numberMisfit? v = some .type ∨ numberMisfit? v = none := by
    cases v <;> first | exact .inl rfl | exact .inr rfl
  rcases hkind with htype | hnone
  · exact Option.some.inj (h.symm.trans htype)
  · exact nomatch hnone.symm.trans h

theorem countMisfit?_eq {v : Value} {kind : FaultKind} (h : countMisfit? v = some kind) :
    kind = .type ∨ kind = .overflow := by
  rw [countMisfit?.eq_def] at h
  split at h
  · split at h
    · exact .inr (Option.some.inj h).symm
    · exact nomatch h
  · exact .inl (numberMisfit?_eq h)

theorem kind_of_misfit? {s : Step} {kind : FaultKind} (h : s.misfit? document = some kind) :
    kind ∈ [FaultKind.attribute, .type, .overflow] := by
  cases s with
  | table name =>
    obtain ⟨v, -, hv⟩ := Option.bind_eq_some_iff.mp h
    rw [sectionMisfit?.eq_def] at hv
    split at hv
    · exact nomatch hv
    · exact Option.some.inj hv ▸ List.mem_cons_self
  | convert k =>
    obtain ⟨v, -, hv⟩ := Option.bind_eq_some_iff.mp h
    rw [Key.misfit?] at hv
    split at hv
    · exact nomatch hv
    · split at hv
      · rcases countMisfit?_eq hv with rfl | rfl <;> decide
      · rw [numberMisfit?_eq hv]
        decide
  | check k => exact nomatch h

/-- **What a text that is a document can end in.** The settings of a text that is a document are
there, or a value is not allowed, unless the first step that fails is at a misfit: a section that is
no table, a date, a time, a list or a table under the key of a number, or an infinite float under
the key of a count. Then the fault is of the kind of the misfit, which is not that a value is not
allowed. -/
theorem load_kind_iff {octets : List UInt8} {text : List Char}
    (hdecode : Text.decodeUtf8 octets = .ok text)
    (hparse : Toml.parse? (Text.unifyNewlines text) = some document) :
    (∀ kind, kind ≠ .value →
      ((∃ fault, ConfigFile.load ⟨some octets⟩ = .error fault ∧ fault.kind = kind) ↔
        ∃ before s later, order = before ++ s :: later ∧ (∀ t ∈ before, t.fault? document = none) ∧
          s.misfit? document = some kind)) ∧
    (∀ c, ConfigFile.load ⟨some octets⟩ = .ok c → ∀ s ∈ order, s.misfit? document = none) ∧
    ∀ fault, ConfigFile.load ⟨some octets⟩ = .error fault →
      fault.kind ∈ [FaultKind.value, .attribute, .type, .overflow] := by
  have hload : ConfigFile.load ⟨some octets⟩ = ofEntries document := by
    simp only [ConfigFile.load, ofOctets, hdecode, hparse]
  have hsmall (k : Key) (_ : k ∈ Key.all) := each_value? hparse k
  rw [hload]
  refine ⟨fun kind ↦ error_kind_iff hsmall, fun c ↦ misfit?_eq_none hsmall, fun fault hfault ↦ ?_⟩
  by_cases hkind : fault.kind = .value
  · exact List.mem_cons.mpr (.inl hkind)
  · obtain ⟨before, s, later, -, -, hmisfit⟩ :=
      (error_kind_iff hsmall hkind).mp ⟨fault, hfault, rfl⟩
    exact List.mem_cons_of_mem _ (kind_of_misfit? hmisfit)

/-- There is no whole number of updates in an infinite float. -/
theorem load_infiniteCount : ∃ document,
    Text.decodeUtf8 "[solver]\nmax_iterations = inf\n".toUTF8.toList =
        .ok "[solver]\nmax_iterations = inf\n".toList ∧
      Toml.parse? (Text.unifyNewlines "[solver]\nmax_iterations = inf\n".toList) = some document ∧
      ∃ fault, ConfigFile.load ⟨some "[solver]\nmax_iterations = inf\n".toUTF8.toList⟩ =
        .error fault ∧ fault.kind = .overflow := by
  have hdecode := Text.decodeUtf8_toUTF8 "[solver]\nmax_iterations = inf\n"
  have hsteps : (Toml.parse? (Text.unifyNewlines "[solver]\nmax_iterations = inf\n".toList)).map
      (fun document ↦ (((Step.table "solver").fault? document).isNone,
        (Step.convert .maxIterations).misfit? document)) = some (true, some .overflow) := by
    decide +kernel
  obtain ⟨document, hparse, hdocument⟩ := Option.map_eq_some_iff.mp hsteps
  obtain ⟨htable, hmisfit⟩ := Prod.mk.inj hdocument
  refine ⟨document, hdecode, hparse,
    ((load_kind_iff hdecode hparse).1 .overflow (by decide)).mpr ⟨[.table "solver"], _, _, rfl, ?_,
      hmisfit⟩⟩
  exact List.forall_mem_singleton.mpr (Option.isNone_iff_eq_none.mp htable)

end Config

end DampedLeastSquares
