import DampedLeastSquares.Config.Reading
import DampedLeastSquares.Config.Writing
import DampedLeastSquares.Proofs.Text.Encoding
import DampedLeastSquares.Proofs.Toml.Documents
import DampedLeastSquares.Proofs.Toml.Values

/-!
# The format of settings

Settings are written as a document in two sections, and each right side in it is read as the value
that it was written for. What is used of the format besides is the one limit it has: neither in
settings that are written nor in documents that are read has a whole number more than 128 bits.
`Config.IsFormat` says so, and `Config.isFormat` that the writer and the reader here are of this
kind.
-/

namespace DampedLeastSquares

open Decimal Toml

/-! ## Values of settings -/

/-- A number that is read back from its text. -/
def Number.IsReadable : Number → Prop
  | .int n => leastInteger ≤ n ∧ n ≤ greatestInteger
  | .real x => Exact.ofFloat x ≠ .undefined
  | .truth _ => True

/-- The value that the text of a number is read as. -/
def Number.value : Number → Value
  | .int n => .integer n
  | .real x => .float x
  | .truth b => .boolean b

namespace Config

theorem reads_numberText {n : Number} (h : n.IsReadable) : Reads (numberText n).toList n.value := by
  cases n with
  | int n => exact (denotes_toString h.1 h.2).reads
  | real x => exact (denotes_plain h).reads
  | truth b => exact (denotes_truth b).reads

/-- The value that the text of the first damping is read as. -/
def lambdaValue : Option Number → Value
  | none => .text autoWord
  | some lambda => lambda.value

/-- The value that the text of the report of progress is read as. -/
def verboseValue : Option Number → Value
  | none => .text "null".toList
  | some verbose => verbose.value

/-- The value that the text of the number of workers is read as. -/
def threadsValue : Option Number → Value
  | none => .integer 0
  | some n => if n.isTrue then n.value else .integer 0

theorem reads_lambdaText {lambda : Option Number} (h : ∀ n ∈ lambda, n.IsReadable) :
    Reads (lambdaText lambda).toList (lambdaValue lambda) := by
  cases lambda with
  | none =>
    have hplain : ∀ c ∈ autoWord, isPlain c = true := List.all_eq_true.mp rfl
    exact reads_quoted (List.cons_ne_nil _ _) hplain
  | some lambda => exact reads_numberText (h lambda rfl)

theorem reads_verboseText {verbose : Option Number} (h : ∀ n ∈ verbose, n.IsReadable) :
    Reads (verboseText verbose).toList (verboseValue verbose) := by
  cases verbose with
  | none =>
    have hplain : ∀ c ∈ "null".toList, isPlain c = true := List.all_eq_true.mp rfl
    exact reads_quoted (List.cons_ne_nil _ _) hplain
  | some verbose => exact reads_numberText (h verbose rfl)

theorem reads_threadsText {threads : Option Number} (h : ∀ n ∈ threads, n.IsReadable) :
    Reads (threadsText threads).toList (threadsValue threads) := by
  have hzero : Reads (numberText (.int 0)).toList (.integer 0) :=
    reads_numberText ⟨by decide, by decide⟩
  cases threads with
  | none => exact hzero
  | some n =>
    rw [threadsText, threadsValue]
    split
    · exact reads_numberText (h n rfl)
    · exact hzero

/-! ## The document of settings -/

/-- The document that the text of settings is read as. -/
def document (c : Config) : Entries :=
  [("solver".toList, .table [
      ("max_iterations".toList, c.damping.stopping.maxCount.value),
      ("epsilon".toList, c.damping.stopping.epsilon.value),
      ("lambda".toList, lambdaValue c.damping.initialLambda),
      ("eta".toList, c.damping.eta.value),
      ("verbose".toList, verboseValue c.damping.verbose)]),
    ("jacobian".toList, .table [
      ("diff_step".toList, c.differencing.diffStep.value),
      ("threads".toList, threadsValue c.differencing.threads)])]

section

variable {c : Config} (h : ∀ n ∈ c.numbers, n.IsReadable)

/-- The section of the settings for damping. -/
def solverSection : Section where
  name := "solver".toList
  settings := [
    ⟨"max_iterations".toList, (numberText c.damping.stopping.maxCount).toList,
      c.damping.stopping.maxCount.value, isBareKey_of_all rfl rfl,
      reads_numberText (h _ (by simp [numbers]))⟩,
    ⟨"epsilon".toList, (numberText c.damping.stopping.epsilon).toList,
      c.damping.stopping.epsilon.value, isBareKey_of_all rfl rfl,
      reads_numberText (h _ (by simp [numbers]))⟩,
    ⟨"lambda".toList, (lambdaText c.damping.initialLambda).toList,
      lambdaValue c.damping.initialLambda, isBareKey_of_all rfl rfl,
      reads_lambdaText fun n hn ↦ h n (by simp [numbers, Option.mem_def.mp hn])⟩,
    ⟨"eta".toList, (numberText c.damping.eta).toList, c.damping.eta.value,
      isBareKey_of_all rfl rfl, reads_numberText (h _ (by simp [numbers]))⟩,
    ⟨"verbose".toList, (verboseText c.damping.verbose).toList, verboseValue c.damping.verbose,
      isBareKey_of_all rfl rfl,
      reads_verboseText fun n hn ↦ h n (by simp [numbers, Option.mem_def.mp hn])⟩]
  isBareKey := isBareKey_of_all rfl rfl
  nodup := by
    change ["max_iterations".toList, "epsilon".toList, "lambda".toList, "eta".toList,
      "verbose".toList].Nodup
    decide

/-- The section of the settings for differencing. -/
def jacobianSection : Section where
  name := "jacobian".toList
  settings := [
    ⟨"diff_step".toList, (numberText c.differencing.diffStep).toList,
      c.differencing.diffStep.value, isBareKey_of_all rfl rfl,
      reads_numberText (h _ (by simp [numbers]))⟩,
    ⟨"threads".toList, (threadsText c.differencing.threads).toList,
      threadsValue c.differencing.threads, isBareKey_of_all rfl rfl,
      reads_threadsText fun n hn ↦ h n (by simp [numbers, Option.mem_def.mp hn])⟩]
  isBareKey := isBareKey_of_all rfl rfl
  nodup := by
    change ["diff_step".toList, "threads".toList].Nodup
    decide

theorem toList_line (key value : String) :
    (line key value).toList = key.toList ++ ' ' :: '=' :: ' ' :: (value.toList ++ ['\n']) := by
  have hequals : " = ".toList = [' ', '=', ' '] := by decide
  have hfeed : "\n".toList = ['\n'] := by decide
  simp only [line, String.toList_append, List.append_assoc, hequals, hfeed]
  rfl

theorem toList_render : c.render.toList = documentText [solverSection h, jacobianSection h] := by
  have hsolver : "[solver]\n".toList = '[' :: ("solver".toList ++ [']', '\n']) := by decide
  have hjacobian : "\n[jacobian]\n".toList =
    '\n' :: '[' :: ("jacobian".toList ++ [']', '\n']) := by decide
  unfold render solverSection jacobianSection
  simp only [documentText, Section.text, Setting.text, List.flatMap_cons, List.flatMap_nil,
    String.toList_append, toList_line, hsolver, hjacobian, List.append_assoc, List.cons_append,
    List.nil_append, List.append_nil]

include h in
/-- **The text of settings is read as their document.** -/
theorem parse?_render : parse? c.render.toList = some c.document := by
  have hnames : ["solver".toList, "jacobian".toList].Nodup := by decide
  rw [toList_render h]
  exact parse?_documentText [solverSection h, jacobianSection h] hnames

include h in
theorem unifyNewlines_render : Text.unifyNewlines c.render.toList = c.render.toList := by
  rw [toList_render h]
  exact Text.unifyNewlines_eq_self (noReturn_documentText _)

end

/-! ## What is asked of a format -/

/-- A whole number that a document can hold. -/
def IsHeld (n : Int) : Prop := -2 ^ 127 ≤ n ∧ n < 2 ^ 127

theorem IsHeld.isReadable {n : Int} (h : IsHeld n) : (Number.int n).IsReadable := by
  obtain ⟨hlow, hhigh⟩ := h
  exact ⟨hlow, hhigh.le.trans (by decide)⟩

theorem isWritable_int_iff {n : Int} : isWritable (.int n) = true ↔ IsHeld n := by
  rw [isWritable, Bool.and_eq_true, decide_eq_true_iff, decide_eq_true_iff]
  exact Iff.rfl

theorem all_isWritable_iff {c : Config} :
    c.numbers.all isWritable = true ↔ ∀ n, .int n ∈ c.numbers → IsHeld n := by
  rw [List.all_eq_true]
  refine ⟨fun h n hn ↦ isWritable_int_iff.mp (h _ hn), fun h n hn ↦ ?_⟩
  cases n with
  | int n => exact isWritable_int_iff.mpr (h n hn)
  | _ => rfl

theorem render?_of_isHeld {c : Config} (h : ∀ n, .int n ∈ c.numbers → IsHeld n) :
    c.render? = some c.render :=
  if_pos (all_isWritable_iff.mpr h)

/-- What is asked of a writer of settings and a reader of documents. -/
structure IsFormat (write : Config → Option String) (read : List Char → Option Entries) :
    Prop where
  /-- Only a whole number of more than 128 bits with its sign keeps settings from having a text. -/
  eq_none_iff : ∀ {c : Config}, write c = none ↔ ∃ n, .int n ∈ c.numbers ∧ ¬IsHeld n
  /-- Settings are read from their text, unless a number is undefined. -/
  reads : ∀ {c : Config} {text : String}, write c = some text →
    (∀ x, .real x ∈ c.numbers → Exact.ofFloat x ≠ .undefined) →
      read (Text.unifyNewlines text.toList) = some c.document
  /-- No whole number that is read has more than 128 bits, however deep it is inside. -/
  isSmall : ∀ {text : List Char} {document : Entries}, read text = some document →
    ∀ entry ∈ document, entry.2.Each Value.IsSmall

/-- **The writer and the reader make a format.** -/
theorem isFormat : IsFormat render? parse? where
  eq_none_iff {c} := by
    rw [render?, ite_eq_right_iff, ← not_iff_not, not_exists]
    simp only [reduceCtorEq, imp_false, not_not, not_and]
    exact all_isWritable_iff
  reads {c text} htext hdefined := by
    obtain ⟨hwritable, htext⟩ := Option.ite_none_right_eq_some.mp htext
    obtain rfl := Option.some.inj htext
    have hreadable : ∀ n ∈ c.numbers, n.IsReadable := by
      intro n hn
      cases n with
      | int n => exact (all_isWritable_iff.mp hwritable n hn).isReadable
      | real x => exact hdefined x hn
      | truth b => trivial
    rw [unifyNewlines_render hreadable, parse?_render hreadable]
  isSmall := each_isSmall

end Config

end DampedLeastSquares
