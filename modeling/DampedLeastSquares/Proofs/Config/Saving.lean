import DampedLeastSquares.Proofs.Config.File

/-!
# What saving leaves behind

A file is emptied before the text of the settings is made. If there is a text, it is all that the
file holds afterwards. If there is none, because some whole number has more than 128 bits, the
failure is reported, but the settings that were in the file are gone. Nothing shows that later: an
empty file is a document, and loading it gives the settings that there are without one.

So a failed save leaves a file alone only if it was empty, and leaves what is loaded from it alone
only if the file could as well have been empty.
-/

namespace DampedLeastSquares

namespace ConfigFile

theorem load_empty : empty.load = .ok {} := by
  rfl

/-- **What saving leaves behind.** If a document can hold all whole numbers of the settings, the
file holds all of their text and nothing else, and unless some number is undefined that text is the
document of the settings. Otherwise saving fails and the file is empty, so that it holds what it
held before only if it was empty, and loading it gives the settings that there are without a
document, which is what it gave before only if these are. -/
theorem save_cases (f : ConfigFile) (c : Config) :
    ((∀ n, .int n ∈ c.numbers → Config.IsHeld n) ∧
      f.save c = (ofText c.render, .ok ()) ∧
      Text.decodeUtf8 c.render.toUTF8.toList = .ok c.render.toList ∧
      ((∀ x, .real x ∈ c.numbers → Decimal.Exact.ofFloat x ≠ .undefined) →
        Toml.parse? (Text.unifyNewlines c.render.toList) = some c.document)) ∨
    ((∃ n, .int n ∈ c.numbers ∧ ¬Config.IsHeld n) ∧
      f.save c = (empty, .error .unwritable) ∧
      (empty = f ↔ f.octets = some []) ∧
      empty.load = .ok {} ∧ (empty.load = f.load ↔ f.load = .ok {})) := by
  by_cases hheld : ∀ n, .int n ∈ c.numbers → Config.IsHeld n
  · have htext := Config.render?_of_isHeld hheld
    refine .inl ⟨hheld, ?_, Text.decodeUtf8_toUTF8 _, Config.isFormat.reads htext⟩
    rw [save, htext]
  · obtain ⟨n, hn⟩ := not_forall.mp hheld
    have hlarge : ∃ n, .int n ∈ c.numbers ∧ ¬Config.IsHeld n := ⟨n, Classical.not_imp.mp hn⟩
    refine .inr ⟨hlarge, ?_, ?_, load_empty, ?_⟩
    · rw [save, Config.isFormat.eq_none_iff.mpr hlarge]
    · obtain ⟨octets⟩ := f
      exact ⟨fun h ↦ (ConfigFile.mk.inj h).symm, fun h ↦ congrArg ConfigFile.mk h.symm⟩
    · rw [load_empty]
      exact eq_comm

/-- Settings with more updates than a document can hold. -/
def excessive : Config where
  damping := { Config.unbounded.damping with
    stopping := { Config.unbounded.damping.stopping with
      maxCount := .int (2 ^ 127), maxCount_ok := rfl } }
  differencing := Config.unbounded.differencing

/-- Where the infinite damping of other settings was, there is none once these are saved. -/
theorem save_cases_excessive :
    (ofText Config.unbounded.render).load = .ok Config.unbounded.withoutZero ∧
      (ofText Config.unbounded.render).save excessive = (empty, .error .unwritable) ∧
      empty.load ≠ .ok Config.unbounded.withoutZero := by
  refine ⟨Config.unbounded_isTyped.load, ?_, fun hload ↦ ?_⟩
  · rcases save_cases (ofText Config.unbounded.render) excessive with ⟨hheld, -⟩ | ⟨-, hsave, -⟩
    · exact absurd (hheld (2 ^ 127) List.mem_cons_self).2 (lt_irrefl _)
    · exact hsave
  · have hconfig := Except.ok.inj (load_empty.symm.trans hload)
    exact nomatch congrArg (·.damping.initialLambda) hconfig

end ConfigFile

end DampedLeastSquares
