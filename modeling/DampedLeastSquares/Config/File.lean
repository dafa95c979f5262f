import DampedLeastSquares.Config.Reading
import DampedLeastSquares.Config.Writing

/-!
# The file of the settings

Settings are kept in a file, which may not be there yet. Saving empties the file before the text of
the settings is made, so nothing of what it held before is left, whether the settings have a text
or not. Loading reads whatever is there, written by this library or by hand.
-/

namespace DampedLeastSquares

/-- A file that may hold settings. -/
structure ConfigFile where
  /-- What it holds, if it is there. -/
  octets : Option (List UInt8)

namespace ConfigFile

/-- A file that is not there. -/
def missing : ConfigFile := ⟨none⟩

/-- A file that holds nothing. -/
def empty : ConfigFile := ⟨some []⟩

/-- A file that holds a text. -/
def ofText (text : String) : ConfigFile := ⟨some text.toUTF8.toList⟩

/-- Saves settings in the file: the file afterwards, and whether the settings are in it. -/
def save (_ : ConfigFile) (c : Config) : ConfigFile × Except ConfigFault Unit :=
  match c.render? with
  | some text => (ofText text, .ok ())
  | none => (empty, .error .unwritable)

/-- The settings that the file holds. -/
def load (f : ConfigFile) : Except ConfigFault Config :=
  match f.octets with
  | none => .error .missingFile
  | some octets => Config.ofOctets octets

end ConfigFile

end DampedLeastSquares
