import ShaderGraph.Config.Field
import ShaderGraph.Toml.Document

/-!
# Failures of reading a configuration

A file that is not a configuration in its format is malformed. Some files are neither read nor
refused: the reading of them breaks off. One that is read can still be invalid.
-/

namespace ShaderGraph

/-- Where the reading of a file breaks off. -/
inductive Breakage where
  /-- A moment where something else belongs. -/
  | moment (kind : Toml.MomentKind) (slot : Slot)
  /-- A header that leads on from a slot without parts. -/
  | part (slot : Slot)
  /-- A header that leads on from a list without items. -/
  | item
  /-- A number that is only a sign. -/
  | sign
  /-- A key of several parts beside keys from another mapping. -/
  | key
deriving DecidableEq

/-- What messages call a moment. -/
def Toml.MomentKind.typeName : Toml.MomentKind → String
  | date => "toml.LocalDate"
  | time => "toml.LocalTime"
  | dateTime => "toml.LocalDateTime"
  | offsetDateTime => "time.Time"

/-- The text that a reading breaks off with, if there is one. -/
def Breakage.message? : Breakage → Option String
  | moment kind slot =>
    some s!"reflect.Set: value of type {kind.typeName} is not assignable to type {slot.typeName}"
  | part slot => some ("unhandled part: " ++ slot.typeName)
  | item => some "reflect: slice index out of range"
  | sign => none
  | key => none

/-- Why a text is not read as a configuration. -/
inductive ReadError where
  | malformed
  | broken (b : Breakage)
  | invalid (errors : List ConfigError)

end ShaderGraph
