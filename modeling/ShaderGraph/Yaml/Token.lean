/-!
# Tokens of YAML

The parts that a text is made of before they are nested. Collections that are written by indentation
have tokens for their beginning and their end, which no character of the text stands for.
-/

namespace ShaderGraph

namespace Yaml

/-- A token. -/
inductive Token where
  | streamEnd
  /-- The version of the language. -/
  | version (major minor : Nat)
  /-- A handle for tags, and the text that it stands for. -/
  | tagHandle (handle text : String)
  | documentStart
  | documentEnd
  | blockSequenceStart
  | blockMappingStart
  | blockEnd
  | flowSequenceStart
  | flowSequenceEnd
  | flowMappingStart
  | flowMappingEnd
  /-- The mark of an item of a block sequence. -/
  | blockEntry
  /-- The mark between items of a flow collection. -/
  | flowEntry
  | key
  | value
  | reference (name : String)
  | anchor (name : String)
  | tag (handle suffix : String)
  /-- A scalar, which is plain or written in quotes or as a block. -/
  | scalar (plain : Bool) (content : String)
deriving DecidableEq

end Yaml

end ShaderGraph
