import ShaderGraph.Text.Case
import ShaderGraph.Text.Quoted

/-!
# Formats of configuration files

A configuration file is written in one of two formats, and the extension of its name says in which.
-/

namespace ShaderGraph

/-- The format of a configuration file. -/
inductive ConfigFormat where
  | toml
  | yaml
deriving DecidableEq

namespace ConfigFormat

/-- The formats in the order of their numbers. -/
def all : List ConfigFormat := [toml, yaml]

/-- The extensions of files in a format. -/
def extensions : ConfigFormat → List String
  | toml => [".toml"]
  | yaml => [".yaml", ".yml"]

/-- The part of a path from the last point of its last name on, empty if that has no point. -/
def extensionOf (path : String) : String :=
  let name := path.toList.reverse.takeWhile (· != '/')
  if name.contains '.' then String.ofList ('.' :: (name.takeWhile (· != '.')).reverse) else ""

/-- The format that the extension of a path stands for, in any case; else the extension, in lower
case. -/
def ofPath (path : String) : Except String ConfigFormat :=
  let extension := Text.lower (extensionOf path)
  match all.find? fun f => f.extensions.contains extension with
  | some format => .ok format
  | none => .error extension

/-- The wording of the refusal of an extension. -/
def refusal (extension : String) : String :=
  "unsupported config extension " ++ Text.quote extension

/-- The wording of the refusal of a number without a format. -/
def unknown : String := "matcfg: unknown format"

end ConfigFormat

end ShaderGraph
