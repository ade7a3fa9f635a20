import ShaderGraph.Config.Format
import ShaderGraph.Config.Toml
import ShaderGraph.Config.Yaml

/-!
# Reading configurations
-/

namespace ShaderGraph

namespace Config

/-- The configuration that a text stands for, in one of the formats. Nothing may be wrong with
it. -/
def read (format : ConfigFormat) (text : String) : Except ReadError Config := do
  let config ← match format with
    | .toml => ofToml text
    | .yaml => ofYaml text
  if config.errors.isEmpty then return config else .error (.invalid config.errors)

end Config

end ShaderGraph
