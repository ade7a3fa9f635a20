/-!
# Shader functions that generated code calls

The functions are the same in every shader.
-/

namespace ShaderGraph.Shader

/-- A function with the given lines, each ended, in its braces. -/
def braced (signature body : String) : String := signature ++ "\n\x7b\n" ++ body ++ "\x7d\n"

/-- A power whose base is kept positive. -/
def powerFunction (type body : String) : String :=
  braced s!"{type} PositiveClampedPow({type} Base, {type} Exponent)" s!"\treturn {body};\n"

/-- The decoding of a sampled value, which leaves it as it is. -/
def lookupFunction (type name : String) : String :=
  braced s!"{type} ProcessMaterial{name}TextureLookup({type} TextureValue)"
    "\treturn TextureValue;\n"

/-- A power of a vector, taken of two parts of it. -/
def splitPower (width first second : String) : String :=
  let part (letters : String) := s!"PositiveClampedPow(Base.{letters}, Exponent.{letters})"
  powerFunction ("MaterialFloat" ++ width)
    ("MaterialFloat" ++ width ++ "(" ++ part first ++ ", " ++ part second ++ ")")

/-- The functions that generated code calls. -/
def fixedFunctions : String :=
  powerFunction "MaterialFloat" "(Base <= 0.0f) ? 0.0f : pow(Base, Exponent)" ++
  splitPower "2" "x" "y" ++ splitPower "3" "xy" "z" ++ splitPower "4" "xy" "zw" ++ "\n" ++
  "\n".intercalate
    [lookupFunction "MaterialFloat4" "Color", lookupFunction "MaterialFloat4" "LinearColor",
     lookupFunction "MaterialFloat" "Greyscale", lookupFunction "MaterialFloat" "LinearGreyscale",
     lookupFunction "MaterialFloat4" "External"]

end ShaderGraph.Shader
