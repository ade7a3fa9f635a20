import ShaderGraph.Pass.Body
import ShaderGraph.Shader.Define
import ShaderGraph.Shader.Functions
import ShaderGraph.Shader.Layout
import ShaderGraph.Single.Decimal

/-!
# The source of a shader

The generated code is put into a fixed frame: defines, the functions it calls, the members of the
pixel inputs, the functions generated apart, and one function for each group of properties.
-/

namespace ShaderGraph

/-! ### Bodies of properties -/

/-- The body of the normal. The declarations before its end are kept even if it does not need them,
since the properties after it may read them. -/
def Pass.normalBody (p : Pass) : Except Fault Body := do
  let scope := p.scope (p.stageScopes.get .pixel)
  let body ← scope.body 0 p.normalEnd (p.results.get .normal)
  return if body.definitions = "" then
    { body with definitions := scope.declarations 0 p.normalEnd } else body

/-- The body of a property. What shares the scope of the normal starts after it. -/
def Pass.propertyBody (p : Pass) (property : Property) : Except Fault Body :=
  if property = .normal then p.normalBody
  else
    let scope := p.scope (p.stageScopes.get property.stage)
    scope.body (if property.isShared then p.normalEnd else 0) scope.length
      (p.results.get property)

/-- The bodies of all properties. -/
def Pass.propertyBodies (p : Pass) : Except Fault (PropertyTable Body) :=
  Property.all.foldlM (fun table property => return table.set property (← p.propertyBody property))
    (.const {})

namespace Shader

/-! ### Functions -/

/-- The body of a function that returns a property. -/
def returning (body : Body) : String :=
  body.definitions ++ "\treturn " ++ body.value ++ ";\n"

/-- The body of a function that returns a number, with five places. -/
def returningNumber (x : Single) : String := "\treturn " ++ x.fixed 5 ++ ";\n"

/-- What a shader of a material is made from. -/
structure Parts where
  material : Material
  pass : Pass
  bodies : PropertyTable Body
  defines : List Define

namespace Parts

/-- The function of the emissive color in the compute stage, which only light functions use. -/
def emissiveCompute (s : Parts) : String :=
  if s.material.domain = .lightFunction then returning (s.bodies.get .emissiveColorCompute)
  else "\treturn 0;\n"

/-- The functions generated apart. -/
def resources (s : Parts) : String :=
  String.join s.pass.customDefines ++
    String.join (s.pass.implementations.map (· ++ "\n\n"))

/-! ### Pixel inputs -/

/-- The type of a member of the pixel inputs; the profile is appended to the subsurface color. -/
def memberType (property : Property) : ValueType :=
  if property = .subsurfaceColor then .float4 else property.type

/-- The members of the pixel inputs. -/
def members : String :=
  String.join <| Property.pixelMembers.map fun property =>
    "\t" ++ (memberType property).sourceName ++ " " ++ property.name ++ ";\n"

/-- The line that assigns a member of the pixel inputs. -/
def assignment (s : Parts) (property : Property) : String :=
  "\tPixelMaterialInputs." ++ property.name ++ " = " ++ (s.bodies.get property).value ++ ";\n"

/-- The declarations for the members after the normal: those of the last member that has some. -/
def sharedDefinitions (s : Parts) : String :=
  let texts := (Property.pixelMembers.filter (· != .normal)).map fun property =>
    (s.bodies.get property).definitions
  match (texts.filter (· != "")).getLast? with
  | some text => text ++ "\n"
  | none => ""

/-- The members after the normal. -/
def memberSetup (s : Parts) : String :=
  s.sharedDefinitions ++
    String.join ((Property.pixelMembers.filter (· != .normal)).map s.assignment)

/-! ### Texture coordinates -/

/-- The number of texture coordinates that the pixel stage reads. -/
def coordinates (s : Parts) : Nat := s.pass.pixelCoordinates.bound

/-- The lines that write the customized texture coordinates. -/
def coordinateAssignments (s : Parts) : String :=
  let read := (List.finRange 8).filter fun i => i.val < s.coordinates
  String.join <| read.map fun i =>
    let body := s.bodies.get (.customizedUV i)
    (if i.val = 0 then body.definitions else "") ++
      s!"\tOutTexCoords[{i.val}] = {body.value};\n"

/-- The lines that write the interpolators. -/
def interpolatorAssignments (s : Parts) : String :=
  String.join (s.pass.interpolators.map Interpolator.assignments)

/-! ### The source -/

/-- The defines at the top of a shader. -/
def preamble (s : Parts) : String :=
  let (assigned, layout) := s.pass.layout
  "// Generated material shader. Do not edit.\n" ++
    String.join (s.defines.map Define.line) ++ "\n" ++
    defineNumber "NUM_MATERIAL_TEXCOORDS_VERTEX" " " s.pass.vertexCoordinates.bound ++
    defineNumber "NUM_MATERIAL_TEXCOORDS" " " s.coordinates ++
    defineNumber "NUM_CUSTOM_VERTEX_INTERPOLATORS" " " ((s.pass.interpolatedScalars + 1) / 2) ++
    defineNumber "NUM_TEX_COORD_INTERPOLATORS" " " layout.used.bound ++
    String.join (assigned.map fun (i, places) => i.layoutText places) ++ "\n"

/-- The functions of the properties outside of the pixel inputs. -/
def functions (s : Parts) : List String :=
  [braced "MaterialFloat3 GetMaterialEmissiveColorCS(FMaterialPixelParameters Parameters)"
     s.emissiveCompute,
   braced "half GetMaterialTranslucencyDirectionalLightingIntensity()"
     (returningNumber s.material.translucencyLighting),
   braced "half GetMaterialOpacityMaskClipValue()" (returningNumber s.material.opacityMaskClip),
   braced "MaterialFloat3 GetMaterialWorldPositionOffset(FMaterialVertexParameters Parameters)"
     (returning (s.bodies.get .worldPositionOffset)),
   braced
     "MaterialFloat3 GetMaterialPreviousWorldPositionOffset(FMaterialVertexParameters Parameters)"
     (returning (s.bodies.get .previousWorldPositionOffset)),
   braced
     "MaterialFloat3 GetMaterialWorldDisplacement(FMaterialTessellationParameters Parameters)"
     (returning (s.bodies.get .worldDisplacement)),
   braced "MaterialFloat GetMaterialMaxDisplacement()"
     (returningNumber s.material.maxDisplacement),
   braced
     "MaterialFloat GetMaterialTessellationMultiplier(FMaterialTessellationParameters Parameters)"
     (returning (s.bodies.get .tessellationMultiplier)),
   braced "half GetMaterialCustomData0(FMaterialPixelParameters Parameters)"
     (returning (s.bodies.get .customData0)),
   braced "half GetMaterialCustomData1(FMaterialPixelParameters Parameters)"
     (returning (s.bodies.get .customData1)),
   braced
     ("void GetMaterialCustomizedUVs(FMaterialVertexParameters Parameters, " ++
       "inout float2 OutTexCoords[NUM_TEX_COORD_INTERPOLATORS])")
     (s.coordinateAssignments ++ s.interpolatorAssignments)]

/-- The function that computes the pixel inputs, the normal first. -/
def pixelFunction (s : Parts) : String :=
  braced
    ("void CalcPixelMaterialInputs(in out FMaterialPixelParameters Parameters, " ++
      "in out FPixelMaterialInputs PixelMaterialInputs)")
    ("\t// Initial calculations (required for Normal)\n" ++
      (s.bodies.get .normal).definitions ++ "\n" ++
      "\t// The Normal is a special case as it might have its own expressions and also be used " ++
      "to calculate other inputs, so perform the assignment here\n" ++
      s.assignment .normal ++ "\n" ++
      "\t// Note that here MaterialNormal can be in world space or tangent space\n" ++
      "\tfloat3 MaterialNormal = GetMaterialNormal(Parameters, PixelMaterialInputs);\n\n" ++
      "\t// Now the rest of the inputs\n" ++ s.memberSetup)

/-- The source of a shader. -/
def source (s : Parts) : String :=
  s.preamble ++ fixedFunctions ++ "\n" ++
    "struct FPixelMaterialInputs\n\x7b\n" ++ members ++ "\x7d;\n\n" ++
    s.resources ++ "\n" ++
    "\n".intercalate (s.functions ++ [s.pixelFunction])

end Parts

end Shader

end ShaderGraph
