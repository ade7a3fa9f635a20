import ShaderGraph.Pass.Expression
import ShaderGraph.Pass.Inputs

/-!
# Compilation of properties

A property is compiled in the scope of its stage, from what it is connected to or else from its
default, and brought to its type.
-/

namespace ShaderGraph

namespace Context

/-! ### Results -/

/-- The value of a property that is not connected. -/
def compileDefault (ctx : Context) : Property → PassM Code
  | .emissiveColor | .diffuseColor | .specularColor | .baseColor | .worldPositionOffset
  | .worldDisplacement | .emissiveColorCompute | .previousWorldPositionOffset =>
    ctx.constant3 .zero .zero .zero
  | .opacity | .opacityMask | .tessellationMultiplier | .subsurfaceColor | .customData0
  | .ambientOcclusion => ctx.constant1 .one
  | .metallic | .pixelDepthOffset => ctx.constant1 .zero
  | .specular | .roughness => ctx.constant1 .half
  | .customData1 => ctx.constant1 .tenth
  | .normal => ctx.constant3 .zero .zero .one
  | .refraction => ctx.constant2 .one .zero
  | .shadingModel => ctx.shadingModel ctx.material.shadingModels.first
  | .customizedUV index => ctx.textureCoordinate index.val .none

/-- The type with the width of a scalar made definite. -/
def definite (t : ValueType) : ValueType := if t = .float then .float1 else t

/-- Brings a literal to a type by selecting components, if that is possible, so that it stays a
literal. -/
def castLiteral (ctx : Context) (c : Code) (source target : ValueType) : PassM Code :=
  let target' := definite target
  if definite source = target' then return c
  else if source = .float || (target' = .float1 && source.isFloat) then
    ctx.componentMask c
      ⟨true, target'.atLeast .float2, target'.atLeast .float3, target'.atLeast .float4⟩
  else ctx.resize c target

/-- Brings the code of a property to a type. -/
def castProperty (ctx : Context) (c : Code) (target : ValueType) : PassM Code := do
  if c.isNone then return none
  if (← ctx.constantOf c).isSome then ctx.castLiteral c (← ctx.typeOf c) target
  else ctx.resize c target

/-- The code that is recorded for a property. A uniform expression is read through its slot, since
no code is added once the results are fixed. -/
def readResult (ctx : Context) (c : Code) : PassM Code := do
  match c with
  | none => return none
  | some i => if ← ctx.isDeferred c then ctx.readSlot i else return c

/-- Records the result of a property. -/
def setResult (ctx : Context) (property : Property) (c : Code) : PassM Unit := do
  let read ← ctx.readResult c
  modify fun p => { p with results := p.results.set property read }

end Context

/-! ### Properties -/

/-- The property that another is derived from. -/
def Property.base : Property → Property
  | .emissiveColorCompute => .emissiveColor
  | .previousWorldPositionOffset => .worldPositionOffset
  | p => p

/-- Whether the opacity of a material has no effect. -/
def Material.ignoresOpacity (m : Material) : Bool :=
  m.domain = .surface && m.blendMode = .solid &&
    !(m.shadingModels.isLit && !m.shadingModels.has .defaultLit) &&
    !m.shadingModels.has .singleLayerWater

/-- Whether a property is compiled from its default. -/
def Environment.usesDefault (env : Environment) (property : Property) : Bool :=
  !(env.material.inputs.get property).isConnected ||
    match property with
    | .opacity | .opacityMask => env.material.ignoresOpacity
    | .worldDisplacement => env.options.featureLevel.below .sm5
    | .customizedUV index => env.material.customizedUVs ≤ (index.val : Int)
    | _ => false

namespace Pass

/-- Where a property is compiled. -/
def propertyContext (env : Environment) (property : Property) (scope : Nat) : Context :=
  { env, stage := property.stage, scope, property := some property.base,
    attributeOf := some property.base,
    previousFrame := property = .previousWorldPositionOffset }

/-- Compiles what a property is connected to, or its default. -/
def compileSource (env : Environment) (compile : Compiler) (property : Property) (ctx : Context) :
    PassM Code :=
  if env.usesDefault property.base then ctx.compileDefault property.base
  else compile ctx (env.material.inputs.get property.base)

/-- The message of the log for a property that was compiled. -/
def propertyMessage : String := "compiled property"

/-- What the log says of a property that was compiled. -/
def propertyAttributes (property : Property) (useDefault ok : Bool) : List (String × String) :=
  [("property", property.name), ("freq", property.stage.name), ("default", toString useDefault),
   ("ok", toString ok)]

/-- Brings code to the type of a property and records it. -/
def recordProperty (env : Environment) (property : Property) (ctx : Context) (code : Code) :
    PassM (Context × Code) := do
  let code ← ctx.castProperty code property.type
  ctx.setResult property code
  note .debug propertyMessage
    (propertyAttributes property (env.usesDefault property.base) code.isSome)
  return (ctx, code)

/-- Compiles a property, and gives its code and where it was compiled. -/
def compileProperty (env : Environment) (compile : Compiler) (property : Property) :
    PassM (Context × Code) := do
  let ctx := propertyContext env property ((← get).stageScopes.get property.stage)
  recordProperty env property ctx (← compileSource env compile property ctx)

/-- Compiles properties in order. -/
def compileProperties (env : Environment) (compile : Compiler) (properties : List Property) :
    PassM Unit :=
  properties.forM fun property => do let _ ← compileProperty env compile property

/-- The shading models in effect: those that nodes selected, where the material says so. -/
def effectiveModels (p : Pass) (m : Material) : ShadingModels :=
  if m.shadingModelFromExpression && p.shadingModels != .empty then p.shadingModels
  else m.shadingModels

/-- Brings code to a type and appends a parameter to it. -/
def appendParameter (ctx : Context) (code : Code) (type : ValueType) (flags : Context.ResizeFlags)
    (name : String) (default : Single) : PassM Code := do
  let first ← ctx.resize code type flags
  let second ← ctx.resize (← ctx.scalarParameter name default) .float1
  ctx.append first second

/-- Records the result of a property anew, with a parameter appended to it. -/
def recordAppended (property : Property) (type : ValueType) (flags : Context.ResizeFlags)
    (name : String) (default : Single) (compiled : Context × Code) : PassM Unit := do
  let (ctx, code) := compiled
  ctx.setResult property (← appendParameter ctx code type flags name default)

/-- A property whose value has a parameter appended to it. -/
def compileAppended (env : Environment) (compile : Compiler) (property : Property)
    (type : ValueType) (flags : Context.ResizeFlags) (name : String) (default : Single) :
    PassM Unit := do
  recordAppended property type flags name default (← compileProperty env compile property)

/-- Compiles the subsurface color, with the profile appended that the renderer replaces. -/
def compileSubsurface (env : Environment) (compile : Compiler) : PassM Unit :=
  compileAppended env compile .subsurfaceColor .float3 { exact := true, replicate := true }
    "__SubsurfaceProfile" .one

/-- Compiles the refraction, with the depth bias appended. -/
def compileRefraction (env : Environment) (compile : Compiler) : PassM Unit :=
  compileAppended env compile .refraction .float1 {} "RefractionDepthBias"
    env.material.refractionBias

/-- Compiles all properties but the normal and the customized texture coordinates. -/
def compileRemaining (env : Environment) (compile : Compiler) : PassM Unit := do
  compileProperties env compile
    [.emissiveColor, .diffuseColor, .specularColor, .baseColor, .metallic, .specular, .roughness,
     .opacity, .opacityMask, .worldPositionOffset, .worldDisplacement, .tessellationMultiplier,
     .shadingModel]
  let models := (← get).effectiveModels env.material
  if env.material.domain = .surface && models.hasSubsurface then compileSubsurface env compile
  compileProperties env compile [.customData0, .customData1, .ambientOcclusion]
  if env.material.blendMode.isTranslucent || models.has .singleLayerWater then
    compileRefraction env compile
  if env.material.domain = .lightFunction then
    compileProperties env compile [.emissiveColorCompute]
  if ((← get).results.get .worldPositionOffset).isSome then
    compileProperties env compile [.previousWorldPositionOffset]
  compileProperties env compile [.pixelDepthOffset]

/-- Whether the result of a property differs from a constant in its first components. -/
def isUsed (env : Environment) (property : Property) (neutral : Value) (count : Nat) :
    PassM Bool := do
  let p ← get
  let c := p.results.get property
  if c.isNone then return false
  let stage := property.stage
  let ctx : Context := { env, stage, scope := p.stageScopes.get stage }
  match ← ctx.constantOf c with
  | some v => return !v.equalUpTo count neutral
  | none => return true

end Pass

end ShaderGraph
