import ShaderGraph.Pass.Arithmetic

/-!
# Texture references

A reference to a texture of the material is a uniform expression. Without virtual texturing a
virtual texture counts as an ordinary one.
-/

namespace ShaderGraph.Context

/-- Whether the target platform has a feature level; if not, that is reported. -/
def requireLevel (ctx : Context) (need : FeatureLevel) : PassM Bool := do
  if ctx.options.featureLevel.below need then
    let _ ← ctx.report (.featureLevel ctx.options.featureLevel need)
    return false
  return true

/-- Whether code of the current stage computes pixels. -/
def inPixelWork (ctx : Context) : Bool := ctx.stage = .pixel || ctx.stage = .compute

/-- Whether textures can be read in the current stage. -/
def canReadTextures (ctx : Context) : PassM Bool :=
  if ctx.inPixelWork then return true else ctx.requireLevel .es31

/-- The type of a texture of the material. -/
def textureType? (ctx : Context) (index : Int) : PassM (Option (TextureAsset × ValueType)) := do
  match if index < 0 then none else ctx.material.textures[index.toNat]? with
  | none =>
    let _ ← ctx.report (.textureIndex index)
    return none
  | some asset =>
    if !asset.type.shares .texture || asset.type.components != 0 then
      let _ ← ctx.report (.unknownTexture asset.type)
      return none
    else if asset.type = .textureVirtual && !ctx.options.virtualTexturing then
      return some (asset, .texture2D)
    else return some (asset, asset.type)

/-- Emits a texture reference. -/
def emitTexture (ctx : Context) (ref : TextureRef) (type : ValueType) : PassM Code :=
  ctx.emitUniform (.texture ref) [] type 0 ""

/-- A texture of the material. The sampler type has to agree with whether it is virtual. -/
def texture (ctx : Context) (index : Int) (sampler : SamplerType) (mode : MipMode) :
    PassM Code := do
  if ctx.options.featureLevel = .es2 && ctx.stage = .vertex && mode != .level then
    return ← ctx.report .vertexTexture
  unless ← ctx.canReadTextures do return none
  match ← ctx.textureType? index with
  | none => return none
  | some (asset, type) =>
    let virtual : Bool := type = .textureVirtual
    if virtual != sampler.isVirtual && (virtual || ctx.options.virtualTexturing) then
      ctx.report (.samplerMismatch asset.name)
    else
      let kind := if type = .textureExternal then TextureKind.external else .asset
      ctx.emitTexture ⟨kind, "", index, sampler, -1, -1⟩ type

/-- A texture that can be replaced by name; the given one is its default. -/
def textureParameter (ctx : Context) (name : String) (index : Int) (sampler : SamplerType) :
    PassM Code := do
  unless ← ctx.canReadTextures do return none
  match ← ctx.textureType? index with
  | none => return none
  | some (_, type) =>
    let kind := if type = .textureExternal then TextureKind.external else .parameter
    ctx.emitTexture ⟨kind, name, index, sampler, -1, -1⟩ type

/-- A virtual texture whose layers the renderer has laid out; no code without virtual texturing. -/
def virtualTexture (ctx : Context) (index layer pageTableLayer : Int) (sampler : SamplerType) :
    PassM Code := do
  unless ctx.options.virtualTexturing do return none
  unless ← ctx.canReadTextures do return none
  ctx.emitTexture ⟨.asset, "", index, sampler, layer, pageTableLayer⟩ .textureVirtual

end ShaderGraph.Context
