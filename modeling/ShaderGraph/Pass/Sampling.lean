import ShaderGraph.Pass.PageTable
import ShaderGraph.Pass.Textures

/-!
# Texture samples

A sample reads a texture at a coordinate. First it is checked that the texture can be sampled the
way it is asked for; then the mip level is settled, which outside of the pixel stage is always
given explicitly; last the texts of the texture and the coordinate are put together. Virtual
textures are sampled through a stack.
-/

namespace ShaderGraph

/-- A request to sample a texture. -/
structure Sample where
  texture : Code
  coordinate : Code
  sampler : SamplerType := .color
  mode : MipMode := .automatic
  /-- The mip level, its bias, or the derivative along the first axis of the screen. -/
  mip : Code := none
  /-- The derivative along the second axis of the screen. -/
  mipY : Code := none
  source : SamplerSource := .asset
  /-- Whether the mip bias of the view is applied. -/
  viewMipBias : Bool := false

/-- How the mip level of a sample is given in the end. -/
structure MipChoice where
  mode : MipMode
  mip : Code
  mipY : Code

/-- The shader function and the type of the coordinate for a type of textures. -/
def sampleFunction (type : ValueType) : String × ValueType :=
  if type = .textureCube then ("TextureCubeSample", .float3)
  else if type = .texture2DArray then ("Texture2DArraySample", .float3)
  else if type = .volumeTexture then ("Texture3DSample", .float3)
  else if type = .textureExternal then ("TextureExternalSample", .float2)
  else if type = .textureVirtual then ("TextureVirtualSample", .float2)
  else ("Texture2DSample", .float2)

namespace Context

/-! ### Checks -/

/-- Why the derivatives of a sample cannot be used. -/
def derivativeProblem? (ctx : Context) (s : Sample) : PassM (Option Problem) := do
  if s.mip.isNone then return some (.missingDerivative "DDX")
  if s.mipY.isNone then return some (.missingDerivative "DDY")
  if !(← ctx.typeOf s.mip).isFloat then return some (.invalidDerivative "DDX")
  if !(← ctx.typeOf s.mipY).isFloat then return some (.invalidDerivative "DDY")
  return none

/-- Why the mip level of a sample cannot be used. -/
def mipProblem? (ctx : Context) (s : Sample) : PassM (Option Problem) := do
  if s.mode = .derivative then ctx.derivativeProblem? s
  else if s.mode != .automatic && s.mip.isSome then
    return if (← ctx.typeOf s.mip).isFloat then none else some .invalidMipValue
  else return none

/-- Why a texture of the given type cannot be sampled, given that the stage can sample at all. -/
def sampleProblem? (ctx : Context) (s : Sample) (type : ValueType) : PassM (Option Problem) := do
  if !type.shares .texture then return some (.unknownTexture type)
  if ctx.stage != .pixel && s.mode = .bias then return some .mipBiasStage
  if type = .textureVirtual && !ctx.material.domain.isSurfaceOrDecal then
    return some .virtualTextureDomain
  ctx.mipProblem? s

/-! ### The mip level -/

/-- Whether the mip bias of the view is applied to a sample of the given type. -/
def appliesViewMipBias (ctx : Context) (s : Sample) (type : ValueType) : Bool :=
  s.viewMipBias && ctx.stage = .pixel && ctx.material.domain.isSurfaceOrDecal &&
    !ctx.options.featureLevel.below .sm5 && (type = .texture2D || type = .textureVirtual)

/-- The mip level with the bias of the view applied to it. -/
def biased (ctx : Context) (m : MipChoice) : PassM MipChoice := do
  let mode := if m.mode = .automatic then .bias else m.mode
  if m.mode = .derivative then
    let factor ← ctx.emitInline .float "View.MaterialTextureDerivativeMultiply"
    let mip ← ctx.mul m.mip factor
    let mipY ← ctx.mul m.mipY factor
    return ⟨mode, mip, mipY⟩
  else if m.mip.isSome && m.mode != .automatic then
    let bias ← ctx.emitInline .float "View.MaterialTextureMipBias"
    return ⟨mode, ← ctx.add m.mip bias, m.mipY⟩
  else return ⟨mode, ← ctx.emitInline .float1 "View.MaterialTextureMipBias", m.mipY⟩

/-- The mip level of a sample. Stages without derivatives sample a level, the first by default. -/
def mipChoice (ctx : Context) (s : Sample) : PassM MipChoice := do
  if ctx.stage = .pixel then return ⟨s.mode, s.mip, s.mipY⟩
  else if s.mip.isSome then return ⟨.level, s.mip, s.mipY⟩
  else return ⟨.level, ← ctx.constant1 .zero, s.mipY⟩

/-- The texts of a mip level and of its second derivative. -/
def mipTexts (ctx : Context) (m : MipChoice) (uvType : ValueType) : PassM (String × String) := do
  if (m.mode = .bias || m.mode = .level) && m.mip.isSome then
    return (← ctx.widened m.mip .float1, "0.0f")
  else if m.mode = .derivative then
    let mip ← ctx.widened m.mip uvType
    let mipY ← ctx.widened m.mipY uvType
    return (mip, mipY)
  else return ("0.0f", "0.0f")

/-! ### Ordinary textures -/

/-- The sampler of an ordinary texture. A shared sampler has the bias of the view built in. -/
def samplerText (source : SamplerSource) (biased : Bool) (texture : String) : String :=
  let shared (name : String) := "GetMaterialSharedSampler(" ++ texture ++ "Sampler," ++ name ++ ")"
  match source with
  | .asset => texture ++ "Sampler"
  | .sharedWrap =>
    shared (if biased then "View.MaterialTextureBilinearWrapedSampler"
      else "Material.Wrap_WorldGroupSettings")
  | .sharedClamp =>
    shared (if biased then "View.MaterialTextureBilinearClampedSampler"
      else "Material.Clamp_WorldGroupSettings")
  | .other _ => ""

/-- The type as which the text of a texture is read. -/
def readType (type : ValueType) : ValueType :=
  if type = .textureCube || type = .texture2DArray || type = .volumeTexture ||
    type = .textureExternal then type else .texture2D

/-- The text of a sample, decoded. An unlisted mip mode calls nothing, and what it would be called
with is listed as unused. -/
def sampleText (sampler : SamplerType) (function texture samplerState uv : String)
    (mode : MipMode) (mip mipY : String) : String :=
  let call (suffix : String) (rest : List String) :=
    sampler.decode
      (function ++ suffix ++ "(" ++ ",".intercalate (texture :: samplerState :: uv :: rest) ++ ")")
  match mode with
  | .automatic => call "" []
  | .level => call "Level" [mip]
  | .bias => call "Bias" [mip]
  | .derivative => call "Grad" [mip, mipY]
  | .other _ =>
    let unused := [texture, texture, uv, mip, mipY].map ("string=" ++ ·)
    sampler.decode "" ++ "%!(EXTRA " ++ ", ".intercalate unused ++ ")"

/-- Counts a sample for its stage. Those of the previous frame are not counted. -/
def countSample (ctx : Context) : PassM Unit := do
  unless ctx.previousFrame do
    modify fun p =>
      if ctx.inPixelWork then
        { p with stats := { p.stats with pixelSamples := p.stats.pixelSamples + 1 } }
      else { p with stats := { p.stats with vertexSamples := p.stats.vertexSamples + 1 } }

/-- Samples an ordinary texture. -/
def sampleOrdinary (ctx : Context) (s : Sample) (type : ValueType) (m : MipChoice)
    (biased : Bool) : PassM Code := do
  let (function, uvType) := sampleFunction type
  let (mip, mipY) ← ctx.mipTexts m uvType
  let texture ← ctx.widened s.texture (readType type)
  let uv ← ctx.widened s.coordinate uvType
  let supported ← if m.mode = .level then ctx.requireLevel .es31 else pure true
  unless supported do return none
  let decal := ctx.stage = .pixel && ctx.material.domain = .deferredDecal && m.mode = .automatic
  let function := if decal then function ++ "_Decal" else function
  let code ← ctx.emitTemporary .float4 <|
    sampleText s.sampler function texture (samplerText s.source biased texture) uv m.mode mip mipY
  ctx.countSample
  return code

/-! ### Virtual textures -/

/-- How the coordinates of a virtual texture are wrapped. Textures of several tiles always wrap. -/
def addressModes (source : SamplerSource) (asset : TextureAsset) :
    TextureAddress × TextureAddress :=
  if 1 < asset.blocks then (.wrap, .wrap)
  else
    match source with
    | .asset => (asset.addressX, asset.addressY)
    | .sharedClamp => (.clamp, .clamp)
    | .sharedWrap | .other _ => (.wrap, .wrap)

/-- The ratio of the sides of a texture. -/
def aspectRatio (asset : TextureAsset) : Single :=
  if 0 < asset.sizeY then (Single.ofInt asset.sizeX).div (Single.ofInt asset.sizeY) else .one

/-- Binds a texture to a layer of a stack; the page table layer and the stack. A texture that the
renderer has laid out keeps its layer. -/
def acquireLayer (ctx : Context) (ref : TextureRef) (slot : Int) (s : Sample) (m : MipChoice) :
    PassM (Option (Int × Nat)) := do
  let asset := if ref.index < 0 then default else ctx.material.textures.getD ref.index.toNat default
  let (addressU, addressV) := addressModes s.source asset
  let lookup : Lookup :=
    { mode := m.mode, addressU, addressV, aspect := .one, coordinate := s.coordinate,
      mip := m.mip, mipY := m.mipY, preallocated := ref.index }
  if 0 ≤ ref.layer then
    let stack ← ctx.acquireStack lookup
    if (maxLayers : Int) ≤ ref.layer then
      let _ ← ctx.report (.stackLayer ref.layer)
      return none
    bindLayer stack ref.layer slot
    return some (ref.pageTableLayer, stack)
  else
    let stack ← ctx.acquireStack { lookup with aspect := aspectRatio asset, preallocated := -1 }
    let layer ← takeLayer stack
    bindLayer stack layer slot
    return some (layer, stack)

/-- The physical texture of a slot and its sampler. -/
def physicalTexture (source : SamplerSource) (slot : Int) : String :=
  let table := s!"Material.VirtualTexturePhysicalTable_{slot}"
  match source with
  | .asset => table ++ ", " ++ table ++ "Sampler"
  | _ =>
    table ++ ", GetMaterialSharedSampler(" ++ table ++
      "Sampler, View.SharedBilinearClampedSampler)"

/-- The texture reference that code stands for, or what is wrong with it. -/
def textureReference (u? : Option SharedUniform) : Except Problem (SharedUniform × TextureRef) :=
  match u? with
  | none => .error .noVirtualTexture
  | some u =>
    match u.expr with
    | .texture ref => .ok (u, ref)
    | _ => .error .notATexture

/-- The text of a sample of a virtual texture, given the slot, the text of the page table and the
page table layer. -/
def virtualText (s : Sample) (m : MipChoice) (slot : Int) (pageTable : String) (read : Int) :
    String :=
  s.sampler.decode <|
    (if m.mode = .level then "TextureVirtualSampleLevel" else "TextureVirtualSample") ++ "(" ++
      physicalTexture s.source slot ++ ", " ++ pageTable ++
      s!", {read}, VTUniform_Unpack(Material.VTPackedUniform[{slot}]))"

/-- Emits a sample of a slot through a page table layer of a stack. -/
def emitVirtual (ctx : Context) (s : Sample) (m : MipChoice) (slot read : Int) (stack : Nat) :
    PassM Code := do
  let pageTable ← ctx.textOf ((← get).stackEntries[stack]?.bind (·.pageTable))
  let code ← ctx.emitTemporary .float4 (virtualText s m slot pageTable read)
  ctx.countSample
  return code

/-- Samples a virtual texture through its stack. -/
def sampleVirtual (ctx : Context) (s : Sample) (m : MipChoice) : PassM Code := do
  let _ ← ctx.mipTexts m .float2
  let _ ← ctx.widened s.texture .textureVirtual
  match textureReference (← ctx.uniformOf s.texture) with
  | .error problem => ctx.report problem
  | .ok (u, ref) =>
    let slot := (← get).slots.virtualSlot u
    modify fun p =>
      { p with stats := { p.stats with virtualSamples := p.stats.virtualSamples + 1 } }
    let _ ← ctx.widened s.coordinate .float2
    match ← ctx.acquireLayer ref slot s m with
    | none => return none
    | some (read, stack) => ctx.emitVirtual s m slot read stack

/-! ### Samples -/

/-- Whether the current stage can take a sample. -/
def canSample (ctx : Context) (s : Sample) : PassM Bool := do
  if ctx.options.featureLevel = .es2 && ctx.stage = .vertex && s.mode != .level then
    let _ ← ctx.report .vertexSample
    return false
  if ctx.stage = .pixel then return true else ctx.requireLevel .es31

/-- Samples a texture: a value of four components. -/
def sample (ctx : Context) (s : Sample) : PassM Code := do
  if s.texture.isNone || s.coordinate.isNone then return none
  unless ← ctx.canSample s do return none
  let type ← ctx.typeOf s.texture
  match ← ctx.sampleProblem? s type with
  | some problem => ctx.report problem
  | none =>
    let m ← ctx.mipChoice s
    let biased := ctx.appliesViewMipBias s type
    let virtual : Bool := type = .textureVirtual
    let builtIn := !virtual && (s.source = .sharedWrap || s.source = .sharedClamp)
    let m ← if biased && !builtIn then ctx.biased m else pure m
    if virtual then ctx.sampleVirtual s m else ctx.sampleOrdinary s type m biased

end Context

end ShaderGraph
