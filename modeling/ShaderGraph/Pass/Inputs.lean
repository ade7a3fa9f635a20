import ShaderGraph.Pass.Arithmetic

/-!
# What the renderer supplies

Values that a shader reads from the vertex, the view or the material itself: colors, positions,
texture coordinates, the time and the shading model.
-/

namespace ShaderGraph.Context

/-- The vertex color. Its interpolation is announced for every stage but the vertex stage. -/
def vertexColor (ctx : Context) : PassM Code := do
  if ctx.stage != .vertex then
    modify fun p => { p with usage := { p.usage with vertexColor := true } }
  ctx.emitInline .float4 "Parameters.VertexColor"

/-! ### Positions -/

/-- The shader function of a position: material offsets can be removed where a stage after the
vertex stage reads it, and the previous position is known in the vertex stage alone. -/
def positionFunction (ctx : Context) (space : String) (withoutOffsets : Bool) : String :=
  "Get" ++ (if ctx.previousFrame && ctx.stage = .vertex then "Prev" else "") ++ space ++
    (if withoutOffsets && ctx.stage = .pixel then "_NoMaterialOffsets" else "")

/-- A position in the given space. Offsets can be left out from feature level `es31` on. -/
def positionIn (ctx : Context) (space : String) (withoutOffsets : Bool) : PassM Code := do
  let withoutOffsets := withoutOffsets && !ctx.options.featureLevel.below .es31
  if withoutOffsets then
    modify fun p => { p with usage := { p.usage with positionWithoutOffsets := true } }
  modify fun p => { p with usage := { p.usage with vertexPosition := true } }
  ctx.emitInline .float3 (ctx.positionFunction space withoutOffsets ++ "(Parameters)")

/-- The position of the vertex or the pixel in the world. -/
def worldPosition (ctx : Context) : WorldPosition → PassM Code
  | .plain => ctx.positionIn "WorldPosition" false
  | .withoutOffsets => ctx.positionIn "WorldPosition" true
  | .cameraRelative => ctx.positionIn "TranslatedWorldPosition" false
  | .cameraRelativeWithoutOffsets => ctx.positionIn "TranslatedWorldPosition" true
  | .other code => ctx.report (.unknownWorldPosition code)

/-- The depth of the pixel from the camera. -/
def pixelDepth (ctx : Context) : PassM Code :=
  match ctx.stage with
  | .pixel | .compute | .vertex => ctx.emitInline .float "GetScreenPosition(Parameters).w"
  | .hull | .domain => ctx.report .pixelDepthStage

/-! ### Texture coordinates -/

/-- The number of texture coordinate sets that can be read. -/
def coordinateSets (ctx : Context) : Nat :=
  if ctx.options.featureLevel = .es2 && ctx.material.domain != .ui then 3 else 8

/-- A set of texture coordinates. -/
def textureCoordinate (ctx : Context) (index : Int) (mirror : Mirror) : PassM Code := do
  if index < 0 || (ctx.coordinateSets : Int) ≤ index then
    ctx.report (.coordinateSets ctx.coordinateSets index)
  else
    let i := index.toNat
    modify fun p =>
      if ctx.stage = .vertex then { p with vertexCoordinates := p.vertexCoordinates.insert i }
      else { p with pixelCoordinates := p.pixelCoordinates.insert i }
    let plain := s!"Parameters.TexCoords[{i}].xy"
    match mirror.function? with
    | some function => ctx.emitInline .float2 (function ++ "(" ++ plain ++ ", Parameters)")
    | none => ctx.emitInline .float2 plain

/-! ### Time and shading model -/

/-- Which clock is read. -/
inductive Clock where
  /-- It stands still while the game is paused. -/
  | game
  | real

/-- The name of a clock among the values of the view. -/
def Clock.name : Clock → String
  | game => "GameTime"
  | real => "RealTime"

/-- The time in seconds, within a period if one is given. -/
def time (ctx : Context) (clock : Clock) (period? : Option Single) : PassM Code := do
  let view := (if ctx.previousFrame then "View.PrevFrame" else "View.") ++ clock.name
  match period? with
  | none => ctx.emitInline .float view
  | some period =>
    if period.equal .zero then ctx.constant1 .zero
    else
      let text ← ctx.textOf (← ctx.constant1 period)
      ctx.emitInline .float ("fmod(" ++ view ++ "," ++ text ++ ")")

/-- The number of a shading model, which is thereby in use. -/
def shadingModel (ctx : Context) (m : ShadingModel) : PassM Code := do
  modify fun p => { p with shadingModels := p.shadingModels.insert m }
  ctx.emitInline .shadingModel (toString m.code)

end ShaderGraph.Context
