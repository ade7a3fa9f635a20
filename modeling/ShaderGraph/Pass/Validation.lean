import ShaderGraph.Pass.Properties

/-!
# Checks of a material

What the renderer cannot draw, apart from what is found when nodes are compiled: combinations of
domain, blend mode and shading models, virtual textures where they cannot be read, and more
interpolated scalars than there is room for.
-/

namespace ShaderGraph

/-! ### Combinations -/

/-- The combinations that the renderer cannot draw. -/
def Material.problems (m : Material) (models : ShadingModels) : List Problem :=
  let lit := models.isLit
  let blend := m.blendMode
  let check (wrong : Bool) (problem : Problem) := if wrong then [problem] else []
  check (blend = .modulate && lit && m.domain != .deferredDecal) .litModulate ++
    check (blend = .alphaHoldout && !models.isUnlit) .litAlphaHoldout ++
    check (m.domain = .volume && blend != .additive) .volumeBlend ++
    check (m.domain = .lightFunction && blend != .solid) .lightFunctionBlend ++
    check (m.domain = .lightFunction && lit) .litLightFunction ++
    check (m.domain = .postProcess && lit) .litPostProcess ++
    check (m.allowNegativeEmissive && lit) .negativeEmissive ++
    check (models.has .singleLayerWater && blend != .solid) .waterBlend ++
    check (models.has .singleLayerWater && models != .single .singleLayerWater) .waterModels ++
    check (m.domain = .deferredDecal && blend != .translucent) .decalBlend

/-! ### Virtual textures -/

namespace ExpressionGraph

/-- Whether a node that uses a virtual texture is found among the nodes that are `pending` and
those they lead to. The first argument bounds the number of connections that are followed. -/
def findsVirtualTexture (g : ExpressionGraph) : Nat → List NodeId → List Input → Bool
  | 0, _, _ => false
  | _, _, [] => false
  | n + 1, visited, input :: pending =>
    if !input.isConnected || visited.contains input.node then
      g.findsVirtualTexture n visited pending
    else
      match g.node? input.node with
      | none => g.findsVirtualTexture n (input.node :: visited) pending
      | some e =>
        e.usesVirtualTexture ||
          g.findsVirtualTexture n (input.node :: visited) (e.inputs ++ pending)

/-- Whether a connection leads to a node that uses a virtual texture. Every connection of the graph
is followed at most once, besides the first. -/
def reachesVirtualTexture (g : ExpressionGraph) (root : Input) : Bool :=
  g.findsVirtualTexture ((g.expressions.flatMap (·.inputs)).length + 2) [] [root]

end ExpressionGraph

/-- The problem of a property that reads a virtual texture, for those that cannot. -/
def Property.virtualTextureProblem? : Property → Option Problem
  | .opacityMask => some .virtualOpacityMask
  | p => if p.stage = .pixel then none else some (.virtualAttribute p)

/-- The properties that lead to a virtual texture but cannot read it. -/
def virtualTextureProblems (m : Material) (g : ExpressionGraph) : List Problem :=
  Property.connectable.filterMap fun property =>
    if g.reachesVirtualTexture (m.inputs.get property) then property.virtualTextureProblem?
    else none

/-! ### Interpolators -/

/-- The problem of more interpolated scalars than there is room for beside the coordinates. -/
def Pass.interpolatorProblem? (p : Pass) (level : FeatureLevel) : Option Problem :=
  let available := if level = .es2 then 6 else 16
  let coordinates := p.pixelCoordinates.bound * 2
  let custom := p.interpolatedScalars
  if custom != 0 && available < coordinates + custom then
    some (.interpolatorBudget (coordinates + custom) available coordinates custom)
  else none

end ShaderGraph
