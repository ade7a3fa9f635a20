import ShaderGraph.Pass.Properties

/-!
# Defines

The settings under which a generated shader is compiled.
-/

namespace ShaderGraph

/-- A named setting. -/
structure Define where
  name : String
  value : String
deriving DecidableEq

namespace Define

/-- A setting that is a number. -/
def ofNat (name : String) (value : Nat) : Define := ⟨name, toString value⟩

/-- A setting that is on or off. -/
def ofBool (name : String) (value : Bool) : Define := ofNat name value.toNat

/-- The line of a setting; an empty value is left out. -/
def line (d : Define) : String :=
  "#define " ++ d.name ++ (if d.value = "" then "" else " " ++ d.value) ++ "\n"

/-- The page tables of a stack. -/
def ofStack (stack : LayerStack) (i : Nat) : Define :=
  ⟨s!"VIRTUALTEXTURE_PAGETABLE_{i}",
    ", ".intercalate ((List.range stack.pageTables).map fun (t : Nat) =>
      s!"Material.VirtualTexturePageTable{t}_{i}")⟩

/-- The settings of the shading models. -/
def ofModels (models : ShadingModels) : List Define :=
  if models.isLit then
    let lit := models.members.filter (· != .unlit)
    lit.map (fun m => ofNat m.defineName 1) ++
      if lit.length = 1 then [ofNat "MATERIAL_SINGLE_SHADINGMODEL" 1] else []
  else [ofNat "MATERIAL_SINGLE_SHADINGMODEL" 1, ofNat "MATERIAL_SHADINGMODEL_UNLIT" 1]

end Define

/-- The settings of a compiled material. -/
def Pass.defines (p : Pass) (m : Material) : List Define :=
  [.ofBool "INTERPOLATE_VERTEX_COLOR" p.usage.vertexColor,
    .ofBool "WANT_PIXEL_DEPTH_OFFSET" p.usage.pixelDepthOffset,
    .ofBool "USES_WORLD_POSITION_OFFSET" p.usage.worldPositionOffset,
    .ofBool "USES_EMISSIVE_COLOR" p.usage.emissiveColor] ++
  (if p.usage.positionWithoutOffsets then
    [.ofNat "NEEDS_WORLD_POSITION_EXCLUDING_SHADER_OFFSETS" 1] else []) ++
  [.ofBool "MATERIAL_FULLY_ROUGH" p.usage.fullyRough,
    .ofBool "MATERIAL_TWO_SIDED" m.twoSided,
    .ofNat "NUM_VIRTUALTEXTURE_SAMPLES" p.slots.layerStacks.length] ++
  p.slots.layerStacks.zipIdx.map (fun (stack, i) => .ofStack stack i) ++
  [.ofNat "IS_MATERIAL_SHADER" 1] ++
  Define.ofModels (p.effectiveModels m)

end ShaderGraph
