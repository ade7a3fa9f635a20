import ShaderGraph.ValueType
import ShaderGraph.Stage

/-!
# Material properties

The attributes a material computes. The first twenty eight can be connected; the last two are
derived from others: the emissive color of a light function in the compute stage, and the world
position offset of the previous frame.
-/

namespace ShaderGraph

/-- An attribute of a material. -/
inductive Property where
  | emissiveColor
  | opacity
  | opacityMask
  | diffuseColor
  | specularColor
  | baseColor
  | metallic
  | specular
  | roughness
  | normal
  | worldPositionOffset
  | worldDisplacement
  | tessellationMultiplier
  | subsurfaceColor
  | customData0
  | customData1
  | ambientOcclusion
  | refraction
  | customizedUV (index : Fin 8)
  | pixelDepthOffset
  | shadingModel
  | emissiveColorCompute
  | previousWorldPositionOffset
deriving DecidableEq

namespace Property

/-- The connectable properties in the order of their numbers. -/
def connectable : List Property :=
  [emissiveColor, opacity, opacityMask, diffuseColor, specularColor, baseColor, metallic, specular,
   roughness, normal, worldPositionOffset, worldDisplacement, tessellationMultiplier,
   subsurfaceColor, customData0, customData1, ambientOcclusion, refraction, customizedUV 0,
   customizedUV 1, customizedUV 2, customizedUV 3, customizedUV 4, customizedUV 5, customizedUV 6,
   customizedUV 7, pixelDepthOffset, shadingModel]

/-- Every property in the order of their numbers. -/
def all : List Property := connectable ++ [emissiveColorCompute, previousWorldPositionOffset]

/-- The property with the given number. -/
def ofCode? (code : Nat) : Option Property := all[code]?

/-- The name of a property in generated code. -/
def name : Property → String
  | emissiveColor => "EmissiveColor"
  | opacity => "Opacity"
  | opacityMask => "OpacityMask"
  | diffuseColor => "DiffuseColor"
  | specularColor => "SpecularColor"
  | baseColor => "BaseColor"
  | metallic => "Metallic"
  | specular => "Specular"
  | roughness => "Roughness"
  | normal => "Normal"
  | worldPositionOffset => "WorldPositionOffset"
  | worldDisplacement => "WorldDisplacement"
  | tessellationMultiplier => "TessellationMultiplier"
  | subsurfaceColor => "Subsurface"
  | customData0 => "CustomData0"
  | customData1 => "CustomData1"
  | ambientOcclusion => "AmbientOcclusion"
  | refraction => "Refraction"
  | customizedUV index => s!"CustomizedUVs{index.val}"
  | pixelDepthOffset => "PixelDepthOffset"
  | shadingModel => "ShadingModel"
  | emissiveColorCompute => "EmissiveColorCS"
  | previousWorldPositionOffset => "PrevWorldPositionOffset"

/-- The name of an optional property. -/
def nameOr : Option Property → String
  | some p => p.name
  | none => "None"

/-- The number that stands for no property. -/
def noneCode : Nat := 255

/-- The name of the property with the given number, also of a number without a property. -/
def nameOfCode (code : Nat) : String :=
  match ofCode? code with
  | some p => p.name
  | none => if code = noneCode then "None" else s!"Property({code})"

/-- The type a property is brought to. -/
def type : Property → ValueType
  | emissiveColor | diffuseColor | specularColor | baseColor | normal | worldPositionOffset
  | worldDisplacement | subsurfaceColor | emissiveColorCompute | previousWorldPositionOffset =>
    .float3
  | opacity | opacityMask | metallic | specular | roughness | tessellationMultiplier
  | customData0 | customData1 | ambientOcclusion | pixelDepthOffset => .float1
  | refraction | customizedUV _ => .float2
  | shadingModel => .shadingModel

/-- The stage a property is evaluated in. -/
def stage : Property → Stage
  | worldPositionOffset | customizedUV _ | previousWorldPositionOffset => .vertex
  | worldDisplacement => .domain
  | tessellationMultiplier => .hull
  | emissiveColorCompute => .compute
  | _ => .pixel

/-- Whether a property is computed after the normal, in the scope they share. -/
def isShared : Property → Bool
  | emissiveColor | opacity | opacityMask | baseColor | metallic | specular | roughness | normal
  | subsurfaceColor | ambientOcclusion | refraction | pixelDepthOffset | shadingModel => true
  | _ => false

/-- Whether a property is one of the customized texture coordinates. -/
def isCustomizedUV : Property → Bool
  | customizedUV _ => true
  | _ => false

/-- The pixel properties in the order in which they are written. -/
def pixelMembers : List Property :=
  [normal, emissiveColor, opacity, opacityMask, baseColor, metallic, specular, roughness,
   ambientOcclusion, refraction, pixelDepthOffset, subsurfaceColor, shadingModel]

end Property

/-- Something for each property. -/
structure PropertyTable (α : Type) where
  /-- What is kept for a property. -/
  get : Property → α

namespace PropertyTable

variable {α : Type}

/-- The same for every property. -/
def const (a : α) : PropertyTable α := ⟨fun _ => a⟩

/-- The table with `a` kept for a property. -/
def set (t : PropertyTable α) (p : Property) (a : α) : PropertyTable α :=
  ⟨fun q => if q = p then a else t.get q⟩

@[simp] theorem get_const (a : α) (p : Property) : (const a).get p = a := rfl

@[simp] theorem get_set_self (t : PropertyTable α) (p : Property) (a : α) :
    (t.set p a).get p = a := by simp [set]

theorem get_set_of_ne (t : PropertyTable α) {p q : Property} (h : q ≠ p) (a : α) :
    (t.set p a).get q = t.get q := by simp [set, h]

@[simp] theorem set_set (t : PropertyTable α) (p : Property) (a b : α) :
    (t.set p a).set p b = t.set p b := by
  simp only [set, mk.injEq]
  funext q
  split <;> rfl

theorem set_comm (t : PropertyTable α) {p q : Property} (h : q ≠ p) (a b : α) :
    (t.set p a).set q b = (t.set q b).set p a := by
  simp only [set, mk.injEq]
  funext r
  by_cases hp : r = p
  · subst hp
    simp [h.symm]
  · simp [hp]

end PropertyTable

end ShaderGraph
