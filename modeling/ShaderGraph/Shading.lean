/-!
# Domains, blend modes and shading models

What a material says about how it is drawn. Each of these is a small number, and a material may
carry one without a meaning; such a number is kept as `other`.
-/

namespace ShaderGraph

/-! ### Domains -/

/-- What a material is used for. -/
inductive Domain where
  | surface
  | deferredDecal
  | lightFunction
  | volume
  | postProcess
  | ui
  | runtimeVirtualTexture
  | other (code : UInt8)
deriving DecidableEq, Inhabited

namespace Domain

/-- The domains in the order of their numbers. -/
def listed : List Domain :=
  [surface, deferredDecal, lightFunction, volume, postProcess, ui, runtimeVirtualTexture]

/-- The domain with the given number. -/
def ofCode (code : UInt8) : Domain := listed.getD code.toNat (other code)

/-- The name of a domain. -/
def name : Domain → String
  | surface => "Surface"
  | deferredDecal => "DeferredDecal"
  | lightFunction => "LightFunction"
  | volume => "Volume"
  | postProcess => "PostProcess"
  | ui => "UI"
  | runtimeVirtualTexture => "RuntimeVirtualTexture"
  | other code => s!"Domain({code})"

/-- Whether materials of the domain may sample virtual textures and bias mip levels: surfaces and
decals. -/
def isSurfaceOrDecal : Domain → Bool
  | surface | deferredDecal => true
  | _ => false

end Domain

/-! ### Blend modes -/

/-- How the output of a material is blended. -/
inductive BlendMode where
  | solid
  | masked
  | translucent
  | additive
  | modulate
  | alphaComposite
  | alphaHoldout
  | other (code : UInt8)
deriving DecidableEq, Inhabited

namespace BlendMode

/-- The blend modes in the order of their numbers. -/
def listed : List BlendMode :=
  [solid, masked, translucent, additive, modulate, alphaComposite, alphaHoldout]

/-- The blend mode with the given number. -/
def ofCode (code : UInt8) : BlendMode := listed.getD code.toNat (other code)

/-- The name of a blend mode. -/
def name : BlendMode → String
  | solid => "Opaque"
  | masked => "Masked"
  | translucent => "Translucent"
  | additive => "Additive"
  | modulate => "Modulate"
  | alphaComposite => "AlphaComposite"
  | alphaHoldout => "AlphaHoldout"
  | other code => s!"BlendMode({code})"

/-- Whether the mode is drawn among the translucent surfaces. -/
def isTranslucent : BlendMode → Bool
  | solid | masked => false
  | _ => true

end BlendMode

/-! ### Shading models -/

/-- A lighting model. -/
inductive ShadingModel where
  | unlit
  | defaultLit
  | subsurface
  | preintegratedSkin
  | clearCoat
  | subsurfaceProfile
  | twoSidedFoliage
  | hair
  | cloth
  | eye
  | singleLayerWater
  | thinTranslucent
  | other (code : UInt8)
deriving DecidableEq, Inhabited

namespace ShadingModel

/-- The shading models in the order of their numbers. -/
def listed : List ShadingModel :=
  [unlit, defaultLit, subsurface, preintegratedSkin, clearCoat, subsurfaceProfile,
   twoSidedFoliage, hair, cloth, eye, singleLayerWater, thinTranslucent]

/-- The shading model with the given number. -/
def ofCode (code : UInt8) : ShadingModel := listed.getD code.toNat (other code)

/-- The number of a shading model. -/
def code : ShadingModel → Nat
  | unlit => 0
  | defaultLit => 1
  | subsurface => 2
  | preintegratedSkin => 3
  | clearCoat => 4
  | subsurfaceProfile => 5
  | twoSidedFoliage => 6
  | hair => 7
  | cloth => 8
  | eye => 9
  | singleLayerWater => 10
  | thinTranslucent => 11
  | other code => code.toNat

/-- The name of a shading model. -/
def name : ShadingModel → String
  | unlit => "Unlit"
  | defaultLit => "DefaultLit"
  | subsurface => "Subsurface"
  | preintegratedSkin => "PreintegratedSkin"
  | clearCoat => "ClearCoat"
  | subsurfaceProfile => "SubsurfaceProfile"
  | twoSidedFoliage => "TwoSidedFoliage"
  | hair => "Hair"
  | cloth => "Cloth"
  | eye => "Eye"
  | singleLayerWater => "SingleLayerWater"
  | thinTranslucent => "ThinTranslucent"
  | other code => s!"ShadingModel({code})"

/-- The define that announces a lit shading model to the shader. -/
def defineName : ShadingModel → String
  | defaultLit => "MATERIAL_SHADINGMODEL_DEFAULT_LIT"
  | subsurface => "MATERIAL_SHADINGMODEL_SUBSURFACE"
  | preintegratedSkin => "MATERIAL_SHADINGMODEL_PREINTEGRATED_SKIN"
  | clearCoat => "MATERIAL_SHADINGMODEL_CLEAR_COAT"
  | subsurfaceProfile => "MATERIAL_SHADINGMODEL_SUBSURFACE_PROFILE"
  | twoSidedFoliage => "MATERIAL_SHADINGMODEL_TWOSIDED_FOLIAGE"
  | hair => "MATERIAL_SHADINGMODEL_HAIR"
  | cloth => "MATERIAL_SHADINGMODEL_CLOTH"
  | eye => "MATERIAL_SHADINGMODEL_EYE"
  | singleLayerWater => "MATERIAL_SHADINGMODEL_SINGLELAYERWATER"
  | thinTranslucent => "MATERIAL_SHADINGMODEL_THIN_TRANSLUCENT"
  | unlit | other _ => ""

end ShadingModel

/-- A set of shading models, one bit each for the first sixteen numbers. -/
structure ShadingModels where
  bits : UInt16
deriving DecidableEq, Inhabited

namespace ShadingModels

/-- The set without members. -/
def empty : ShadingModels := ⟨0⟩

/-- The set of one model; a number beyond the sixteenth bit leaves it empty. -/
def single (m : ShadingModel) : ShadingModels :=
  ⟨if m.code < 16 then 1 <<< m.code.toUInt16 else 0⟩

/-- The models of either set. -/
def union (s t : ShadingModels) : ShadingModels := ⟨s.bits ||| t.bits⟩

/-- The set with a model added. -/
def insert (s : ShadingModels) (m : ShadingModel) : ShadingModels := s.union (single m)

/-- The set of the listed models. -/
def ofList (ms : List ShadingModel) : ShadingModels := ms.foldl insert empty

/-- Whether a model is in the set. -/
def has (s : ShadingModels) (m : ShadingModel) : Bool := s.bits &&& (single m).bits != 0

/-- Whether the only model is the unlit one. -/
def isUnlit (s : ShadingModels) : Bool := s == single .unlit

/-- Whether some model other than the unlit one is in the set. -/
def isLit (s : ShadingModels) : Bool := s.bits &&& 0xfffe != 0

/-- Whether a model that uses the subsurface color is in the set. -/
def hasSubsurface (s : ShadingModels) : Bool :=
  [ShadingModel.subsurface, .preintegratedSkin, .subsurfaceProfile, .twoSidedFoliage, .cloth,
   .eye].any s.has

/-- The listed models of the set. -/
def members (s : ShadingModels) : List ShadingModel := ShadingModel.listed.filter s.has

/-- The number of listed models in the set. -/
def count (s : ShadingModels) : Nat := s.members.length

/-- The first listed model of the set, the unlit one if there is none. -/
def first (s : ShadingModels) : ShadingModel := s.members.headD .unlit

end ShadingModels

end ShaderGraph
