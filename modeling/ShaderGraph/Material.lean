import ShaderGraph.Input
import ShaderGraph.Property
import ShaderGraph.Shading
import ShaderGraph.Single.Basic
import ShaderGraph.Texture
import ShaderGraph.Log

/-!
# Materials and options

A `Material` is everything that is said about a material but its graph: what its properties are
connected to, how it is drawn, and the textures and static parameters that its nodes refer to.
`Options` are the choices of one compilation.
-/

namespace ShaderGraph

/-- A material, its graph apart. -/
structure Material where
  name : String := ""
  /-- What each property is connected to. -/
  inputs : PropertyTable Input := .const .none
  domain : Domain := .surface
  blendMode : BlendMode := .solid
  shadingModels : ShadingModels := .single .defaultLit
  /-- Whether the shading models that nodes select, if any do, replace those of the material. -/
  shadingModelFromExpression : Bool := false
  textures : List TextureAsset := []
  /-- The custom output nodes to compile. -/
  customOutputs : List NodeId := []
  /-- The nodes computed in the vertex stage and interpolated to the pixel stage. -/
  interpolators : List NodeId := []
  staticSwitches : List (String × Bool) := []
  staticMasks : List (String × Mask) := []
  opacityMaskClip : Single := Single.third
  refractionBias : Single := Single.zero
  maxDisplacement : Single := Single.zero
  translucencyLighting : Single := Single.one
  allowNegativeEmissive : Bool := false
  twoSided : Bool := false
  /-- The number of customized texture coordinates that are compiled. -/
  customizedUVs : Int := 0

/-- The choices of a compilation. -/
structure Options where
  featureLevel : FeatureLevel := .sm5
  /-- Whether virtual textures are sampled through stacks, and not as ordinary textures. -/
  virtualTexturing : Bool := false
  /-- Values of static switches that take precedence over those of the material. -/
  staticSwitches : List (String × Bool) := []
  /-- The lowest level that is logged, if anything is. -/
  logLevel : Option LogLevel := none

end ShaderGraph
