import ShaderGraph.Input
import ShaderGraph.Property
import ShaderGraph.Text.Quoted

/-!
# Diagnostics

What can be wrong with a material. A `Problem` is the cause; `kind` classifies it and `message` is
its wording. A `Diagnostic` is a problem as it was reported, with the node it was found at.
-/

namespace ShaderGraph

/-- The class of a diagnostic. -/
inductive ErrorKind where
  /-- An invalid cast, arithmetic on what is no number, too few components. -/
  | type
  /-- The shape of the graph: cycles, missing inputs, exceeded limits. -/
  | structural
  /-- A feature used where the stage or the domain forbids it. -/
  | domain
  | other
deriving DecidableEq

namespace ErrorKind

/-- The name of a class. -/
def name : ErrorKind → String
  | type => "type"
  | structural => "structural"
  | domain => "domain"
  | other => "unknown"

/-- The class with the given number. -/
def ofCode (code : UInt8) : ErrorKind := [type, structural, domain].getD code.toNat other

end ErrorKind

/-- What is wrong. -/
inductive Problem where
  -- Types.
  | unsupported (operand : String)
  | invalidCast (source target : ValueType)
  | nonNumericCast
  | coercion (code : String) (source target : ValueType)
  | nonNumericArithmetic (a b : ValueType)
  | undefinedArithmetic (a b : ValueType)
  | crossOperands
  | fewComponents (code : String) (type : ValueType) (mask : Mask)
  | cannotAppend (a b : ValueType)
  | notStaticBool (type : ValueType)
  | unknownTexture (type : ValueType)
  | samplerMismatch (texture : String)
  | invalidDerivative (axis : String)
  | invalidMipValue
  | interpolatorType (type : ValueType)
  | outputType (type : ValueType) (name : String)
  -- Structure.
  | noGraph (material : String)
  | missingNode (node : NodeId)
  | reentrant
  | emptyMask (mask : Mask)
  | missingInput (kind : String)
  | missingNamedInput (kind input : String)
  | missingFunctionBody
  | missingFunctionInput (index : Int)
  | missingFunctionOutput (output function : String)
  | argumentCount (function : String) (given inputs : Nat)
  | noFunctionOutput (function : String) (output : Int)
  | invalidOutput (name : String) (output : Int)
  | textureIndex (index : Int)
  | missingDerivative (axis : String)
  | noVirtualTexture
  | notATexture
  | stackLayer (layer : Int)
  | coordinateSets (available : Nat) (index : Int)
  | unknownWorldPosition (code : UInt8)
  | unreadableInterpolator
  | notInterpolator (node : NodeId)
  | notCustomOutput (node : NodeId)
  | repeatedCustomOutput (name : String)
  | attachedCustomOutput (property : Property)
  | interpolatorBudget (used available coordinates custom : Nat)
  -- Stages and domains.
  | featureLevel (actual need : FeatureLevel)
  | vertexTexture
  | vertexSample
  | mipBiasStage
  | virtualTextureDomain
  | pixelDepthStage
  | interpolatorStage
  | runtimeVirtualTexture
  | virtualOpacityMask
  | virtualAttribute (property : Property)
  | litModulate
  | litAlphaHoldout
  | volumeBlend
  | lightFunctionBlend
  | litLightFunction
  | litPostProcess
  | negativeEmissive
  | waterBlend
  | waterModels
  | decalBlend
  /-- A problem that a node states in its own words. -/
  | stated (kind : ErrorKind) (text : String)

namespace Problem

/-- The class of a problem. -/
def kind : Problem → ErrorKind
  | unsupported _ | invalidCast _ _ | nonNumericCast | coercion _ _ _ | nonNumericArithmetic _ _
  | undefinedArithmetic _ _ | crossOperands | fewComponents _ _ _ | cannotAppend _ _
  | notStaticBool _ | unknownTexture _ | samplerMismatch _ | invalidDerivative _
  | invalidMipValue | interpolatorType _ | outputType _ _ => .type
  | featureLevel _ _ | vertexTexture | vertexSample | mipBiasStage | virtualTextureDomain
  | pixelDepthStage | interpolatorStage | runtimeVirtualTexture | virtualOpacityMask
  | virtualAttribute _ | litModulate | litAlphaHoldout | volumeBlend
  | lightFunctionBlend | litLightFunction | litPostProcess | negativeEmissive | waterBlend
  | waterModels | decalBlend => .domain
  | stated kind _ => kind
  | _ => .structural

/-- The number of coordinate sets that the use of an index calls for. It is a 64 bit word, so the
largest index is followed by the smallest number. -/
def coordinateCount (index : Int) : Int := (Int64.ofInt (index + 1)).toInt

/-- The wording of a problem. -/
def message : Problem → String
  | unsupported operand => "Operation not supported on " ++ operand
  | invalidCast source target => s!"Cannot cast from {source.name} to {target.name}."
  | nonNumericCast => "Cannot force a cast between non-numeric types."
  | coercion code source target =>
    s!"Coercion failed: {code}: {source.name} -> {target.name}"
  | nonNumericArithmetic a b =>
    s!"Attempting to perform arithmetic on non-numeric types: {a.name} {b.name}"
  | undefinedArithmetic a b =>
    s!"Arithmetic between types {a.name} and {b.name} are undefined"
  | crossOperands => "Cross product requires 3-component vector input."
  | fewComponents code type mask =>
    s!"Not enough components in ({code}: {type.name}) for component mask {mask.digits}"
  | cannotAppend a b => s!"Cannot append {a.name} and {b.name}."
  | notStaticBool type => s!"Failed to cast {type.name} input to static bool type"
  | unknownTexture type => s!"Sampling unknown texture type: {type.name}"
  | samplerMismatch texture =>
    "Sampler type mismatch for texture " ++ Text.quote texture ++
      ": virtual textures need a virtual sampler type"
  | invalidDerivative axis => s!"Invalid {axis}(UVs) parameter"
  | invalidMipValue => "Invalid mip map parameter"
  | interpolatorType type => s!"Vertex interpolator input must be a float vector, got {type.name}"
  | outputType type name => s!"Bad type {type.name} for {name}"
  | noGraph material => "Material " ++ Text.quote material ++ " has no graph"
  | missingNode node => s!"Missing node {node}"
  | reentrant => "Reentrant expression"
  | emptyMask mask => s!"Couldn't determine result type of component mask {mask.digits}"
  | missingInput kind => s!"Missing {kind} input"
  | missingNamedInput kind input => s!"Missing {kind} input {input}"
  | missingFunctionBody => "Missing function output connection"
  | missingFunctionInput index => s!"Missing function input {index}"
  | missingFunctionOutput output function =>
    "Missing function output " ++ Text.quote output ++ " of " ++ function
  | argumentCount function given inputs =>
    s!"Function {function} called with {given} arguments, has {inputs} inputs"
  | noFunctionOutput function output => s!"Function {function} has no output {output}"
  | invalidOutput name output => s!"Invalid {name} output {output}"
  | textureIndex index => s!"Texture index {index} out of range"
  | missingDerivative axis => s!"Missing {axis}(UVs) parameter"
  | noVirtualTexture => "Unable to find VT uniform expression."
  | notATexture => "The provided uniform expression is not a texture"
  | stackLayer layer => s!"Invalid virtual texture layer {layer}"
  | coordinateSets available index =>
    s!"Only {available} texture coordinate sets can be used by this feature level, " ++
      s!"currently using {coordinateCount index}"
  | unknownWorldPosition code => s!"Encountered unknown world position type '{code}'"
  | unreadableInterpolator => "Invalid custom interpolator index."
  | notInterpolator node => s!"Node {node} is not a vertex interpolator"
  | notCustomOutput node => s!"Node {node} is not a custom output"
  | repeatedCustomOutput name => s!"The material can contain only one {name} node"
  | attachedCustomOutput property =>
    s!"A Custom Output node should not be attached to the {property.name} material property"
  | interpolatorBudget used available coordinates custom =>
    s!"Maximum number of custom vertex interpolators exceeded. ({used} / {available} " ++
      s!"scalar values) (TexCoord: {coordinates} scalars, Custom: {custom} scalars)"
  | featureLevel actual need =>
    s!"Node not supported in feature level {actual.name}. {need.name} required."
  | vertexTexture =>
    "Sampling from vertex textures requires an absolute mip level on feature level ES2"
  | vertexSample =>
    "Sampling from vertex textures requires an absolute mip level on feature level ES2!"
  | mipBiasStage => "MipBias is only supported in the pixel shader"
  | virtualTextureDomain =>
    "Sampling a virtual texture is currently only supported inside surface and decal shaders."
  | pixelDepthStage => "Invalid node used in hull/domain shader input!"
  | interpolatorStage => "Custom interpolator outputs only available in pixel shaders."
  | runtimeVirtualTexture => "Runtime virtual texture sampling requires virtual texturing"
  | virtualOpacityMask =>
    "Sampling a virtual texture is currently not supported when connected to the " ++
      "Opacity Mask material attribute."
  | virtualAttribute property =>
    "Sampling a virtual texture is currently not supported when connected to the " ++
      s!"{property.name} material attribute."
  | litModulate =>
    "Dynamically lit translucency is not supported for BLEND_Modulate materials."
  | litAlphaHoldout => "Alpha Holdout blend mode must use unlit shading model."
  | volumeBlend => "Volume materials must use an Additive blend mode."
  | lightFunctionBlend => "Light function materials must be opaque."
  | litLightFunction => "Light function materials must use unlit."
  | litPostProcess => "Post process materials must use unlit."
  | negativeEmissive => "Only unlit materials can output negative emissive color."
  | waterBlend => "SingleLayerWater materials must be opaque."
  | waterModels => "SingleLayerWater materials cannot be combined with other shading models."
  | decalBlend =>
    "Material using the DeferredDecal domain need to use the BlendModel Translucent " ++
      "(this saves performance)"
  | stated _ text => text

end Problem

/-- A reported problem. -/
structure Diagnostic where
  message : String
  /-- The node it was found at, or the function call that contains it; zero for none. -/
  node : NodeId
  kind : ErrorKind
deriving DecidableEq

end ShaderGraph
