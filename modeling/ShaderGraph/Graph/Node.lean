import ShaderGraph.Input
import ShaderGraph.Shading
import ShaderGraph.Stage
import ShaderGraph.Texture
import ShaderGraph.Value

/-!
# Nodes

The kinds of nodes of a material graph, with what their inputs are connected to. Functions are
reusable parts of a graph; their nodes are nodes of the graph, and a function is referred to by its
index in it.
-/

namespace ShaderGraph

/-- A function of one input. -/
inductive UnaryKind where
  | abs
  | floor
  | ceil
  | frac
  | saturate
  | squareRoot
  | logarithm2
  | logarithm10
  | sine
  | cosine
  | tangent
  | arcsine
  | arccosine
  | arctangent
  | length
  | normalize

namespace UnaryKind

/-- The name of the kind of node. -/
def name : UnaryKind → String
  | abs => "Abs"
  | floor => "Floor"
  | ceil => "Ceil"
  | frac => "Frac"
  | saturate => "Saturate"
  | squareRoot => "SquareRoot"
  | logarithm2 => "Logarithm2"
  | logarithm10 => "Logarithm10"
  | sine => "Sine"
  | cosine => "Cosine"
  | tangent => "Tangent"
  | arcsine => "Arcsine"
  | arccosine => "Arccosine"
  | arctangent => "Arctangent"
  | length => "Length"
  | normalize => "Normalize"

/-- Every function of one input. -/
def all : List UnaryKind :=
  [abs, floor, ceil, frac, saturate, squareRoot, logarithm2, logarithm10, sine, cosine, tangent,
   arcsine, arccosine, arctangent, length, normalize]

end UnaryKind

/-- A function of two inputs. -/
inductive BinaryKind where
  | add
  | subtract
  | multiply
  | divide
  | min
  | max
  | power
  | dot
  | cross
  | fmod
  | arctangent2
  | appendVector

namespace BinaryKind

/-- The name of the kind of node. -/
def name : BinaryKind → String
  | add => "Add"
  | subtract => "Subtract"
  | multiply => "Multiply"
  | divide => "Divide"
  | min => "Min"
  | max => "Max"
  | power => "Power"
  | dot => "Dot"
  | cross => "Cross"
  | fmod => "Fmod"
  | arctangent2 => "Arctangent2"
  | appendVector => "AppendVector"

/-- Every function of two inputs. -/
def all : List BinaryKind :=
  [add, subtract, multiply, divide, min, max, power, dot, cross, fmod, arctangent2, appendVector]

/-- Whether inputs that are not connected have a default. -/
def hasDefaults : BinaryKind → Bool
  | add | subtract | multiply | divide | min | max | power => true
  | dot | cross | fmod | arctangent2 | appendVector => false

/-- The defaults of the inputs. -/
def defaults : BinaryKind → Single × Single
  | add | multiply | min | max => (.zero, .one)
  | subtract => (.one, .one)
  | divide => (.one, .two)
  | power => (.zero, .two)
  | dot | cross | fmod | arctangent2 | appendVector => (.zero, .zero)

end BinaryKind

/-- A choice by comparing two values. -/
structure Comparison where
  a : Input := .none
  b : Input := .none
  /-- The value of `b` if it is not connected. -/
  defaultB : Single := .zero
  greater : Input := .none
  /-- Without it the choice has two outcomes. -/
  equal : Input := .none
  less : Input := .none
  /-- The largest difference at which the values count as equal. -/
  threshold : Single := .zero

/-- A texture sample. -/
structure SampleSettings where
  /-- A texture object; if it is not connected, the texture with the given index is sampled. -/
  texture : Input := .none
  textureIndex : Int := 0
  /-- The coordinate; if it is not connected, the set of coordinates with the given index. -/
  coordinates : Input := .none
  coordinateIndex : Int := 0
  sampler : SamplerType := .color
  source : SamplerSource := .asset
  mipMode : MipMode := .automatic
  mip : Input := .none
  /-- The level or bias if `mip` is not connected. -/
  defaultMip : Single := .zero
  mipY : Input := .none
  viewMipBias : Bool := false

/-- The settings of a custom output. -/
structure OutputSettings where
  name : String
  /-- The number of the stage. -/
  stageCode : UInt8 := 0
  beforeProperties : Bool := false
  allowsMultiple : Bool := false
  needsDefine : Bool := false

/-- The index of a function of a graph. -/
abbrev FunctionId := Nat

/-- A node of a material graph. -/
inductive Node where
  -- Literals and parameters.
  | constant (value : Single)
  | constant2 (x y : Single)
  | constant3 (x y z : Single)
  | constant4 (value : Value)
  | scalarParameter (name : String) (default : Single)
  | vectorParameter (name : String) (default : Value)
  | staticBool (value : Bool)
  | staticBoolParameter (name : String) (default : Bool)
  -- Arithmetic.
  | unary (kind : UnaryKind) (x : Input)
  | binary (kind : BinaryKind) (a b : Input) (defaultA defaultB : Single)
  | lerp (a b alpha : Input)
  | clamp (x lo hi : Input)
  | compare (c : Comparison)
  | componentMask (x : Input) (mask : Mask)
  | staticComponentMask (x : Input) (name : String) (default : Mask)
  -- Choices made at compile time.
  | staticSwitch (value : Input) (default : Bool) (onTrue onFalse : Input)
  | previousFrameSwitch (current previous : Input)
  -- What the renderer supplies.
  | textureCoordinate (index : Int) (mirror : Mirror) (tilingU tilingV : Single)
  | vertexColor
  | worldPosition (kind : WorldPosition)
  | time (ignoresPause : Bool) (period : Single)
  | pixelDepth
  | shadingModel (model : ShadingModel)
  -- Textures.
  | textureObject (index : Int) (sampler : SamplerType)
  | textureObjectParameter (name : String) (index : Int) (sampler : SamplerType)
  | textureSample (s : SampleSettings)
  | virtualTextureSample (s : SampleSettings) (layer pageTableLayer : Int)
  -- Outputs and functions.
  | vertexInterpolator (x : Input)
  | customOutput (settings : OutputSettings) (inputs : List Input)
  | functionInput (function : FunctionId) (index : Nat) (name : String) (type : ValueType)
      (preview : Input)
  | functionOutput (function : FunctionId) (name : String) (value : Input)
  | functionCall (function : FunctionId) (arguments : List Input)

/-- A reusable part of a graph: its name and the nodes of its inputs and outputs. -/
structure GraphFunction where
  name : String
  inputs : List NodeId := []
  outputs : List NodeId := []

/-- A material graph. -/
structure Graph where
  /-- The nodes in the order of their numbers, which start from one. -/
  nodes : List Node := []
  functions : List GraphFunction := []
  /-- The vertex interpolators in the order of their creation. -/
  interpolators : List NodeId := []
  /-- The custom outputs in the order of their creation. -/
  customOutputs : List NodeId := []

namespace Graph

/-- The node with the given number. -/
def node? (g : Graph) (id : NodeId) : Option Node := if id = 0 then none else g.nodes[id - 1]?

/-- A function of the graph; an index without a function has neither name nor nodes. -/
def function (g : Graph) (f : FunctionId) : GraphFunction := g.functions.getD f { name := "" }

end Graph

namespace Node

/-- The name of the kind of a node. -/
def kind : Node → String
  | constant _ => "Constant"
  | constant2 _ _ => "Constant2Vector"
  | constant3 _ _ _ => "Constant3Vector"
  | constant4 _ => "Constant4Vector"
  | scalarParameter _ _ => "ScalarParameter"
  | vectorParameter _ _ => "VectorParameter"
  | staticBool _ => "StaticBool"
  | staticBoolParameter _ _ => "StaticBoolParameter"
  | unary kind _ => kind.name
  | binary kind _ _ _ _ => kind.name
  | lerp _ _ _ => "Lerp"
  | clamp _ _ _ => "Clamp"
  | compare _ => "If"
  | componentMask _ _ => "ComponentMask"
  | staticComponentMask _ _ _ => "StaticComponentMaskParameter"
  | staticSwitch _ _ _ _ => "StaticSwitch"
  | previousFrameSwitch _ _ => "PreviousFrameSwitch"
  | textureCoordinate _ _ _ _ => "TextureCoordinate"
  | vertexColor => "VertexColor"
  | worldPosition _ => "WorldPosition"
  | time _ _ => "Time"
  | pixelDepth => "PixelDepth"
  | shadingModel _ => "ShadingModel"
  | textureObject _ _ => "TextureObject"
  | textureObjectParameter _ _ _ => "TextureObjectParameter"
  | textureSample _ => "TextureSample"
  | virtualTextureSample _ _ _ => "RuntimeVirtualTextureSample"
  | vertexInterpolator _ => "VertexInterpolator"
  | customOutput _ _ => "CustomOutput"
  | functionInput _ _ _ _ _ => "FunctionInput"
  | functionOutput _ _ _ => "FunctionOutput"
  | functionCall _ _ => "FunctionCall"

/-- The inputs that a node may read. A call may read the outputs of its function. -/
def inputs (g : Graph) : Node → List Input
  | unary _ x | componentMask x _ | staticComponentMask x _ _ | vertexInterpolator x => [x]
  | binary _ a b _ _ => [a, b]
  | lerp a b alpha => [a, b, alpha]
  | clamp x lo hi => [x, lo, hi]
  | compare c => [c.a, c.b, c.greater, c.equal, c.less]
  | staticSwitch value _ onTrue onFalse => [value, onTrue, onFalse]
  | previousFrameSwitch current previous => [current, previous]
  | textureSample s => [s.texture, s.coordinates, s.mip, s.mipY]
  | virtualTextureSample s _ _ => [s.coordinates, s.mip, s.mipY]
  | customOutput _ inputs => inputs
  | functionInput _ _ _ _ preview => [preview]
  | functionOutput _ _ value => [value]
  | functionCall f arguments =>
    arguments ++ (g.function f).outputs.map fun id => { node := id }
  | _ => []

/-- Whether a node samples a virtual texture or refers to one. -/
def usesVirtualTexture : Node → Bool
  | textureObject _ sampler | textureObjectParameter _ _ sampler => sampler.isVirtual
  | textureSample s => s.sampler.isVirtual
  | virtualTextureSample _ _ _ => true
  | _ => false

/-! ### Outputs -/

/-- The outputs of a vector of `count` components: the first is the vector, the others are its
components. -/
def componentOutput (count : Nat) (output : Int) : Option Mask :=
  if output < 1 || (count : Int) < output then none
  else some ⟨output = 1, output = 2, output = 3, output = 4⟩

/-- The outputs of a color: its first three components, each component, and from then on the whole
color. -/
def colorOutput (output : Int) : Option Mask :=
  if output < 0 || 5 ≤ output then none
  else if output = 0 then some ⟨true, true, true, false⟩
  else componentOutput 4 output

/-- The components of the result that an output of a node selects. -/
def outputMask? : Node → Int → Option Mask
  | constant2 _ _, output => componentOutput 2 output
  | constant3 _ _ _, output => componentOutput 3 output
  | constant4 _, output | vectorParameter _ _, output => componentOutput 4 output
  | worldPosition _, output => componentOutput 3 output
  | vertexColor, output | textureSample _, output | virtualTextureSample _ _ _, output =>
    colorOutput output
  | _, _ => none

/-- Whether the outputs of a node are parts of one result. -/
def ignoresOutput : Node → Bool
  | constant _ | constant2 _ _ | constant3 _ _ _ | constant4 _ | vectorParameter _ _
  | vertexColor | worldPosition _ | textureSample _ | virtualTextureSample _ _ _ => true
  | _ => false

end Node

end ShaderGraph
