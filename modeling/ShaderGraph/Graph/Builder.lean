import ShaderGraph.Graph.Node
import ShaderGraph.Single.Decimal

/-!
# Building graphs

A builder adds nodes to a graph one by one and checks what they are connected to. A strict builder
refuses a node at the first mistake and stays as it was; any other adds the node all the same and
keeps the mistakes.
-/

namespace ShaderGraph

/-! ### Mistakes -/

/-- A mistake in the making of a node. -/
inductive BuildError where
  /-- A connection to a node that does not exist. -/
  | outsideGraph (subject : String) (argument : Nat) (node : NodeId)
  /-- A connection to an output with a negative index. -/
  | negativeOutput (subject : String) (argument : Nat)
  /-- A connection that is needed is missing. -/
  | unconnected (subject : String) (argument : Nat)
  | emptyName (subject : String)
  | noInputs (output : String)
  | noComponents
  | negativeThreshold (value : Single)
  | negativePeriod (value : Single)
  | negativeCoordinate (index : Int)
  | negativeTexture (subject : String) (index : Int)
  | textureObjectInput
  | ordinarySampler (sampler : SamplerType)
  | layerRange (layer : Int)

/-- The wording of a mistake. -/
def BuildError.message : BuildError → String
  | outsideGraph subject i node => s!"{subject}: arg[{i}] references node {node} not in graph"
  | negativeOutput subject i => s!"{subject}: arg[{i}] has negative output index"
  | unconnected subject i => s!"{subject}: arg[{i}] must be connected"
  | emptyName subject => s!"{subject}: empty name"
  | noInputs output => s!"CustomOutput {output}: no inputs"
  | noComponents => "ComponentMask: no components selected"
  | negativeThreshold value => s!"If: negative equals threshold {value.shortest}"
  | negativePeriod value => s!"Time: negative period {value.shortest}"
  | negativeCoordinate index => s!"TextureCoordinate: negative index {index}"
  | negativeTexture subject index => s!"{subject}: negative texture index {index}"
  | textureObjectInput => "VirtualTextureSample: texture object input unsupported"
  | ordinarySampler sampler => s!"VirtualTextureSample: sampler type {sampler.code} is not virtual"
  | layerRange layer => s!"VirtualTextureSample: layer {layer} out of range"

/-- Why a builder refuses a request. -/
inductive BuildFault where
  | rejected (e : BuildError)
  /-- A function that does not exist. -/
  | noFunction (subject : String)

/-- The wording of a refusal. -/
def BuildFault.message : BuildFault → String
  | rejected e => e.message
  | noFunction subject => s!"nil function argument to {subject}"

/-! ### Builders -/

/-- A graph in the making. -/
structure Builder where
  strict : Bool
  graph : Graph := {}
  /-- The mistakes that were let pass. -/
  errors : List BuildError := []

/-- A request to a builder. It is granted or refused, and leaves a builder behind either way. -/
abbrev BuildM := EStateM BuildFault Builder

namespace Builder

/-- Keeps a mistake, or refuses to go on with it. -/
def mistake (e : BuildError) : BuildM Unit := do
  let b ← get
  if b.strict then throw (.rejected e) else set { b with errors := b.errors ++ [e] }

/-- Lets mistakes pass, or refuses at the first one. -/
def allow (errors : List BuildError) : BuildM Unit := errors.forM mistake

/-- What is wrong with the connections of a node to be. -/
def inputErrors (g : Graph) (subject : String) (inputs : List Input) : List BuildError :=
  inputs.zipIdx.filterMap fun (input, i) =>
    if g.nodes.length < input.node then some (.outsideGraph subject i input.node)
    else if input.output < 0 then some (.negativeOutput subject i)
    else none

/-- Changes the graph. -/
def change (f : Graph → Graph) : BuildM Unit := modify fun b => { b with graph := f b.graph }

/-- Adds a node in which the given mistakes were found, and gives its number. -/
def add (errors : List BuildError) (node : Node) : BuildM NodeId := do
  allow errors
  change fun g => { g with nodes := g.nodes ++ [node] }
  return (← get).graph.nodes.length

/-- Adds a node whose connections are checked first. -/
def addChecked (node : Node) (errors : List BuildError := []) : BuildM NodeId := do
  let g := (← get).graph
  add (inputErrors g node.kind (node.inputs g) ++ errors) node

/-! ### Literals and parameters -/

/-- The mistake of an empty name. -/
def nameErrors (subject name : String) : List BuildError :=
  if name = "" then [.emptyName subject] else []

/-- Adds a literal. -/
def constant (x : Single) : BuildM NodeId := add [] (.constant x)

/-- Adds a literal of two components. -/
def constant2 (x y : Single) : BuildM NodeId := add [] (.constant2 x y)

/-- Adds a literal of three components. -/
def constant3 (x y z : Single) : BuildM NodeId := add [] (.constant3 x y z)

/-- Adds a literal of four components. -/
def constant4 (v : Value) : BuildM NodeId := add [] (.constant4 v)

/-- Adds a scalar that can be overridden by name. -/
def scalarParameter (name : String) (default : Single) : BuildM NodeId :=
  add (nameErrors "ScalarParameter" name) (.scalarParameter name default)

/-- Adds a vector that can be overridden by name. -/
def vectorParameter (name : String) (default : Value) : BuildM NodeId :=
  add (nameErrors "VectorParameter" name) (.vectorParameter name default)

/-- Adds a boolean known at compile time. -/
def staticBool (value : Bool) : BuildM NodeId := add [] (.staticBool value)

/-- Adds a named boolean known at compile time. Without a name it is a literal. -/
def staticBoolParameter (name : String) (default : Bool) : BuildM NodeId :=
  add (nameErrors "StaticBoolParameter" name)
    (if name = "" then .staticBool default else .staticBoolParameter name default)

/-! ### Arithmetic -/

/-- Adds a function of one input. -/
def unary (kind : UnaryKind) (x : Input) : BuildM NodeId := addChecked (.unary kind x)

/-- Adds a function of two inputs. -/
def binary (kind : BinaryKind) (x y : Input) : BuildM NodeId :=
  addChecked (.binary kind x y kind.defaults.1 kind.defaults.2)

/-- Adds the sum with a number. -/
def scalarAdd (x : Input) (k : Single) : BuildM NodeId := addChecked (.binary .add x .none .zero k)

/-- Adds the product with a number. -/
def scalarMultiply (x : Input) (k : Single) : BuildM NodeId :=
  addChecked (.binary .multiply x .none .zero k)

/-- Adds a linear interpolation. -/
def lerp (x y alpha : Input) : BuildM NodeId := addChecked (.lerp x y alpha)

/-- Adds a value brought between two bounds. -/
def clamp (x lo hi : Input) : BuildM NodeId := addChecked (.clamp x lo hi)

/-- Adds a choice by comparing two values. -/
def compare (c : Comparison) : BuildM NodeId :=
  addChecked (.compare c)
    (if c.threshold.less .zero then [.negativeThreshold c.threshold] else [])

/-- Adds a selection of components. -/
def componentMask (x : Input) (mask : Mask) : BuildM NodeId :=
  addChecked (.componentMask x mask) (if mask.selected.isEmpty then [.noComponents] else [])

/-- Adds a selection of components by name. -/
def staticComponentMask (x : Input) (name : String) (default : Mask) : BuildM NodeId :=
  addChecked (.staticComponentMask x name default) (nameErrors "StaticComponentMaskParameter" name)

/-! ### Choices made at compile time -/

/-- Adds a switch by a static boolean. -/
def staticSwitch (value : Input) (default : Bool) (onTrue onFalse : Input) : BuildM NodeId :=
  addChecked (.staticSwitch value default onTrue onFalse)

/-- Adds a switch by whether values of the previous frame are compiled. -/
def previousFrameSwitch (current previous : Input) : BuildM NodeId :=
  addChecked (.previousFrameSwitch current previous)

/-! ### What the renderer supplies -/

/-- Adds a set of texture coordinates, scaled. -/
def textureCoordinate (index : Int) (mirror : Mirror) (tilingU tilingV : Single) : BuildM NodeId :=
  add (if index < 0 then [.negativeCoordinate index] else [])
    (.textureCoordinate index mirror tilingU tilingV)

/-- Adds the vertex color. -/
def vertexColor : BuildM NodeId := add [] .vertexColor

/-- Adds the position in the world. -/
def worldPosition (kind : WorldPosition) : BuildM NodeId := add [] (.worldPosition kind)

/-- Adds the time, within a period if that is positive. -/
def time (ignoresPause : Bool) (period : Single) : BuildM NodeId :=
  add (if period.less .zero then [.negativePeriod period] else []) (.time ignoresPause period)

/-- Adds the depth of the pixel. -/
def pixelDepth : BuildM NodeId := add [] .pixelDepth

/-- Adds the choice of a shading model. -/
def shadingModel (model : ShadingModel) : BuildM NodeId := add [] (.shadingModel model)

/-! ### Textures -/

/-- The mistake of a negative texture index. -/
def textureErrors (subject : String) (index : Int) : List BuildError :=
  if index < 0 then [.negativeTexture subject index] else []

/-- Adds a texture object. -/
def textureObject (index : Int) (sampler : SamplerType) : BuildM NodeId :=
  add (textureErrors "TextureObject" index) (.textureObject index sampler)

/-- Adds a texture object that can be replaced by name. Without a name it is a fixed one. -/
def textureObjectParameter (name : String) (index : Int) (sampler : SamplerType) : BuildM NodeId :=
  let subject := "TextureObjectParameter"
  if name = "" then add [.emptyName subject] (.textureObject index sampler)
  else add (textureErrors subject index) (.textureObjectParameter name index sampler)

/-- Adds a texture sample. -/
def textureSample (s : SampleSettings) : BuildM NodeId :=
  addChecked (.textureSample s)
    (if s.texture.isConnected then [] else textureErrors "TextureSample" s.textureIndex)

/-- What is wrong with a sample of a virtual texture that the renderer has laid out. -/
def virtualSampleErrors (s : SampleSettings) (layer : Int) : List BuildError :=
  if s.texture.isConnected then [.textureObjectInput]
  else if s.textureIndex < 0 then [.negativeTexture "VirtualTextureSample" s.textureIndex]
  else if !s.sampler.isVirtual then [.ordinarySampler s.sampler]
  else if layer < 0 || 8 ≤ layer then [.layerRange layer]
  else []

/-- Adds a sample of a virtual texture that the renderer has laid out. -/
def virtualTextureSample (s : SampleSettings) (layer pageTableLayer : Int) :
    BuildM NodeId := do
  let inputs := [s.coordinates, s.mip, s.mipY]
  add (inputErrors (← get).graph "VirtualTextureSample" inputs ++ virtualSampleErrors s layer)
    (.virtualTextureSample s layer pageTableLayer)

/-! ### Outputs -/

/-- Adds an interpolator from the vertex stage to the pixel stage. -/
def vertexInterpolator (x : Input) : BuildM NodeId := do
  let id ← addChecked (.vertexInterpolator x)
    (if x.isConnected then [] else [.unconnected "VertexInterpolator" 0])
  change fun g => { g with interpolators := g.interpolators ++ [id] }
  return id

/-- Adds a custom output. -/
def customOutput (settings : OutputSettings) (inputs : List Input) : BuildM NodeId := do
  let id ← addChecked (.customOutput settings inputs)
    (if settings.name = "" then [.emptyName "CustomOutput"]
      else if inputs.isEmpty then [.noInputs settings.name]
      else [])
  change fun g => { g with customOutputs := g.customOutputs ++ [id] }
  return id

/-! ### Functions -/

/-- Declares a function, and gives its index. -/
def newFunction (name : String) : BuildM FunctionId := do
  allow (nameErrors "NewFunction" name)
  let index := (← get).graph.functions.length
  change fun g => { g with functions := g.functions ++ [{ name := name }] }
  return index

/-- A declared function. -/
def function? (f : FunctionId) (subject : String) : BuildM GraphFunction := do
  match (← get).graph.functions[f]? with
  | some function => return function
  | none => throw (.noFunction subject)

/-- Changes a function. -/
def updateFunction (f : FunctionId) (update : GraphFunction → GraphFunction) : BuildM Unit :=
  change fun g => { g with functions := g.functions.modify f update }

/-- Adds an input to a function. The preview is compiled where a call leaves it open. -/
def functionInput (f : FunctionId) (name : String) (type : ValueType) (preview : Input) :
    BuildM NodeId := do
  let function ← function? f "FunctionInput"
  let id ← addChecked (.functionInput f function.inputs.length name type preview)
  updateFunction f fun g => { g with inputs := g.inputs ++ [id] }
  return id

/-- Adds an output to a function, and gives its index among the outputs. -/
def functionOutput (f : FunctionId) (name : String) (value : Input) : BuildM Nat := do
  let function ← function? f "FunctionOutput"
  let id ← addChecked (.functionOutput f name value)
  updateFunction f fun g => { g with outputs := g.outputs ++ [id] }
  return function.outputs.length

/-- Adds a call. A function can be called before its body is complete. -/
def functionCall (f : FunctionId) (arguments : List Input) : BuildM NodeId := do
  let function ← function? f "FunctionCall"
  add (inputErrors (← get).graph ("FunctionCall " ++ function.name) arguments)
    (.functionCall f arguments)

end Builder

end ShaderGraph
