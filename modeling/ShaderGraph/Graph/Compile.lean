import ShaderGraph.Graph.Node
import ShaderGraph.Pass.CustomOutputs
import ShaderGraph.Pass.Inputs
import ShaderGraph.Pass.Interpolation
import ShaderGraph.Pass.Sampling

/-!
# Compilation of nodes

How each kind of node is compiled from the code of its inputs.
-/

namespace ShaderGraph

namespace Context

/-- The code of an input, a literal if it is not connected. -/
def inputOr (compile : Compiler) (ctx : Context) (input : Input) (default : Single) :
    PassM Code :=
  if input.isConnected then compile ctx input else ctx.constant1 default

/-- A vector divided by its length. -/
def normalize (ctx : Context) (v : Code) : PassM Code := do
  let square ← ctx.dot v v
  let length ← ctx.unary .sqrt square
  ctx.div v length

/-- Applies a function of one input. -/
def applyUnary (ctx : Context) (kind : UnaryKind) (x : Code) : PassM Code :=
  match kind with
  | .abs => ctx.unary .abs x
  | .floor => ctx.unary .floor x
  | .ceil => ctx.unary .ceil x
  | .frac => ctx.unary .frac x
  | .saturate => ctx.unary .saturate x
  | .squareRoot => ctx.unary .sqrt x
  | .logarithm2 => ctx.unary .log2 x
  | .logarithm10 => ctx.unary .log10 x
  | .sine => ctx.unary .sin x
  | .cosine => ctx.unary .cos x
  | .tangent => ctx.unary .tan x
  | .arcsine => ctx.unary .asin x
  | .arccosine => ctx.unary .acos x
  | .arctangent => ctx.unary .atan x
  | .length => ctx.length x
  | .normalize => ctx.normalize x

/-- Applies a function of two inputs. -/
def applyBinary (ctx : Context) (kind : BinaryKind) (a b : Code) : PassM Code :=
  match kind with
  | .add => ctx.add a b
  | .subtract => ctx.sub a b
  | .multiply => ctx.mul a b
  | .divide => ctx.div a b
  | .min => ctx.min a b
  | .max => ctx.max a b
  | .power => ctx.power a b
  | .dot => ctx.dot a b
  | .cross => ctx.cross a b
  | .fmod => ctx.fmod a b
  | .arctangent2 => ctx.atan2 a b
  | .appendVector => ctx.append a b

end Context

namespace Node

/-- An operand of a function of two inputs. -/
def compileOperand (compile : Compiler) (ctx : Context) (kind : BinaryKind) (input : Input)
    (default : Single) (name : String) : PassM Code :=
  if input.isConnected then compile ctx input
  else if kind.hasDefaults then ctx.constant1 default
  else ctx.report (.missingNamedInput kind.name name)

/-- Compiles a function of two inputs. -/
def compileBinary (compile : Compiler) (ctx : Context) (kind : BinaryKind) (a b : Input)
    (defaultA defaultB : Single) : PassM Code := do
  let ca ← compileOperand compile ctx kind a defaultA "A"
  let cb ← compileOperand compile ctx kind b defaultB "B"
  if ca.isNone || cb.isNone then return none
  ctx.applyBinary kind ca cb

/-- Compiles a choice by comparing two values. -/
def compileComparison (compile : Compiler) (ctx : Context) (c : Comparison) : PassM Code := do
  if !c.a.isConnected then ctx.report (.missingNamedInput "If" "A")
  else if !c.greater.isConnected then ctx.report (.missingNamedInput "If" "A > B")
  else if !c.less.isConnected then ctx.report (.missingNamedInput "If" "A < B")
  else
    let a ← compile ctx c.a
    let b ← ctx.inputOr compile c.b c.defaultB
    let greater ← compile ctx c.greater
    let less ← compile ctx c.less
    if c.equal.isConnected then
      let equal ← compile ctx c.equal
      if equal.isNone then return none
      let threshold ← ctx.constant1 c.threshold
      ctx.choose a b greater equal less threshold
    else ctx.choose a b greater none less none

/-- Compiles the selected branch of a switch. -/
def compileBranch (compile : Compiler) (ctx : Context) (input : Input) (kind name : String) :
    PassM Code :=
  if input.isConnected then compile ctx input else ctx.report (.missingNamedInput kind name)

/-- The value that a static switch decides by. -/
def switchValue (compile : Compiler) (ctx : Context) (value : Input) (default : Bool) :
    PassM (Option Bool) := do
  if value.isConnected then ctx.staticBoolValue (← compile ctx value) else return some default

/-- Compiles the branch of a static switch that its value selects. -/
def compileSwitch (compile : Compiler) (ctx : Context) (value : Input) (default : Bool)
    (onTrue onFalse : Input) : PassM Code := do
  match ← switchValue compile ctx value default with
  | none => return none
  | some true => compileBranch compile ctx onTrue "StaticSwitch" "True"
  | some false => compileBranch compile ctx onFalse "StaticSwitch" "False"

/-- Compiles a set of texture coordinates, scaled. -/
def compileCoordinate (ctx : Context) (index : Int) (mirror : Mirror)
    (tilingU tilingV : Single) : PassM Code := do
  let code ← ctx.textureCoordinate index mirror
  if tilingU.equal .one && tilingV.equal .one then return code
  else ctx.mul code (← ctx.constant2 tilingU tilingV)

/-- Compiles the coordinate and the mip level of a sample of a texture, and samples it. -/
def compileSample (compile : Compiler) (ctx : Context) (s : SampleSettings) (texture : Code) :
    PassM Code := do
  if texture.isNone then return none
  let coordinate ←
    if s.coordinates.isConnected then compile ctx s.coordinates
    else ctx.textureCoordinate s.coordinateIndex .none
  let (mip, mipY) ← match s.mipMode with
    | .level | .bias => do pure (← ctx.inputOr compile s.mip s.defaultMip, none)
    | .derivative => do
      let mip ← compile ctx s.mip
      pure (mip, ← compile ctx s.mipY)
    | .automatic | .other _ => pure (none, none)
  ctx.sample
    { texture, coordinate, sampler := s.sampler, mode := s.mipMode, mip, mipY,
      source := s.source, viewMipBias := s.viewMipBias }

/-- Compiles an input of a custom output. -/
def compileOutput (compile : Compiler) (ctx : Context) (settings : OutputSettings)
    (inputs : List Input) (output : Int) : PassM Code := do
  match if output < 0 then none else inputs[output.toNat]? with
  | none => ctx.report (.invalidOutput settings.name output)
  | some input =>
    if input.isConnected then
      ctx.implementOutput settings.name output (← compile ctx input)
    else ctx.report (.missingNamedInput settings.name (toString output))

/-- Compiles an output of a call. -/
def compileCall (g : Graph) (compile : Compiler) (ctx : Context) (f : FunctionId)
    (arguments : List Input) (output : Int) : PassM Code :=
  let function := g.function f
  if function.inputs.length < arguments.length then
    ctx.report (.argumentCount function.name arguments.length function.inputs.length)
  else
    match if output < 0 then none else function.outputs[output.toNat]? with
    | none => ctx.report (.noFunctionOutput function.name output)
    | some id => ctx.callFunction compile ⟨function.name, arguments⟩ { node := id }

/-- Compiles an output of a node. -/
def compile (g : Graph) (node : Node) (compile : Compiler) (ctx : Context) (output : Int) :
    PassM Code :=
  match node with
  | constant x => ctx.constant1 x
  | constant2 x y => ctx.constant2 x y
  | constant3 x y z => ctx.constant3 x y z
  | constant4 v => ctx.constant4 v
  | scalarParameter name default => ctx.scalarParameter name default
  | vectorParameter name default => ctx.vectorParameter name default
  | staticBool value => ctx.staticBool value
  | staticBoolParameter name default => ctx.staticBoolParameter name default
  | unary kind x => do
    if x.isConnected then ctx.applyUnary kind (← compile ctx x)
    else ctx.report (.missingInput kind.name)
  | binary kind a b defaultA defaultB => compileBinary compile ctx kind a b defaultA defaultB
  | lerp a b alpha => do
    let ca ← ctx.inputOr compile a .zero
    let cb ← ctx.inputOr compile b .one
    let calpha ← ctx.inputOr compile alpha .half
    ctx.lerp ca cb calpha
  | clamp x lo hi => do
    if x.isConnected then
      let cx ← compile ctx x
      let clo ← ctx.inputOr compile lo .zero
      let chi ← ctx.inputOr compile hi .one
      ctx.clamp cx clo chi
    else ctx.report (.missingInput "Clamp")
  | compare c => compileComparison compile ctx c
  | componentMask x mask => do
    if x.isConnected then ctx.componentMask (← compile ctx x) mask
    else ctx.report (.missingInput "ComponentMask")
  | staticComponentMask x name default => do
    if x.isConnected then ctx.staticComponentMask (← compile ctx x) name default
    else ctx.report (.missingInput "StaticComponentMaskParameter")
  | staticSwitch value default onTrue onFalse =>
    compileSwitch compile ctx value default onTrue onFalse
  | previousFrameSwitch current previous =>
    if ctx.previousFrame then
      compileBranch compile ctx previous "PreviousFrameSwitch" "previous frame"
    else compileBranch compile ctx current "PreviousFrameSwitch" "current frame"
  | textureCoordinate index mirror tilingU tilingV =>
    compileCoordinate ctx index mirror tilingU tilingV
  | vertexColor => ctx.vertexColor
  | worldPosition kind => ctx.worldPosition kind
  | time ignoresPause period =>
    ctx.time (if ignoresPause then .real else .game)
      (if Single.zero.less period then some period else none)
  | pixelDepth => ctx.pixelDepth
  | shadingModel model => ctx.shadingModel model
  -- The sample that reads the object checks its own mip level.
  | textureObject index sampler => ctx.texture index sampler .level
  | textureObjectParameter name index sampler => ctx.textureParameter name index sampler
  | textureSample s => do
    let texture ←
      if s.texture.isConnected then compile ctx s.texture
      else ctx.texture s.textureIndex s.sampler s.mipMode
    compileSample compile ctx s texture
  | virtualTextureSample s layer pageTableLayer => do
    if ctx.options.virtualTexturing then
      let texture ← ctx.virtualTexture s.textureIndex layer pageTableLayer s.sampler
      compileSample compile ctx s texture
    else ctx.report .runtimeVirtualTexture
  | vertexInterpolator x =>
    -- Other stages read the input directly.
    if ctx.stage = .pixel then ctx.readInterpolator else compile ctx x
  | customOutput settings inputs => compileOutput compile ctx settings inputs output
  | functionInput _ index _ type preview => ctx.functionArgument compile index preview type
  | functionOutput f name value =>
    if value.isConnected then compile ctx value
    else ctx.report (.missingFunctionOutput name (g.function f).name)
  | functionCall f arguments => compileCall g compile ctx f arguments output

/-- A node as a pass sees it. -/
def expression (g : Graph) (node : Node) : Expression where
  kind := node.kind
  inputs := node.inputs g
  ignoresOutput := node.ignoresOutput
  usesVirtualTexture := node.usesVirtualTexture
  outputMask? := node.outputMask?
  call? :=
    match node with
    | functionCall f arguments => some ⟨(g.function f).name, arguments⟩
    | _ => none
  vertexInput? :=
    match node with
    | vertexInterpolator x => some x
    | _ => none
  customOutput? :=
    match node with
    | customOutput settings inputs =>
      some { name := settings.name, outputs := inputs.length,
             stage := Stage.ofCode? settings.stageCode,
             beforeProperties := settings.beforeProperties,
             allowsMultiple := settings.allowsMultiple, needsDefine := settings.needsDefine }
    | _ => none
  compile := node.compile g

end Node

/-- The number of connections of a graph. -/
def Graph.connections (g : Graph) : Nat := (g.nodes.flatMap fun n => n.inputs g).length

/-- The graph as a pass sees it. -/
def Graph.expressions (g : Graph) : ExpressionGraph where
  expressions := g.nodes.map (Node.expression g)
  depth := depthBound g.connections

end ShaderGraph
