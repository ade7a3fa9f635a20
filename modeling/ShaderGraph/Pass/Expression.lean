import ShaderGraph.Pass.Arithmetic

/-!
# Expressions and calls

An `Expression` is what a pass needs to know of a node: how it is compiled, what it may read, and
how its results are kept. Compilation is open: an expression is given the compiler of its inputs.

Every result is kept in the frame it was compiled in. A key that is in progress in some open frame
is not compiled again but reported, so cyclic connections end.

## Depth

Compilation is bounded by a depth. Each nested compilation puts a new key into the innermost open
frame, or leaves frames and puts a new key into one below them; with `k` keys at most `k + 1` frames
are open, each with at most `k` keys, so the number of nested compilations is below
`(k + 1) ^ (k + 1)`. With that depth the bound is not met.
-/

namespace ShaderGraph

/-- Compiles what an input is connected to. -/
abbrev Compiler := Context → Input → PassM Code

/-- A named output of a material that is not one of its properties. -/
structure CustomOutput where
  /-- The name of the generated functions, which are numbered. -/
  name : String
  /-- The number of functions. -/
  outputs : Nat
  /-- The stage of the functions; no code can be compiled for a number without a stage. -/
  stage : Option Stage
  /-- Whether it is compiled before the properties. -/
  beforeProperties : Bool
  /-- Whether a material may have more than one of its name. -/
  allowsMultiple : Bool
  /-- Whether the number of functions is announced by a define. -/
  needsDefine : Bool

/-- A node as a pass sees it. -/
structure Expression where
  /-- The name of the kind of node. -/
  kind : String
  /-- The inputs that may be read. -/
  inputs : List Input
  /-- Whether the result does not depend on the output that is asked for. -/
  ignoresOutput : Bool := false
  /-- Whether an output is a set of material attributes. -/
  producesAttributes : Int → Bool := fun _ => false
  usesVirtualTexture : Bool := false
  /-- The components of the result that an output selects. -/
  outputMask? : Int → Option Mask := fun _ => none
  /-- The call, if the node is a function call. -/
  call? : Option Call := none
  /-- The input computed in the vertex stage, if the node is an interpolator. -/
  vertexInput? : Option Input := none
  customOutput? : Option CustomOutput := none
  /-- Compiles an output of the node. -/
  compile : Compiler → Context → Int → PassM Code

/-- The expressions of a graph, and the depth that its compilation needs at most. -/
structure ExpressionGraph where
  /-- The expressions in the order of their numbers, which start from one. -/
  expressions : List Expression
  depth : Nat

/-- The expression with the given number. -/
def ExpressionGraph.node? (g : ExpressionGraph) (id : NodeId) : Option Expression :=
  if id = 0 then none else g.expressions[id - 1]?

/-- The depth that suffices for the given number of distinct connections. -/
def depthBound (connections : Nat) : Nat :=
  let keys := 2 * (connections + 1)
  Nat.pow (keys + 1) (keys + 1)

/-! ### Frames -/

namespace Pass

/-- Adds a frame that is not open yet. -/
def addFrame (frame : Frame) : PassM Nat := do
  let p ← get
  set { p with frames := p.frames ++ [frame] }
  return p.frames.length

/-- Changes a frame. -/
def updateFrame (id : Nat) (f : Frame → Frame) : PassM Unit :=
  modify fun p => { p with frames := p.frames.modify id f }

/-- Replaces the open frames of a stage. -/
def setStack (stage : Stage) (stack : List Nat) : PassM Unit :=
  modify fun p => { p with openFrames := p.openFrames.set stage stack }

/-- Leaves all frames of a stage for a fresh one. -/
def resetStack (stage : Stage) : PassM Unit := do
  let root ← addFrame {}
  setStack stage [root]

end Pass

namespace Context

/-- The open frames of the current stage, the innermost first. -/
def stack (ctx : Context) : PassM (List Nat) := return (← get).openFrames.get ctx.stage

/-- The innermost frame. -/
def innermost (ctx : Context) : PassM (Nat × Frame) := do
  match ← ctx.stack with
  | [] => throw .unbalancedFrames
  | id :: _ =>
    match (← get).frame? id with
    | some frame => return (id, frame)
    | none => throw .unbalancedFrames

/-- Opens a frame. -/
def openFrame (ctx : Context) (id : Nat) : PassM Unit := do
  Pass.setStack ctx.stage (id :: (← ctx.stack))

/-- Closes a frame, which has to be the innermost one, above `below`. -/
def closeFrame (ctx : Context) (id : Nat) (below : List Nat) : PassM Unit := do
  match ← ctx.stack with
  | top :: rest =>
    if top = id && rest.length = below.length then Pass.setStack ctx.stage rest
    else throw .unbalancedFrames
  | [] => throw .unbalancedFrames

/-- Whether a key is in progress in an open frame. -/
def inProgress (ctx : Context) (p : Pass) (key : Key) : Bool :=
  (p.openFrames.get ctx.stage).any fun id =>
    match p.frame? id with
    | some frame => frame.active.any fun (k, _) => k == key
    | none => false

/-- The frame that the outputs of a call share. -/
def sharedFrame (home : Nat) (key : Key) (call : Call) : PassM Nat := do
  let key := { key with output := -1 }
  match ((← get).frame? home).bind (·.shared.lookup key) with
  | some id => return id
  | none =>
    let id ← Pass.addFrame { call := some call, callNode := key.node }
    Pass.updateFrame home fun frame => { frame with shared := (key, id) :: frame.shared }
    return id

/-! ### Compilation -/

/-- The key of an output in the current context. -/
def keyOf (ctx : Context) (e : Expression) (input : Input) : Key where
  node := input.node
  output := if e.ignoresOutput then 0 else input.output
  attributeOf := if e.producesAttributes input.output then ctx.attributeOf else none
  previousFrame := ctx.previousFrame

/-- Selects the components of an output. -/
def maskOutput (ctx : Context) (e : Expression) (output : Int) (c : Code) : PassM Code :=
  match c, e.outputMask? output with
  | some _, some mask => ctx.componentMask c mask
  | _, _ => return c

/-- Keeps the result of an expression whose key is in progress, and selects an output of it. -/
def settle (ctx : Context) (e : Expression) (input : Input) (home : Nat) (result : Code) :
    PassM Code := do
  let (top, _) ← ctx.innermost
  Pass.updateFrame top fun frame =>
    { frame with memo := (ctx.keyOf e input, result) :: frame.memo }
  let masked ← ctx.maskOutput e input.output result
  Pass.updateFrame home fun frame => { frame with active := frame.active.tail }
  return masked

/-- Compiles an output of an expression that has no result yet and is not in progress. -/
def compileFresh (compile : Compiler) (ctx : Context) (e : Expression) (input : Input)
    (home : Nat) : PassM Code := do
  let key := ctx.keyOf e input
  Pass.updateFrame home fun frame => { frame with active := (key, e.kind) :: frame.active }
  let shared ← e.call?.mapM (sharedFrame home key)
  let result ← e.compile compile { ctx with node := input.node, shared } input.output
  ctx.settle e input home result

/-- Compiles an output of an expression, or finds its result. -/
def compileExpression (compile : Compiler) (ctx : Context) (e : Expression) (input : Input) :
    PassM Code := do
  let key := ctx.keyOf e input
  let (home, frame) ← ctx.innermost
  match frame.memo.lookup key with
  | some result => ctx.maskOutput e input.output result
  | none =>
    if ctx.inProgress (← get) key then ctx.report .reentrant
    else compileFresh compile ctx e input home

end Context

/-- Compiles what an input is connected to; there is no code for an input that is not connected. -/
def ExpressionGraph.compileAt (g : ExpressionGraph) : Nat → Compiler
  | depth, ctx, input => do
    if !input.isConnected then return none
    match g.node? input.node with
    | none => ctx.report (.missingNode input.node)
    | some e =>
      match depth with
      | 0 => throw .tooDeep
      | depth + 1 => ctx.compileExpression (g.compileAt depth) e input

/-- The compiler of a graph. -/
def ExpressionGraph.compile (g : ExpressionGraph) : Compiler := g.compileAt g.depth

namespace Context

/-! ### Functions -/

/-- Compiles the body of a function in the innermost frame. -/
def compileBody (compile : Compiler) (ctx : Context) (body : Input) : PassM Code :=
  if body.isConnected then compile { ctx with shared := none } body
  else report { ctx with shared := none } .missingFunctionBody

/-- Compiles the body of a function in the frame of the call, or in a frame of its own. -/
def callFunction (compile : Compiler) (ctx : Context) (call : Call) (body : Input) :
    PassM Code := do
  let id ← match ctx.shared with
    | some id => pure id
    | none => Pass.addFrame {}
  Pass.updateFrame id fun frame => { frame with call := some call }
  let below ← ctx.stack
  ctx.openFrame id
  let result ← compileBody compile ctx body
  ctx.closeFrame id below
  return result

/-- Compiles in the frame of the caller. -/
def inCaller (ctx : Context) (m : PassM Code) : PassM Code := do
  match ← ctx.stack with
  | [] => throw .unbalancedFrames
  | top :: rest =>
    Pass.setStack ctx.stage rest
    let result ← m
    Pass.setStack ctx.stage (top :: (← ctx.stack))
    return result

/-- The argument of the call in progress for the input with the given index. -/
def callArgument (ctx : Context) (index : Int) : PassM Input := do
  let (_, frame) ← ctx.innermost
  let nested := 1 < (← ctx.stack).length
  match frame.call with
  | some call => return if nested then call.argument index else .none
  | none => return .none

/-- Compiles a function input whose argument is known: the argument of the caller, else the preview,
brought to a type. -/
def compileArgument (compile : Compiler) (ctx : Context) (index : Int) (preview : Input)
    (type : ValueType) (argument : Input) : PassM Code := do
  if argument.isConnected then
    ctx.convert (← ctx.inCaller (compile ctx argument)) type
  else if preview.isConnected then
    ctx.convert (← compile ctx preview) type
  else ctx.report (.missingFunctionInput index)

/-- Compiles a function input. -/
def functionArgument (compile : Compiler) (ctx : Context) (index : Int) (preview : Input)
    (type : ValueType) : PassM Code := do
  compileArgument compile ctx index preview type (← ctx.callArgument index)

end Context

end ShaderGraph
