import ShaderGraph.Pass.Body
import ShaderGraph.Pass.Expression

/-!
# Vertex interpolators

The input of an interpolator is computed in the vertex stage, in a function of its own, and read in
the pixel stage. The inputs are tried out first: what is wrong with one is held back, and reported
only if the pixel stage reads the interpolator.
-/

namespace ShaderGraph

/-- The letter of a component. -/
def componentLetter (letters : String) (i : Nat) : String :=
  String.ofList ((letters.toList.drop i).take 1)

/-- The name of the texture coordinate that holds component `c` of an interpolator. -/
def Interpolator.coordinateName (i : Interpolator) (c : Nat) : String :=
  s!"VERTEX_INTERPOLATOR_{i.index}_TEXCOORDS_" ++ componentLetter "XYZW" c

/-- The place that holds component `c` of an interpolator whose first scalar is `offset`. -/
def Interpolator.place (i : Interpolator) (offset c : Nat) : String :=
  "TexCoords[" ++ i.coordinateName c ++ "]." ++ componentLetter "xy" ((offset + c) % 2)

/-- The text that reads an interpolator. -/
def Interpolator.readText (i : Interpolator) (offset : Nat) : String :=
  i.type.sourceName ++ "(" ++
    ", ".intercalate ((List.range i.size).map fun c => "Parameters." ++ i.place offset c) ++ ")"

namespace Context

/-- The first scalar of the interpolator at a place of the list; one that was not read before is
put after all that were. -/
def interpolatorOffset (index : Nat) (i : Interpolator) : PassM Nat := do
  match i.offset with
  | some offset => return offset
  | none =>
    let p ← get
    let offset := p.interpolatedScalars
    set { p with
      interpolators := p.interpolators.set index { i with offset := some offset },
      interpolatedScalars := offset + i.size }
    return offset

/-- Reads the interpolator that is being compiled. -/
def readInterpolator (ctx : Context) : PassM Code := do
  if ctx.stage != .pixel then ctx.report .interpolatorStage
  else
    let p ← get
    match p.interpolators.findIdx? fun i => i.node == ctx.node with
    | some index =>
      match p.interpolators[index]? with
      | some i =>
        let offset ← interpolatorOffset index i
        ctx.emitTemporary i.type (i.readText offset)
      | none => ctx.report .unreadableInterpolator
    | none =>
      ((p.interpolatorErrors.lookup ctx.node).getD []).forM Pass.addDiagnostic
      ctx.report .unreadableInterpolator

end Context

namespace Pass

/-- Compiles the input of an interpolator; the code and its type. -/
def compileInterpolated (compile : Compiler) (ctx : Context) (input : Input) :
    PassM (Code × ValueType) := do
  let code ← compile ctx input
  let type ← ctx.typeOf code
  if code.isSome && !type.isFloat then
    let _ ← ctx.report (.interpolatorType type)
    return (none, type)
  return (code, type)

/-- Generates the function of an interpolator and lists it, or keeps what was held back for it. -/
def storeInterpolator (ctx : Context) (id : NodeId) (code : Code) (type : ValueType) :
    PassM Unit := do
  if code.isSome then
    let index := (← get).interpolators.length
    let body ← ctx.functionBody code
    addImplementation
      (functionText type s!"VertexInterpolator{index}" "FMaterialVertexParameters" body)
    modify fun p => { p with interpolators := p.interpolators ++ [⟨id, index, type, none⟩] }
  else
    modify fun p =>
      { p with interpolatorErrors := (id, p.sink.getD []) :: p.interpolatorErrors }

/-- Ends the compilation of an interpolator. -/
def closeInterpolator (attributes : List (String × String)) : PassM Unit := do
  modify fun p => { p with sink := none }
  note .debug "compiled vertex interpolator" attributes
  resetStack .vertex

/-- Compiles an interpolator in a scope of its own. -/
def compileInterpolator (env : Environment) (compile : Compiler) (id : NodeId) (input : Input) :
    PassM Unit := do
  modify fun p => { p with sink := some [] }
  let ctx : Context := { env, stage := .vertex, scope := ← newScope, node := id }
  let (code, type) ← compileInterpolated compile ctx input
  let type := if code.isSome && type = .float then .float1 else type
  storeInterpolator ctx id code type
  closeInterpolator [("node", toString id), ("ok", toString code.isSome), ("type", type.name)]

/-- Compiles the listed interpolators. -/
def compileInterpolators (env : Environment) (g : ExpressionGraph) (compile : Compiler) :
    PassM Unit :=
  env.material.interpolators.forM fun id =>
    match (g.node? id).bind (·.vertexInput?) with
    | some input => compileInterpolator env compile id input
    | none => reportGlobally (.notInterpolator id)

end Pass

end ShaderGraph
