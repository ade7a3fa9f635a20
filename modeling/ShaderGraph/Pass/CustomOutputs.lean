import ShaderGraph.Pass.Body
import ShaderGraph.Pass.Expression
import ShaderGraph.Text.Case

/-!
# Custom outputs

A custom output is compiled into functions, one for each of its inputs, each in a scope of its own.
-/

namespace ShaderGraph

/-- A define of a number. -/
def defineNumber (name separator : String) (value : Int) : String :=
  "#define " ++ name ++ separator ++ toString value ++ "\n"

/-- Generates the function of one input of a custom output. There is no code for it, and no
property can read it. -/
def Context.implementOutput (ctx : Context) (name : String) (index : Int) (c : Code) :
    PassM Code := do
  match ctx.property with
  | some property => ctx.report (.attachedCustomOutput property)
  | none =>
    if c.isNone then return none
    let type ← ctx.typeOf c
    if !type.isFloat || type.components = 0 then ctx.report (.outputType type name)
    else
      let stage := if ctx.stage = .vertex then "Vertex" else "Pixel"
      let body ← ctx.functionBody c
      Pass.addImplementation
        (functionText type (name ++ toString index) ("FMaterial" ++ stage ++ "Parameters") body)
      return none

namespace Pass

/-- Compiles one function of a custom output. -/
def compileFunction (env : Environment) (compile : Compiler) (id : NodeId) (e : Expression)
    (stage : Stage) (output : Int) : PassM PUnit := do
  let _ ← e.compile compile { env, stage, scope := ← newScope, node := id } output

/-- Compiles the functions of a custom output. -/
def compileFunctions (env : Environment) (compile : Compiler) (id : NodeId) (e : Expression)
    (outputs : Nat) (stage : Stage) : PassM Unit := do
  (List.range outputs).forM fun i => do
    resetStack stage
    compileFunction env compile id e stage (Int.ofNat i)
  resetStack stage

/-- Compiles a custom output whose name is taken. -/
def compileNamedOutput (env : Environment) (compile : Compiler) (id : NodeId) (e : Expression)
    (out : CustomOutput) : PassM Unit := do
  if out.needsDefine then
    let define := defineNumber ("NUM_MATERIAL_OUTPUTS_" ++ Text.upper out.name) " " out.outputs
    modify fun p => { p with customDefines := p.customDefines ++ [define] }
  match out.stage with
  | none => throw .noSuchStage
  | some stage => compileFunctions env compile id e out.outputs stage
  note .debug "compiled custom output"
    [("name", out.name), ("outputs", toString out.outputs),
     ("before", toString out.beforeProperties)]

/-- Compiles a custom output. -/
def compileCustomOutput (env : Environment) (compile : Compiler) (id : NodeId) (e : Expression)
    (out : CustomOutput) : PassM Unit := do
  if !out.allowsMultiple && (← get).customOutputNames.contains out.name then
    reportGlobally (.repeatedCustomOutput out.name)
  else
    modify fun p => { p with customOutputNames := out.name :: p.customOutputNames }
    compileNamedOutput env compile id e out

/-- What a round of custom outputs does at one node of the list. -/
def compileListed (env : Environment) (g : ExpressionGraph) (compile : Compiler) (before : Bool)
    (id : NodeId) : PassM Unit :=
  match g.node? id with
  | some e =>
    match e.customOutput? with
    | some out =>
      if out.beforeProperties = before then compileCustomOutput env compile id e out else return
    | none => reportGlobally (.notCustomOutput id)
  | none => reportGlobally (.notCustomOutput id)

/-- Compiles the listed custom outputs that come before the properties, or those that come after
them. -/
def compileCustomOutputs (env : Environment) (g : ExpressionGraph) (compile : Compiler)
    (before : Bool) : PassM Unit :=
  env.material.customOutputs.forM (compileListed env g compile before)

end Pass

end ShaderGraph
