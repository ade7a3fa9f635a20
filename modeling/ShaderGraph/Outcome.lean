import ShaderGraph.Pass.CustomOutputs
import ShaderGraph.Pass.Interpolation
import ShaderGraph.Pass.Validation
import ShaderGraph.Shader.Source

/-!
# The outcome of a compilation

A compilation goes through its phases in order: interpolators, custom outputs that come before the
properties, the normal, the other properties, the remaining custom outputs, and the texture
coordinates that the pixel stage reads. After that the code is fixed and the source is put together.
-/

namespace ShaderGraph

/-- What a compilation gives. -/
structure Outcome where
  /-- The complete source of the shader. -/
  source : String := ""
  /-- The code of each property. -/
  properties : PropertyTable Body := .const {}
  slots : UniformSet
  defines : List Define := []
  diagnostics : List Diagnostic
  success : Bool
  phase : Phase
  trace : List Phase
  stats : Stats
  usage : Usage
  shadingModels : ShadingModels
  /-- The number of texture coordinates that the pixel stage reads. -/
  pixelCoordinates : Nat
  /-- The number of texture coordinates that the vertex stage reads. -/
  vertexCoordinates : Nat
  /-- The number of interpolated scalars that the pixel stage reads. -/
  interpolatedScalars : Nat
  log : List LogEntry

namespace Outcome

/-- The outcome of a pass that ended in its current state, without code. -/
def ofPass (p : Pass) (m : Material) : Outcome where
  slots := p.slots
  diagnostics := p.diagnostics
  success := p.success
  phase := p.phase
  trace := p.trace
  stats := p.stats
  usage := p.usage
  shadingModels := p.effectiveModels m
  pixelCoordinates := p.pixelCoordinates.bound
  vertexCoordinates := p.vertexCoordinates.bound
  interpolatedScalars := p.interpolatedScalars
  log := p.log.map fun e => { e with attributes := ("material", m.name) :: e.attributes }

/-- The messages of all diagnostics, nothing if there are none. -/
def diagnosticText? (o : Outcome) : Option String :=
  if o.diagnostics.isEmpty then none
  else some ("\n".intercalate (o.diagnostics.map (·.message)))

/-- Why the compilation failed, nothing if it did not. -/
def error? (o : Outcome) : Option String := if o.success then none else o.diagnosticText?

end Outcome

namespace Pass

/-- Gives every stage a scope and an outermost frame. -/
def openStages : PassM Unit :=
  Stage.all.forM fun stage => do
    resetStack stage
    let scope ← newScope
    modify fun p => { p with stageScopes := p.stageScopes.set stage scope }

/-- Compiles the normal, and records where its code ends. -/
def compileNormal (env : Environment) (compile : Compiler) : PassM Unit := do
  enter .normal
  compileProperties env compile [.normal]
  modify fun p => { p with normalEnd := (p.scope (p.stageScopes.get .pixel)).length }

/-- Compiles the texture coordinates that the pixel stage reads. -/
def compileCoordinates (env : Environment) (compile : Compiler) : PassM Unit := do
  let coordinates := (← get).pixelCoordinates.bound
  compileProperties env compile <|
    ((List.finRange 8).filter fun i => i.val < coordinates).map .customizedUV

/-- Compiles all that comes after the limits of virtual textures are checked. -/
def compileRounds (env : Environment) (g : ExpressionGraph) (compile : Compiler) : PassM Unit := do
  compileCustomOutputs env g compile true
  compileNormal env compile
  enter .remainingProperties
  compileRemaining env compile
  enter .customOutputs
  compileCustomOutputs env g compile false
  compileCoordinates env compile

/-- Compiles all that comes after the interpolators. -/
def compileRest (env : Environment) (g : ExpressionGraph) (compile : Compiler) : PassM Unit := do
  if env.options.virtualTexturing then
    enter .virtualTextureLimits
    (virtualTextureProblems env.material g).forM reportGlobally
  compileRounds env g compile

/-- Compiles everything, phase by phase, with a compiler for all that is asked for. -/
def compileAll (env : Environment) (g : ExpressionGraph) (compile : Compiler) : PassM Unit := do
  enter .vertexInterpolators
  compileInterpolators env g compile
  compileRest env g compile

/-- Records which properties differ from their neutral values. -/
def recordUsage (env : Environment) : PassM Unit := do
  let emissiveColor ← isUsed env .emissiveColor .zero 3
  let pixelDepthOffset ← isUsed env .pixelDepthOffset .zero 1
  let worldPositionOffset ← isUsed env .worldPositionOffset .zero 3
  let rough ← isUsed env .roughness (.replicate .one) 1
  modify fun p =>
    { p with usage := { p.usage with
      emissiveColor, pixelDepthOffset, worldPositionOffset,
      fullyRough := (p.results.get .roughness).isSome && !rough } }

/-- Checks the material as a whole. -/
def validate (env : Environment) : PassM Unit := do
  (env.material.problems ((← get).effectiveModels env.material)).forM reportGlobally
  ((← get).interpolatorProblem? env.options.featureLevel).forM reportGlobally

/-- Breaks off where a result is a fault. -/
def orFault {α : Type} : Except Fault α → PassM α
  | .ok a => return a
  | .error fault => throw fault

/-- The texts that a compilation ends with. -/
structure Texts where
  bodies : PropertyTable Body
  defines : List Define
  source : String

/-- The outcome of a pass with the given texts. -/
def Texts.outcome (t : Texts) (p : Pass) (m : Material) : Outcome :=
  { Outcome.ofPass p m with source := t.source, properties := t.bodies, defines := t.defines }

/-- Makes the programs and puts the texts together. -/
def assemble (env : Environment) : PassM Texts := do
  let slots ← orFault (← get).slots.withPrograms
  modify fun p => { p with slots := slots }
  let p ← get
  let bodies ← orFault p.propertyBodies
  let defines := p.defines env.material
  let source := (Shader.Parts.mk env.material p bodies defines).source
  enter (if p.success then .success else .failed)
  note .info "translated material"
    [("success", toString p.success), ("diagnostics", toString p.diagnostics.length),
     ("scalars", toString slots.scalars.length), ("vectors", toString slots.vectors.length),
     ("vtstacks", toString slots.layerStacks.length)]
  return { bodies, defines, source }

/-- Fixes the code, checks the material and puts the texts together. -/
def close (env : Environment) : PassM Texts := do
  enter .finalize
  modify fun p => { p with finished := true }
  recordUsage env
  validate env
  assemble env

/-- Ends a compilation. -/
def finish (env : Environment) : PassM Outcome := do
  let texts ← close env
  return texts.outcome (← get) env.material

/-- Compiles a material over a graph, with a compiler for all that is asked for. -/
def runBy (env : Environment) (g : ExpressionGraph) (compile : Compiler) : PassM Outcome := do
  enter .init
  openStages
  compileAll env g compile
  finish env

/-- Compiles a material. One without a graph fails at once. -/
def run (env : Environment) : Option ExpressionGraph → PassM Outcome
  | none => do
    enter .init
    reportGlobally (.noGraph env.material.name)
    enter .failed
    return Outcome.ofPass (← get) env.material
  | some g => runBy env g g.compile

end Pass

/-- The refusal of a second compilation by what has compiled a material already. -/
def reuseError : String := "translator already used"

/-- Compiles a material over a graph. -/
def Material.compile (m : Material) (g : ExpressionGraph) (options : Options) :
    Except Fault Outcome :=
  match (Pass.run ⟨m, options⟩ (some g)).run {} with
  | .ok outcome _ => .ok outcome
  | .error fault _ => .error fault

end ShaderGraph
