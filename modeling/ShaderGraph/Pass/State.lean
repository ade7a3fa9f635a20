import ShaderGraph.Diagnostic
import ShaderGraph.Fault
import ShaderGraph.Material
import ShaderGraph.Text.Digest
import ShaderGraph.Uniform.Slots

/-!
# The state of a compilation

One compilation of a material is a pass. It emits code in pieces, called chunks, into scopes: one
scope for each stage and one for each function that is generated apart. A `Code` is a handle to a
chunk of the current scope, or nothing when there is no code.

Nodes are compiled inside frames. The outermost frame of a stage is the material itself, and each
function call in progress adds one. A frame remembers what was compiled in it and what is in
progress in it; frames are never dropped from the list of all frames, so a frame can be left for
the time an argument is compiled, and be entered again through another output of its call.

A step of a pass is a `PassM`: it reads and changes the state, and either returns or breaks off
with a fault, in which case the state up to there is kept.
-/

namespace ShaderGraph

/-! ### Chunks -/

/-- A handle to a chunk of the current scope, or no code. -/
abbrev Code := Option Nat

/-- How a chunk is read. -/
inductive Form where
  /-- Its text is put in place. -/
  | inline
  /-- It is assigned to a temporary with the given number. -/
  | temporary (number : Nat)
  /-- It stands for a uniform expression. -/
  | uniform (u : SharedUniform)

/-- A piece of generated code. -/
structure Chunk where
  digest : Digest
  /-- The text the chunk was requested with. -/
  text : String
  type : ValueType
  form : Form

/-- The name of the temporary with the given number. -/
def temporaryName (number : Nat) : String := "Local" ++ toString number

namespace Chunk

/-- The uniform expression a chunk stands for. -/
def uniform? (c : Chunk) : Option SharedUniform :=
  match c.form with
  | .uniform u => some u
  | _ => none

/-- The uniform expression of a chunk that is not folded into a literal. -/
def deferred? (c : Chunk) : Option SharedUniform := c.uniform?.filter fun u => !u.expr.isConstant

/-- The uniform expression of a chunk that is folded into a literal. -/
def folded? (c : Chunk) : Option SharedUniform := c.uniform?.filter fun u => u.expr.isConstant

/-- The line that declares the temporary of a chunk, empty for any other chunk. -/
def declaration (c : Chunk) : String :=
  match c.form with
  | .temporary number =>
    "\t" ++ c.type.sourceName ++ " " ++ temporaryName number ++ " = " ++ c.text ++ ";\n"
  | _ => ""

end Chunk

/-- The chunks of a scope, in the order in which they were emitted. -/
abbrev Scope := List Chunk

/-- The declarations of the chunks from `start` to before `stop`. -/
def Scope.declarations (s : Scope) (start stop : Nat) : String :=
  String.join (((s.take stop).drop start).map Chunk.declaration)

/-! ### Frames -/

/-- What identifies a compiled result inside a frame. -/
structure Key where
  node : NodeId
  output : Int
  attributeOf : Option Property
  previousFrame : Bool
deriving DecidableEq

/-- A function call: the name of the function and what its inputs are connected to. -/
structure Call where
  name : String
  arguments : List Input

/-- What a function input is connected to. -/
def Call.argument (c : Call) (index : Int) : Input :=
  if index < 0 then .none else c.arguments.getD index.toNat .none

/-- The state of a function call, or of the material outside of all calls. -/
structure Frame where
  call : Option Call := none
  callNode : NodeId := 0
  /-- What is being compiled, the innermost first, each with the kind of its node. -/
  active : List (Key × String) := []
  /-- What was compiled. -/
  memo : List (Key × Code) := []
  /-- The frames of the calls in this frame; the outputs of one call share a frame. -/
  shared : List (Key × Nat) := []

/-! ### Records of a pass -/

/-- A phase of a pass. -/
inductive Phase where
  | init
  | vertexInterpolators
  | virtualTextureLimits
  | normal
  | remainingProperties
  | customOutputs
  | finalize
  | success
  | failed
deriving DecidableEq

/-- The phases in the order of their numbers. -/
def Phase.all : List Phase :=
  [init, vertexInterpolators, virtualTextureLimits, normal, remainingProperties, customOutputs,
   finalize, success, failed]

/-- The name of a phase. -/
def Phase.name : Phase → String
  | init => "INIT"
  | vertexInterpolators => "COMPILE_VERTEX_INTERPOLATORS"
  | virtualTextureLimits => "VALIDATE_VT_LIMITS"
  | normal => "COMPILE_NORMAL"
  | remainingProperties => "COMPILE_REMAINING_PROPERTIES"
  | customOutputs => "COMPILE_CUSTOM_OUTPUTS"
  | finalize => "FINALIZE_TEMPLATE"
  | success => "SUCCESS"
  | failed => "FAILED"

/-- The name of the phase with the given number, also of a number without a phase. -/
def Phase.nameOfCode (code : UInt8) : String :=
  match all[code.toNat]? with
  | some phase => phase.name
  | none => s!"State({code})"

/-- The texture samples of a pass. -/
structure Stats where
  pixelSamples : Nat := 0
  vertexSamples : Nat := 0
  virtualSamples : Nat := 0

/-- What a material was found to use. -/
structure Usage where
  emissiveColor : Bool := false
  worldPositionOffset : Bool := false
  pixelDepthOffset : Bool := false
  /-- Whether the roughness is the constant one. -/
  fullyRough : Bool := false
  vertexColor : Bool := false
  vertexPosition : Bool := false
  positionWithoutOffsets : Bool := false

/-- A vertex interpolator whose input compiled. -/
structure Interpolator where
  node : NodeId
  index : Nat
  type : ValueType
  /-- The first of its scalars among all interpolated ones, once the pixel stage has read it. -/
  offset : Option Nat
deriving DecidableEq

/-- The number of scalars of an interpolator. -/
def Interpolator.size (i : Interpolator) : Nat := i.type.components

/-- What the samples of one virtual texture stack have in common. -/
structure StackKey where
  scope : Nat
  coordinate : Digest
  mip : Digest
  mipY : Digest
  mode : MipMode
  addressU : TextureAddress
  addressV : TextureAddress
  aspect : Single
  preallocated : Int
  feedback : Bool
deriving DecidableEq

/-- Whether two samples can share a stack. -/
def StackKey.agrees (a b : StackKey) : Bool :=
  a.scope == b.scope && a.coordinate == b.coordinate && a.mip == b.mip && a.mipY == b.mipY &&
    a.mode == b.mode && a.addressU == b.addressU && a.addressV == b.addressV &&
    a.aspect.equal b.aspect && a.preallocated == b.preallocated && a.feedback == b.feedback

/-- The digest of a key. The aspect counts in thousandths. -/
def StackKey.digest (k : StackKey) : Digest :=
  let parts : List Digest :=
    [k.mip, k.mipY, .ofNat k.mode.code, .ofNat k.addressU.code, .ofNat k.addressV.code,
     (k.aspect.mul .thousand).wholePart, .ofInt k.preallocated, if k.feedback then 1 else 0]
  parts.foldl (fun d part => Digest.combine [d, part])
    (Digest.combine [.ofNat k.scope, k.coordinate])

/-- Places that are found by digests, the latest list for a digest first. -/
abbrev Buckets := List (Digest × List Nat)

namespace Buckets

/-- The places with a digest. -/
def places (b : Buckets) (d : Digest) : List Nat := (b.lookup d).getD []

/-- Adds a place with a digest, behind those that have it. -/
def add (b : Buckets) (d : Digest) (place : Nat) : Buckets := (d, b.places d ++ [place]) :: b

end Buckets

/-- The key and the page table code of a stack. -/
structure StackEntry where
  key : StackKey
  pageTable : Code
deriving DecidableEq

/-- A set of small numbers, as a list of flags. -/
abbrev FlagSet := List Bool

namespace FlagSet

/-- The set with a number in it. -/
def insert (s : FlagSet) (i : Nat) : FlagSet :=
  (s ++ List.replicate (i + 1 - s.length) false).set i true

/-- One more than the largest member, zero for the empty set. -/
def bound (s : FlagSet) : Nat := (s.reverse.dropWhile (!·)).length

/-- The smallest number not in the set, and the set with it. -/
def insertLeast (s : FlagSet) : Nat × FlagSet :=
  match s.findIdx? (!·) with
  | some i => (i, s.set i true)
  | none => (s.length, s ++ [true])

end FlagSet

/-! ### The state -/

/-- The state of a pass. -/
structure Pass where
  success : Bool := true
  phase : Phase := .init
  trace : List Phase := []
  frames : List Frame := []
  /-- The open frames of each stage, as places in the list of frames, the innermost first. -/
  openFrames : StageTable (List Nat) := .const []
  /-- Where diagnostics go while a vertex interpolator is tried out. -/
  sink : Option (List Diagnostic) := none
  diagnostics : List Diagnostic := []
  scopes : List Scope := []
  stageScopes : StageTable Nat := .const 0
  nextTemporary : Nat := 0
  finished : Bool := false
  uniforms : UniformTable := []
  slots : UniformSet := {}
  stackEntries : List StackEntry := []
  /-- The places of the stacks, by the digests of their keys. -/
  stackBuckets : Buckets := []
  results : PropertyTable Code := .const none
  /-- The number of chunks of the pixel scope when the normal was compiled. -/
  normalEnd : Nat := 0
  vertexCoordinates : FlagSet := []
  pixelCoordinates : FlagSet := []
  interpolators : List Interpolator := []
  /-- The diagnostics held back for interpolators whose input did not compile. -/
  interpolatorErrors : List (NodeId × List Diagnostic) := []
  /-- The number of interpolated scalars that the pixel stage reads. -/
  interpolatedScalars : Nat := 0
  implementations : List String := []
  customDefines : List String := []
  customOutputNames : List String := []
  shadingModels : ShadingModels := .empty
  stats : Stats := {}
  usage : Usage := {}
  log : List LogEntry := []

/-- The chunks of a scope. -/
def Pass.scope (p : Pass) (index : Nat) : Scope := p.scopes.getD index []

/-- A step of a pass. -/
abbrev PassM := EStateM Fault Pass

/-- What a pass compiles, and with which options. -/
structure Environment where
  material : Material
  options : Options := {}

/-- Where code is being compiled. -/
structure Context where
  env : Environment
  stage : Stage
  scope : Nat
  /-- The property being compiled, if any. -/
  property : Option Property := none
  attributeOf : Option Property := none
  /-- Whether the values of the previous frame are compiled. -/
  previousFrame : Bool := false
  /-- The node being compiled. -/
  node : NodeId := 0
  /-- The frame that a function call being compiled shares with its other outputs. -/
  shared : Option Nat := none

/-- The material being compiled. -/
def Context.material (ctx : Context) : Material := ctx.env.material

/-- The options of the compilation. -/
def Context.options (ctx : Context) : Options := ctx.env.options

/-! ### Reports -/

namespace Pass

/-- Adds an entry to the log. -/
def note (level : LogLevel) (message : String) (attributes : List (String × String)) :
    PassM Unit :=
  modify fun p => { p with log := p.log ++ [⟨level, message, attributes⟩] }

/-- Adds a diagnostic, unless one with the same message is there, and marks the pass as failed. -/
def addDiagnostic (d : Diagnostic) : PassM Unit := do
  modify fun p => { p with success := false }
  let p ← get
  unless p.diagnostics.any fun known => known.message == d.message do
    set { p with diagnostics := p.diagnostics ++ [d] }
    note .debug "translator diagnostic"
      [("kind", d.kind.name), ("node", toString d.node), ("msg", d.message)]

/-- Reports a problem of the material as a whole. -/
def reportGlobally (problem : Problem) : PassM Unit :=
  addDiagnostic ⟨problem.message, 0, problem.kind⟩

/-- Enters a phase. -/
def enter (phase : Phase) : PassM Unit := do
  modify fun p => { p with phase := phase, trace := p.trace ++ [phase] }
  note .debug "translator phase" [("state", phase.name)]

/-- The frame at a place of the list of frames. -/
def frame? (p : Pass) (id : Nat) : Option Frame := p.frames[id]?

end Pass

/-- The kinds of nodes that are not named in diagnostics. -/
def unnamedKinds : List String := ["FunctionCall", "FunctionInput", "FunctionOutput"]

namespace Context

/-- Where a problem found now is reported: the text in front of it and the node it is put down to.
Inside of functions that is the call in the material itself. -/
def location (ctx : Context) (p : Pass) : String × NodeId :=
  let stack := p.openFrames.get ctx.stage
  let outermost := stack.reverse[1]?.bind p.frame?
  let (callText, callNode) :=
    match outermost with
    | some frame =>
      match frame.call with
      | some call => ("Function " ++ call.name ++ ": ", frame.callNode)
      | none => ("", 0)
    | none => ("", 0)
  match (stack.head?.bind p.frame?).bind (·.active.head?) with
  | some (key, kind) =>
    (callText ++ (if unnamedKinds.contains kind then "" else "(Node " ++ kind ++ ") "),
      if callNode = 0 then key.node else callNode)
  | none => (callText, callNode)

/-- Reports a problem at the node being compiled. There is no code for it. -/
def report (ctx : Context) (problem : Problem) : PassM Code := do
  let p ← get
  let (place, node) := ctx.location p
  let d : Diagnostic := ⟨place ++ problem.message, node, problem.kind⟩
  match p.sink with
  | some held => set { p with sink := some (held ++ [d]) }
  | none => Pass.addDiagnostic d
  return none

end Context

end ShaderGraph
