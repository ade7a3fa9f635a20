import ShaderGraph.Pass.State
import ShaderGraph.Text.Pattern

/-!
# Emitting and reading chunks

Code is emitted inline or as a temporary. A temporary with the digest and the text of a chunk that
the scope already has is that chunk. Uniform expressions are shared: an expression identical to one
in the table is that one, and a chunk of the scope that stands for it with the same type is reused.

Reading the text or the digest of an uniform expression that is not folded gives it a slot, and
emits a chunk that reads the slot.
-/

namespace ShaderGraph

/-- Adds an empty scope. -/
def Pass.newScope : PassM Nat := do
  let p ← get
  set { p with scopes := p.scopes ++ [[]] }
  return p.scopes.length

namespace Context

/-! ### Chunks of the current scope -/

/-- The chunks of the current scope. -/
def chunks (ctx : Context) : PassM Scope := return (← get).scope ctx.scope

/-- The chunk at a place of the current scope. -/
def chunk (ctx : Context) (index : Nat) : PassM Chunk := do
  match (← ctx.chunks)[index]? with
  | some c => return c
  | none => throw (.codeOutOfRange index)

/-- Appends a chunk to the current scope. -/
def push (ctx : Context) (c : Chunk) : PassM Code := do
  let p ← get
  set { p with scopes := p.scopes.modify ctx.scope (· ++ [c]) }
  return some (p.scope ctx.scope).length

/-- The type of code; that of no code is unknown. -/
def typeOf (ctx : Context) (c : Code) : PassM ValueType := do
  match c with
  | none => return .unknown
  | some i => return (← ctx.chunk i).type

/-- The uniform expression that code stands for. -/
def uniformOf (ctx : Context) (c : Code) : PassM (Option SharedUniform) := do
  match c with
  | none => return none
  | some i => return (← ctx.chunk i).uniform?

/-- Whether code stands for a uniform expression that is not folded. -/
def isDeferred (ctx : Context) (c : Code) : PassM Bool := do
  match c with
  | none => return false
  | some i => return (← ctx.chunk i).deferred?.isSome

/-- The value of code that is folded into a literal. -/
def constantOf (ctx : Context) (c : Code) : PassM (Option Value) := do
  match c with
  | none => return none
  | some i => return (← ctx.chunk i).folded?.map fun u => u.expr.evaluate []

/-! ### Emission -/

/-- Breaks off once the code is fixed. -/
def checkOpen (_ctx : Context) : PassM Unit := do
  if (← get).finished then throw .emittedAfterFinish

/-- Emits text that is put in place wherever it is read. -/
def emitInline (ctx : Context) (type : ValueType) (text : String) : PassM Code := do
  ctx.checkOpen
  if type = .unknown then return none
  ctx.push ⟨Digest.ofText text 0, text, type, .inline⟩

/-- Why code of a type cannot be kept in a temporary. -/
def unsupportedTemporary (type : ValueType) : Problem :=
  if type = .materialAttributes then .unsupported "Material Attributes"
  else if type.isTexture then .unsupported "a Texture"
  else if type = .staticBool then .unsupported "a Static Bool"
  else .unsupported ("type " ++ type.name)

/-- Emits a temporary with the given digest, or finds the chunk that already has it. -/
def emitWith (ctx : Context) (digest : Digest) (type : ValueType) (text : String) :
    PassM Code := do
  ctx.checkOpen
  if type = .unknown then return none
  if type.isFloat || type.shares .pageTableResult || type = .shadingModel then
    match (← ctx.chunks).findIdx? fun c => c.digest == digest && c.text == text with
    | some i => return some i
    | none =>
      let number := (← get).nextTemporary
      modify fun p => { p with nextTemporary := number + 1 }
      ctx.push ⟨digest, text, type, .temporary number⟩
  else ctx.report (unsupportedTemporary type)

/-- Emits a temporary, told apart by its text. -/
def emitTemporary (ctx : Context) (type : ValueType) (text : String) : PassM Code :=
  ctx.emitWith (Digest.ofText text 0) type text

/-! ### Uniform expressions -/

/-- Emits a chunk for a uniform expression with the given arguments. The text is that of a
literal, and empty for an expression that is not folded. -/
def emitUniform (ctx : Context) (u : Uniform) (arguments : List Nat) (type : ValueType)
    (digest : Digest) (text : String) : PassM Code := do
  if type = .unknown then return none
  if type.isTexture && !u.isTexture then return ← ctx.report (.unsupported "a Texture")
  if type = .textureExternal && !isExternal u then
    return ← ctx.report (.unsupported "an external texture")
  if type = .staticBool then return ← ctx.report (.unsupported "a Static Bool")
  if type = .materialAttributes then return ← ctx.report (.unsupported "a MaterialAttributes")
  let p ← get
  match p.uniforms.find? u arguments with
  | some known =>
    match (← ctx.chunks).findIdx? fun c => c.type == type && standsFor known c with
    | some i => return some i
    | none => ctx.push ⟨digest, text, type, .uniform known⟩
  | none =>
    let fresh : SharedUniform := ⟨p.uniforms.length, arguments, u⟩
    let code ← ctx.push ⟨digest, text, type, .uniform fresh⟩
    modify fun p => { p with uniforms := p.uniforms ++ [fresh] }
    return code
where
  /-- Whether an expression is an external texture. -/
  isExternal : Uniform → Bool
    | .texture ref => ref.kind == .external
    | _ => false
  /-- Whether a chunk stands for an entry of the table. -/
  standsFor (u : SharedUniform) (c : Chunk) : Bool :=
    match c.uniform? with
    | some v => v.id == u.id
    | none => false

/-- Gives a uniform expression a slot, and emits the text that reads it. -/
def readSlot (ctx : Context) (index : Nat) : PassM Code := do
  let c ← ctx.chunk index
  match c.deferred? with
  | none => throw .noSlot
  | some u =>
    match SlotKind.ofType? c.type with
    | none => throw (.noSlotType c.type)
    | some kind =>
      let p ← get
      let (slot, slots) := addSlot (p.slots.table kind) u
      set { p with slots := p.slots.withTable kind slots }
      ctx.emitInline c.type (kind.access c.type slot)

/-! ### Reading -/

/-- The text that reads a chunk which is not a deferred uniform expression. -/
def plainText (c : Chunk) : String :=
  match c.form with
  | .temporary number => temporaryName number
  | _ => c.text

/-- The text that reads code. -/
def textOf (ctx : Context) (c : Code) : PassM String := do
  match c with
  | none => return ""
  | some i =>
    let chunk ← ctx.chunk i
    if chunk.deferred?.isSome then
      match ← ctx.readSlot i with
      | some j => return plainText (← ctx.chunk j)
      | none => throw (.codeOutOfRange (-1))
    else return plainText chunk

/-- The digest of the value that code refers to. -/
def digestOf (ctx : Context) (c : Code) : PassM Digest := do
  match c with
  | none => return 0
  | some i =>
    let chunk ← ctx.chunk i
    if chunk.deferred?.isSome then
      match ← ctx.readSlot i with
      | some j => return (← ctx.chunk j).digest
      | none => throw (.codeOutOfRange (-1))
    else return chunk.digest

end Context

end ShaderGraph
