import ShaderGraph.Uniform.Program
import ShaderGraph.VirtualTexture.Stack

/-!
# Slots

The uniforms that generated code reads, one slot each. Scalars are packed four to a vector in the
order of their slots. A uniform is told apart by its place in the table of all uniforms of a
compilation, not by its structure.
-/

namespace ShaderGraph

/-- A uniform expression as the table of a compilation holds it. -/
structure SharedUniform where
  /-- Its place in the table. -/
  id : Nat
  /-- The places of its arguments. -/
  arguments : List Nat
  expr : Uniform
deriving DecidableEq

/-- The uniform expressions of a compilation, in the order in which they came up. -/
abbrev UniformTable := List SharedUniform

namespace UniformTable

/-- The entry that is the expression with the given arguments. Distinct entries differ, so it is
enough to compare arguments by their places. -/
def find? (table : UniformTable) (u : Uniform) (arguments : List Nat) : Option SharedUniform :=
  List.find? (fun e => e.expr.sameRoot u && e.arguments == arguments) table

end UniformTable

/-- The tables in which uniforms have their slots. -/
inductive SlotKind where
  | scalar
  | vector
  | texture2D
  | textureCube
  | texture2DArray
  | volumeTexture
  | externalTexture
  | virtualTexture
deriving DecidableEq

namespace SlotKind

/-- The table for uniforms of a type. -/
def ofType? (t : ValueType) : Option SlotKind :=
  match t.bits with
  | 1 | 15 => some scalar
  | 2 | 4 | 8 => some vector
  | 16 => some texture2D
  | 32 => some textureCube
  | 64 => some texture2DArray
  | 128 => some volumeTexture
  | 2048 => some externalTexture
  | 4096 => some virtualTexture
  | _ => none

/-- The text that reads slot `i` as the given type. Four scalars share a vector, and a virtual
texture is read through its stack. -/
def access (kind : SlotKind) (type : ValueType) (i : Nat) : String :=
  match kind with
  | scalar =>
    let letter := (["x", "y", "z", "w"] : List String).getD (i % 4) ""
    s!"Material.ScalarExpressions[{i / 4}].{letter}"
  | vector =>
    let mask := if type = .float2 then ".rg" else if type = .float3 then ".rgb" else ""
    s!"Material.VectorExpressions[{i}]{mask}"
  | texture2D => s!"Material.Texture2D_{i}"
  | textureCube => s!"Material.TextureCube_{i}"
  | texture2DArray => s!"Material.Texture2DArray_{i}"
  | volumeTexture => s!"Material.VolumeTexture_{i}"
  | externalTexture => s!"Material.ExternalTexture_{i}"
  | virtualTexture => ""

end SlotKind

/-- The slots with the given uniform in them, and its slot. -/
def addSlot (slots : List SharedUniform) (u : SharedUniform) : Nat × List SharedUniform :=
  match slots.findIdx? fun e => e.id == u.id with
  | some i => (i, slots)
  | none => (slots.length, slots ++ [u])

/-- The tables behind the generated code. -/
structure UniformSet where
  scalars : List SharedUniform := []
  vectors : List SharedUniform := []
  textures2D : List SharedUniform := []
  texturesCube : List SharedUniform := []
  textures2DArray : List SharedUniform := []
  texturesVolume : List SharedUniform := []
  texturesExternal : List SharedUniform := []
  texturesVirtual : List SharedUniform := []
  layerStacks : List LayerStack := []
  parameters : ParameterTable := []
  scalarPrograms : List Program := []
  vectorPrograms : List Program := []
deriving DecidableEq

namespace UniformSet

/-- The table of a kind. -/
def table (set : UniformSet) : SlotKind → List SharedUniform
  | .scalar => set.scalars
  | .vector => set.vectors
  | .texture2D => set.textures2D
  | .textureCube => set.texturesCube
  | .texture2DArray => set.textures2DArray
  | .volumeTexture => set.texturesVolume
  | .externalTexture => set.texturesExternal
  | .virtualTexture => set.texturesVirtual

/-- The set with another table of a kind. -/
def withTable (set : UniformSet) (kind : SlotKind) (slots : List SharedUniform) : UniformSet :=
  match kind with
  | .scalar => { set with scalars := slots }
  | .vector => { set with vectors := slots }
  | .texture2D => { set with textures2D := slots }
  | .textureCube => { set with texturesCube := slots }
  | .texture2DArray => { set with textures2DArray := slots }
  | .volumeTexture => { set with texturesVolume := slots }
  | .externalTexture => { set with texturesExternal := slots }
  | .virtualTexture => { set with texturesVirtual := slots }

@[simp] theorem table_withTable_self (set : UniformSet) (k : SlotKind) (l : List SharedUniform) :
    (set.withTable k l).table k = l := by cases k <;> rfl

theorem table_withTable_of_ne (set : UniformSet) {k j : SlotKind} (h : j ≠ k)
    (l : List SharedUniform) : (set.withTable k l).table j = set.table j := by
  cases k <;> cases j <;> first | rfl | exact absurd rfl h

/-- The set with the programs of its scalars and vectors. -/
def withPrograms (set : UniformSet) : Except Fault UniformSet := do
  let (scalars, table) ← Uniform.programs (set.scalars.map (·.expr)) set.parameters
  let (vectors, table) ← Uniform.programs (set.vectors.map (·.expr)) table
  return { set with scalarPrograms := scalars, vectorPrograms := vectors, parameters := table }

/-- The values of programs, a failure naming the entry it is in. -/
def runAll (vector : Bool) (params : List Value) :
    Nat → List Program → Except EvalError (List Value)
  | _, [] => .ok []
  | i, p :: rest =>
    match p.run params with
    | .error e => .error (.entry vector i e)
    | .ok v => do return v :: (← runAll vector params (i + 1) rest)

/-- The scalars, packed into whole vectors with zeros at the end, and the vectors. -/
def evaluate (set : UniformSet) (params : List Value) :
    Except EvalError (List Single × List Value) := do
  if params.length != set.parameters.length then
    throw (.parameterCount params.length set.parameters.length)
  let scalars ← runAll false params 0 set.scalarPrograms
  let vectors ← runAll true params 0 set.vectorPrograms
  let padding := (scalars.length + 3) / 4 * 4 - scalars.length
  return (scalars.map (·.x) ++ List.replicate padding Single.zero, vectors)

/-- The slot of a virtual texture, or `-1`. -/
def virtualSlot (set : UniformSet) (u : SharedUniform) : Int :=
  match set.texturesVirtual.findIdx? fun e => e.id == u.id with
  | some i => i
  | none => -1

end UniformSet

end ShaderGraph
