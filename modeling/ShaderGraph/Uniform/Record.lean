import ShaderGraph.Preshader.Numbered
import ShaderGraph.Uniform.Basic

/-!
# Records of uniform expressions

A record is a uniform expression as it is written down: its kind and its operation are numbers, it
has as many arguments as it happens to have, and some of them may be missing. Nothing in it is
checked before it is used, so using it can fail.

A record is told apart by its number. It is identical to itself even if a NaN is in it, and to
another one if all that is written in them agrees.
-/

namespace ShaderGraph

/-- What a record stands for. -/
inductive RecordKind where
  | constant
  | parameter
  | texture
  | operation
  /-- A number without a kind. -/
  | unlisted
deriving DecidableEq

/-- The kind with a number. There are scalar and vector parameters, and textures are bound in three
ways. -/
def RecordKind.ofCode (code : UInt8) : RecordKind :=
  match code with
  | 0 => constant
  | 1 | 2 => parameter
  | 3 | 4 | 5 => texture
  | 6 => operation
  | _ => unlisted

/-- What is written in a record beside its arguments. -/
structure UniformEntry where
  /-- The number of the kind. -/
  code : UInt8
  op : UInt8
  /-- The value of a constant, or the default of a parameter. -/
  value : Value
  type : ValueType
  name : String
  /-- The number of components that an operation works on. -/
  count : Int
  /-- Where a swizzle takes its components from. -/
  sources : List UInt8
  texture : Int
  sampler : UInt8
  layer : Int
  pageTableLayer : Int

/-- What a record with this entry stands for. -/
def UniformEntry.kind (e : UniformEntry) : RecordKind := .ofCode e.code

/-- Whether two records agree but for their arguments. -/
def UniformEntry.agrees (e f : UniformEntry) : Bool :=
  e.code == f.code && e.op == f.op && e.value.equal f.value && e.type == f.type &&
    e.name == f.name && e.count == f.count && e.sources == f.sources && e.texture == f.texture &&
    e.sampler == f.sampler && e.layer == f.layer && e.pageTableLayer == f.pageTableLayer

/-- A record of a uniform expression. -/
inductive UniformRecord where
  | mk (number : Nat) (entry : UniformEntry) (args : List (Option UniformRecord))

/-- Why a record cannot be used. -/
inductive RecordFault where
  | missingArgument
  | operation (fault : OperationFault)
deriving DecidableEq

/-- The text of a fault, if it has one. -/
def RecordFault.message? : RecordFault → Option String
  | missingArgument => none
  | operation fault => fault.message?

namespace UniformRecord

/-- What is written in a record. -/
def entry : UniformRecord → UniformEntry
  | mk _ e _ => e

/-- Whether a record is a texture reference. -/
def isTexture (r : UniformRecord) : Bool := r.entry.kind = .texture

mutual

/-- Whether a record is built from literals alone. The first argument that is not, or is missing,
decides. -/
def isConstant : UniformRecord → Except RecordFault Bool
  | mk _ e args =>
    match e.kind with
    | .constant => .ok true
    | .operation => areConstant args
    | _ => .ok false

/-- Whether all arguments are built from literals alone. -/
def areConstant : List (Option UniformRecord) → Except RecordFault Bool
  | [] => .ok true
  | none :: _ => .error .missingArgument
  | some a :: rest => do if ← a.isConstant then areConstant rest else return false

end

mutual

/-- Whether two records are one, or agree throughout. -/
def identical : UniformRecord → UniformRecord → Bool
  | mk m e as, mk n f bs => m == n || (e.agrees f && areIdentical as bs)

/-- Whether arguments agree one by one. -/
def areIdentical : List (Option UniformRecord) → List (Option UniformRecord) → Bool
  | [], [] => true
  | none :: as, none :: bs => areIdentical as bs
  | some a :: as, some b :: bs => a.identical b && areIdentical as bs
  | _, _ => false

end

/-- The value of an operation on the values of its arguments. -/
def operate (e : UniformEntry) (args : List (Except RecordFault Value)) :
    Except RecordFault Value := do
  let arg (i : Nat) : Except RecordFault Value := args.getD i (.error .missingArgument)
  let source (i : Nat) : UInt8 := e.sources.getD i 0
  match Opcode.ofByte? e.op with
  | some .swizzle =>
    let a ← arg 0
    return a.swizzle ⟨e.count.toNat, source 0, source 1, source 2, source 3⟩
  | some .clamp =>
    let a ← arg 0
    let lo ← arg 1
    let hi ← arg 2
    return a.clamp lo hi
  | _ =>
    if Opcode.arityOfByte e.op = 2 then
      let a ← arg 0
      let b ← arg 1
      (applyBinary e.op e.count a b).mapError .operation
    else
      let a ← arg 0
      (applyUnary e.op e.count a).mapError .operation

mutual

/-- The value of a record. A parameter without an override has its default, and a texture is
zero. -/
def evaluate (overrides : Overrides) : UniformRecord → Except RecordFault Value
  | mk _ e args =>
    match e.kind with
    | .constant => .ok e.value
    | .parameter => .ok ((overrides.lookup e.name).getD e.value)
    | .operation => operate e (evaluateAll overrides args)
    | _ => .ok Value.zero

/-- The values of arguments. -/
def evaluateAll (overrides : Overrides) :
    List (Option UniformRecord) → List (Except RecordFault Value)
  | [] => []
  | none :: rest => .error .missingArgument :: evaluateAll overrides rest
  | some a :: rest => a.evaluate overrides :: evaluateAll overrides rest

end

mutual

/-- The text of a record. -/
def text : UniformRecord → Except RecordFault String
  | mk _ e args => do
    match e.kind with
    | .constant => return "const" ++ e.value.text
    | .parameter => return "param(" ++ e.name ++ ")"
    | .operation => return Opcode.nameOfByte e.op ++ "(" ++ ",".intercalate (← textAll args) ++ ")"
    | _ => return s!"texture({e.texture}," ++ Text.quote e.name ++ ")"

/-- The texts of arguments. -/
def textAll : List (Option UniformRecord) → Except RecordFault (List String)
  | [] => .ok []
  | none :: _ => .error .missingArgument
  | some a :: rest => do return (← a.text) :: (← textAll rest)

end

end UniformRecord

end ShaderGraph
