import ShaderGraph.Operation

/-!
# Operation codes

A preshader program is a sequence of bytes. Each instruction starts with an operation code, which
fixes how many operand bytes follow and how many values the instruction takes from the stack.
-/

namespace ShaderGraph

/-- The operation of an instruction. -/
inductive Opcode where
  | constant
  | parameter
  | add
  | sub
  | mul
  | div
  | fmod
  | min
  | max
  | atan2
  | dot
  | cross
  | length
  | clamp
  | saturate
  | abs
  | floor
  | ceil
  | frac
  | sqrt
  | log2
  | log10
  | sin
  | cos
  | tan
  | asin
  | acos
  | atan
  | swizzle
  | append
deriving DecidableEq

namespace Opcode

/-- Every operation, in the order of their bytes, which count from one. -/
def all : List Opcode :=
  [constant, parameter, add, sub, mul, div, fmod, min, max, atan2, dot, cross, length, clamp,
   saturate, abs, floor, ceil, frac, sqrt, log2, log10, sin, cos, tan, asin, acos, atan, swizzle,
   append]

/-- The name of an operation in listings and messages. -/
def name : Opcode → String
  | constant => "const"
  | parameter => "param"
  | add => "add"
  | sub => "sub"
  | mul => "mul"
  | div => "div"
  | fmod => "fmod"
  | min => "min"
  | max => "max"
  | atan2 => "atan2"
  | dot => "dot"
  | cross => "cross"
  | length => "length"
  | clamp => "clamp"
  | saturate => "saturate"
  | abs => "abs"
  | floor => "floor"
  | ceil => "ceil"
  | frac => "frac"
  | sqrt => "sqrt"
  | log2 => "log2"
  | log10 => "log10"
  | sin => "sin"
  | cos => "cos"
  | tan => "tan"
  | asin => "asin"
  | acos => "acos"
  | atan => "atan"
  | swizzle => "swizzle"
  | append => "append"

/-- The byte of an operation. -/
def byte (op : Opcode) : UInt8 := (all.idxOf op + 1).toUInt8

/-- The operation of a byte. -/
def ofByte? (b : UInt8) : Option Opcode := if b = 0 then none else all[b.toNat - 1]?

theorem ofByte?_byte (op : Opcode) : ofByte? op.byte = some op := by
  cases op <;> rfl

/-- The name of the operation of a byte, also of one that stands for none. -/
def nameOfByte (b : UInt8) : String :=
  match ofByte? b with
  | some op => op.name
  | none => if b = 0 then "invalid" else s!"Op({b})"

/-- The number of values an operation takes from the stack. -/
def arity : Opcode → Nat
  | constant | parameter => 0
  | clamp => 3
  | add | sub | mul | div | fmod | min | max | atan2 | dot | cross | append => 2
  | _ => 1

/-- The arity of the operation of a byte, or `-1` where there is none. -/
def arityOfByte (b : UInt8) : Int :=
  match ofByte? b with
  | some op => op.arity
  | none => -1

/-- Whether an instruction of the operation states a number of components. -/
def hasCount : Opcode → Bool
  | dot | length | append => true
  | _ => false

/-- The number of operand bytes that follow the operation. -/
def operandSize (op : Opcode) : Nat :=
  match op with
  | constant => 16
  | parameter => 2
  | swizzle => 5
  | _ => if op.hasCount then 1 else 0

/-- The operation of one operand with the given code and number of components. -/
def unary? (op : Opcode) (count : Nat) : Option UnaryOp :=
  match op with
  | length => some (.length count)
  | saturate => some .saturate
  | abs => some .abs
  | floor => some .floor
  | ceil => some .ceil
  | frac => some .frac
  | sqrt => some .sqrt
  | log2 => some .log2
  | log10 => some .log10
  | sin => some .sin
  | cos => some .cos
  | tan => some .tan
  | asin => some .asin
  | acos => some .acos
  | atan => some .atan
  | _ => none

/-- The operation of two operands with the given code and number of components. -/
def binary? (op : Opcode) (count : Nat) : Option BinaryOp :=
  match op with
  | add => some .add
  | sub => some .sub
  | mul => some .mul
  | div => some .div
  | fmod => some .fmod
  | min => some .min
  | max => some .max
  | atan2 => some .atan2
  | dot => some (.dot count)
  | cross => some .cross
  | append => some (.append count)
  | _ => none

end Opcode

/-- The code of an operation of one operand. -/
def UnaryOp.opcode : UnaryOp → Opcode
  | length _ => .length
  | saturate => .saturate
  | abs => .abs
  | floor => .floor
  | ceil => .ceil
  | frac => .frac
  | sqrt => .sqrt
  | log2 => .log2
  | log10 => .log10
  | sin => .sin
  | cos => .cos
  | tan => .tan
  | asin => .asin
  | acos => .acos
  | atan => .atan

/-- The number of components an operation of one operand states. -/
def UnaryOp.count : UnaryOp → Nat
  | length count => count
  | _ => 4

/-- The code of an operation of two operands. -/
def BinaryOp.opcode : BinaryOp → Opcode
  | add => .add
  | sub => .sub
  | mul => .mul
  | div => .div
  | fmod => .fmod
  | min => .min
  | max => .max
  | atan2 => .atan2
  | dot _ => .dot
  | cross => .cross
  | append _ => .append

/-- The number of components an operation of two operands states. -/
def BinaryOp.count : BinaryOp → Nat
  | dot count => count
  | append count => count
  | _ => 4

end ShaderGraph
