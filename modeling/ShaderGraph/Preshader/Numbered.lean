import ShaderGraph.Preshader.Instruction

/-!
# Operations by number

Operations as the bytes of programs number them, with numbers of components that nothing has checked
yet: what they do to values, and how they are put into a program.
-/

namespace ShaderGraph

/-- Why an operation with a number cannot be used the way it is asked for. -/
inductive OperationFault where
  | notUnary (byte : UInt8)
  | notBinary (byte : UInt8)
  /-- A number of components that no value has. -/
  | components
  | parameterIndex
  /-- An operation whose operands are not a number of components. -/
  | ownOperands (op : Opcode)
  | unknown
deriving DecidableEq

/-- The text of a fault, if it has one. -/
def OperationFault.message? : OperationFault → Option String
  | notUnary byte => some ("mateval: not a unary op: " ++ Opcode.nameOfByte byte)
  | notBinary byte => some ("mateval: not a binary op: " ++ Opcode.nameOfByte byte)
  | components => none
  | parameterIndex => some "mateval: parameter index out of range"
  | ownOperands op => some ("mateval: use dedicated Append function for " ++ op.name)
  | unknown => some "mateval: invalid op"

/-- Applies an operation of one operand. -/
def applyUnary (byte : UInt8) (count : Int) (a : Value) : Except OperationFault Value :=
  match (Opcode.ofByte? byte).bind (·.unary? count.toNat) with
  | some op => .ok (op.apply a)
  | none => .error (.notUnary byte)

/-- Applies an operation of two operands. -/
def applyBinary (byte : UInt8) (count : Int) (a b : Value) : Except OperationFault Value :=
  match (Opcode.ofByte? byte).bind (·.binary? count.toNat) with
  | some op =>
    match op with
    | .append _ => if count < 0 || 4 < count then .error .components else .ok (op.apply a b)
    | _ => .ok (op.apply a b)
  | none => .error (.notBinary byte)

/-- The lowest byte of a number. -/
def lowByte (n : Int) : UInt8 := (n % 256).toNat.toUInt8

namespace Program

/-- The program followed by an instruction that pushes a value. -/
def pushConstant (p : Program) (v : Value) : Program := p ++ (Instruction.constant v).encode

/-- The program followed by an instruction that pushes a parameter. -/
def pushParameter (p : Program) (index : Int) : Except OperationFault Program :=
  if index < 0 || 0xffff < index then .error .parameterIndex
  else .ok (p ++ (Instruction.parameter index.toNat.toUInt16).encode)

/-- The program followed by a swizzle. -/
def pushSwizzle (p : Program) (count : Int) (sources : List UInt8) : Program :=
  let source (i : Nat) : UInt8 := sources.getD i 0
  p ++ (Instruction.swizzle ⟨(lowByte count).toNat, source 0, source 1, source 2, source 3⟩).encode

/-- The program followed by an operation, which states a number of components if it has to. -/
def pushOperation (p : Program) (byte : UInt8) (count : Int) : Except OperationFault Program :=
  match Opcode.ofByte? byte with
  | none => .error .unknown
  | some op =>
    match op with
    | .constant | .parameter | .swizzle => .error (.ownOperands op)
    | _ => .ok (p ++ op.byte :: if op.hasCount then [lowByte count] else [])

end Program

end ShaderGraph
