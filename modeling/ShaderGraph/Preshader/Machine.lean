import ShaderGraph.Preshader.Instruction

/-!
# The stack machine of preshader programs

`Program.run` executes a program on a stack of values. The checks come in one order at every
instruction: is it an operation, is it complete, does the stack hold its operands, does the
parameter exist.
-/

namespace ShaderGraph

/-- Why a program has no value. -/
inductive EvalError where
  | unknownOperation (byte : UInt8) (offset : Nat)
  | truncated (op : Opcode) (offset : Nat)
  | underflow (op : Opcode) (offset : Nat)
  | noParameter (index count : Nat)
  | noResult
  /-- More components asked in front of an appended value than a value has. -/
  | components (count : Nat)
  /-- The values given are not as many as the parameters. -/
  | parameterCount (given wanted : Nat)
  /-- The failure of one entry of a table of programs. -/
  | entry (vector : Bool) (index : Nat) (cause : EvalError)
deriving DecidableEq

namespace EvalError

/-- The text of a failure. -/
def message : EvalError → String
  | unknownOperation byte offset => s!"invalid op {byte} at {offset}"
  | truncated op offset => s!"{op.name} at {offset}: truncated instruction"
  | underflow op offset => s!"{op.name} at {offset}: stack underflow"
  | noParameter index count => s!"parameter {index} out of range [0,{count})"
  | noResult => "program leaves no result on stack"
  | components count => s!"cannot append after {count} components"
  | parameterCount given wanted => s!"got {given} parameter values, want {wanted}"
  | entry vector index cause =>
    (if vector then "vector" else "scalar") ++ s!" expression {index}: " ++ cause.message

/-- Whether the machine breaks off without reporting. -/
def isFault : EvalError → Bool
  | components _ => true
  | entry _ _ cause => cause.isFault
  | _ => false

end EvalError

namespace Program

/-- The stack after an instruction, whose operands the stack is known to hold. The top is the
head. -/
def execute (offset : Nat) (i : Instruction) (params stack : List Value) :
    Except EvalError (List Value) :=
  match i, stack with
  | .constant v, stack => .ok (v :: stack)
  | .parameter index, stack =>
    match params[index.toNat]? with
    | some v => .ok (v :: stack)
    | none => .error (.noParameter index.toNat params.length)
  | .swizzle s, a :: stack => .ok (a.swizzle s :: stack)
  | .clamp, hi :: lo :: a :: stack => .ok (a.clamp lo hi :: stack)
  | .unary op, a :: stack => .ok (op.apply a :: stack)
  | .binary op, b :: a :: stack =>
    if op.isDefined then .ok (op.apply a b :: stack) else .error (.components op.count)
  | i, _ => .error (.underflow i.opcode offset)

/-- The stack after an item. -/
def step (params stack : List Value) : Nat × Item → Except EvalError (List Value)
  | (offset, .unknown byte) => .error (.unknownOperation byte offset)
  | (offset, .truncated op) => .error (.truncated op offset)
  | (offset, .instruction i) => execute offset i params stack

/-- The value that a program leaves on top of the stack. -/
def run (p : Program) (params : List Value) : Except EvalError Value := do
  match ← p.items.foldlM (step params) [] with
  | v :: _ => .ok v
  | [] => .error .noResult

end Program

end ShaderGraph
