import ShaderGraph.Uniform.Basic
import ShaderGraph.Preshader.Machine
import ShaderGraph.Fault

/-!
# Programs of uniform expressions

An expression is compiled in postfix order, its arguments before it. A parameter becomes an index
into a table that grows as expressions are compiled; two parameters share an entry when they have
the same name and both are scalars or both are vectors, and the entry keeps the default that came
first.
-/

namespace ShaderGraph

/-- A parameter that programs read. -/
structure ParameterInfo where
  name : String
  vector : Bool
  default : Value
deriving DecidableEq

/-- The parameters of a set of programs, in the order of their indices. -/
abbrev ParameterTable := List ParameterInfo

namespace ParameterTable

/-- The index of a parameter in the table, which it is added to if needed. -/
def intern (table : ParameterTable) (name : String) (vector : Bool) (default : Value) :
    Nat × ParameterTable :=
  match table.findIdx? fun p => p.name == name && p.vector == vector with
  | some i => (i, table)
  | none => (table.length, table ++ [⟨name, vector, default⟩])

/-- The defaults in the order of their indices. -/
def defaults (table : ParameterTable) : List Value := table.map (·.default)

/-- The values in the order of their indices: overrides by name, else defaults. -/
def values (table : ParameterTable) (overrides : Overrides) : List Value :=
  table.map fun p => (overrides.lookup p.name).getD p.default

end ParameterTable

namespace Program

/-- The instruction that reads a parameter. -/
def readParameter (index : Nat) : Except Fault Program :=
  if index < 0x10000 then .ok (Instruction.parameter index.toUInt16).encode
  else .error .parameterIndex

end Program

namespace Uniform

/-- The program of an expression, and the table grown by the parameters it reads. -/
def program : Uniform → ParameterTable → Except Fault (Program × ParameterTable)
  | constant v _, table => .ok ((Instruction.constant v).encode, table)
  | scalarParameter name default, table => do
    let (index, table) := table.intern name false (Value.replicate default)
    return (← Program.readParameter index, table)
  | vectorParameter name default, table => do
    let (index, table) := table.intern name true default
    return (← Program.readParameter index, table)
  | texture _, _ => .error .textureProgram
  | unary op _ a, table => do
    let (p, table) ← a.program table
    return (p ++ (Instruction.unary op).encode, table)
  | binary op _ a b, table => do
    let (p, table) ← a.program table
    let (q, table) ← b.program table
    return (p ++ q ++ (Instruction.binary op).encode, table)
  | clamp _ a lo hi, table => do
    let (p, table) ← a.program table
    let (q, table) ← lo.program table
    let (r, table) ← hi.program table
    return (p ++ q ++ r ++ Instruction.clamp.encode, table)
  | swizzle pattern a, table => do
    let (p, table) ← a.program table
    return (p ++ (Instruction.swizzle pattern).encode, table)

/-- The programs of a list of expressions, compiled in order. -/
def programs : List Uniform → ParameterTable → Except Fault (List Program × ParameterTable)
  | [], table => .ok ([], table)
  | u :: rest, table => do
    let (p, table) ← u.program table
    let (ps, table) ← programs rest table
    return (p :: ps, table)

end Uniform

end ShaderGraph
