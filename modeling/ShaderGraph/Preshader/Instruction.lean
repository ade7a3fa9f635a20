import ShaderGraph.Preshader.Opcode

/-!
# Instructions and their bytes

A program is read as a sequence of `Item`s: instructions, bytes that are no operation, and an
instruction cut off by the end of the program. Every sequence of bytes reads as such a sequence, so
a program can be listed and run whatever it holds.
-/

namespace ShaderGraph

/-- The bytes of a preshader program. -/
abbrev Program := List UInt8

/-- An instruction of the stack machine. -/
inductive Instruction where
  /-- Pushes a value. -/
  | constant (value : Value)
  /-- Pushes the parameter with the given index. -/
  | parameter (index : UInt16)
  | unary (op : UnaryOp)
  | binary (op : BinaryOp)
  | clamp
  | swizzle (pattern : Swizzle)
deriving DecidableEq

namespace Instruction

/-! ### Encoding -/

/-- The four bytes of a number, the least significant first. -/
def singleBytes (x : Single) : List UInt8 :=
  [x.bits.toUInt8, (x.bits >>> 8).toUInt8, (x.bits >>> 16).toUInt8, (x.bits >>> 24).toUInt8]

/-- The operation of an instruction. -/
def opcode : Instruction → Opcode
  | constant _ => .constant
  | parameter _ => .parameter
  | unary op => op.opcode
  | binary op => op.opcode
  | clamp => .clamp
  | swizzle _ => .swizzle

/-- The operand bytes of an instruction. -/
def operands : Instruction → List UInt8
  | constant v => v.toList.flatMap singleBytes
  | parameter index => [index.toUInt8, (index >>> 8).toUInt8]
  | unary op => if op.opcode.hasCount then [op.count.toUInt8] else []
  | binary op => if op.opcode.hasCount then [op.count.toUInt8] else []
  | clamp => []
  | swizzle s => [s.count.toUInt8, s.first, s.second, s.third, s.fourth]

/-- The bytes of an instruction. -/
def encode (i : Instruction) : Program := i.opcode.byte :: i.operands

/-! ### Decoding -/

/-- The number with the given bytes. -/
def singleOfBytes (b₀ b₁ b₂ b₃ : UInt8) : Single :=
  ⟨b₀.toUInt32 ||| (b₁.toUInt32 <<< 8) ||| (b₂.toUInt32 <<< 16) ||| (b₃.toUInt32 <<< 24)⟩

/-- The numbers in a sequence of bytes, four bytes each. -/
def singlesOfBytes : List UInt8 → List Single
  | b₀ :: b₁ :: b₂ :: b₃ :: rest => singleOfBytes b₀ b₁ b₂ b₃ :: singlesOfBytes rest
  | _ => []

/-- The instruction of an operation with its operand bytes, of which there are as many as the
operation asks for. -/
def ofOperands? (op : Opcode) (operands : List UInt8) : Option Instruction :=
  match op, operands with
  | .constant, bytes => some (constant (Value.ofList (singlesOfBytes bytes)))
  | .parameter, low :: high :: _ => some (parameter (low.toUInt16 ||| (high.toUInt16 <<< 8)))
  | .swizzle, count :: b₀ :: b₁ :: b₂ :: b₃ :: _ => some (swizzle ⟨count.toNat, b₀, b₁, b₂, b₃⟩)
  | .clamp, _ => some clamp
  | op, operands =>
    let count := if op.hasCount then (operands.headD 0).toNat else 4
    match op.unary? count, op.binary? count with
    | some op, _ => some (unary op)
    | none, some op => some (binary op)
    | none, none => none

end Instruction

/-! ### Programs as items -/

/-- What stands at a place of a program. -/
inductive Item where
  | instruction (i : Instruction)
  /-- A byte that is no operation. -/
  | unknown (byte : UInt8)
  /-- An operation without all of its operands. -/
  | truncated (op : Opcode)
deriving DecidableEq

namespace Program

/-- The first item of a program and the bytes after it. -/
def nextItem (first : UInt8) (rest : List UInt8) : Item × List UInt8 :=
  match Opcode.ofByte? first with
  | none => (.unknown first, rest)
  | some op =>
    if rest.length < op.operandSize then (.truncated op, [])
    else
      match Instruction.ofOperands? op (rest.take op.operandSize) with
      | some i => (.instruction i, rest.drop op.operandSize)
      | none => (.truncated op, [])

/-- The items of a program from an offset on, at most `fuel` of them. -/
def itemsFrom : Nat → Nat → Program → List (Nat × Item)
  | 0, _, _ => []
  | _ + 1, _, [] => []
  | fuel + 1, offset, first :: rest =>
    let (item, after) := nextItem first rest
    (offset, item) :: itemsFrom fuel (offset + (1 + (rest.length - after.length))) after

/-- The items of a program, each with its offset. -/
def items (p : Program) : List (Nat × Item) := itemsFrom p.length 0 p

/-! ### Listing -/

/-- The letter of a component. -/
def componentLetter (i : UInt8) : Char :=
  match i.toNat % 4 with
  | 0 => 'x'
  | 1 => 'y'
  | 2 => 'z'
  | _ => 'w'

/-- The operands of an instruction in a listing. -/
def operandText : Instruction → String
  | .constant v => String.join (v.toList.map fun x => " " ++ x.shortest)
  | .parameter index => s!" {index}"
  | .unary op => if op.opcode.hasCount then s!" {op.count}" else ""
  | .binary op => if op.opcode.hasCount then s!" {op.count}" else ""
  | .clamp => ""
  | .swizzle s =>
    " " ++ String.ofList (([s.first, s.second, s.third, s.fourth].take s.count).map componentLetter)

/-- The line of an item in a listing. -/
def itemText : Item → String
  | .instruction i => i.opcode.name ++ operandText i ++ "\n"
  | .unknown byte => Opcode.nameOfByte byte ++ "\n"
  | .truncated _ => "<truncated>\n"

/-- The listing of a program, an instruction a line. -/
def listing (p : Program) : String := String.join (p.items.map fun (_, item) => itemText item)

end Program

end ShaderGraph
