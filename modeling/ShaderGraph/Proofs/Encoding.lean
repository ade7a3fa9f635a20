import ShaderGraph.Preshader.Machine

/-!
# Instructions read back from their bytes

A program put together from instructions is read as these instructions, whatever their operands
are, as long as a stated number of components fits in its byte. So the machine can be reasoned
about as if it ran a list of instructions: `Program.Executes` says how such a list changes the
stack, and `Program.run_of_executes` brings that back to bytes.
-/

namespace ShaderGraph

/-! ### Words and values -/

namespace Instruction

/-- A number is read back from its four bytes. -/
theorem singleOfBytes_singleBytes (x : Single) :
    singleOfBytes x.bits.toUInt8 (x.bits >>> 8).toUInt8 (x.bits >>> 16).toUInt8
      (x.bits >>> 24).toUInt8 = x := by
  have word : ∀ b : UInt32, b.toUInt8.toUInt32 ||| ((b >>> 8).toUInt8.toUInt32 <<< 8) |||
      ((b >>> 16).toUInt8.toUInt32 <<< 16) ||| ((b >>> 24).toUInt8.toUInt32 <<< 24) = b := by
    intro b
    apply UInt32.eq_of_toBitVec_eq
    ext i hi
    simp [-UInt32.toUInt32_toUInt8]
    grind
  exact congrArg Single.mk (word x.bits)

/-- Numbers are read back from their bytes. -/
theorem singlesOfBytes_flatMap (l : List Single) : singlesOfBytes (l.flatMap singleBytes) = l := by
  induction l with
  | nil => rfl
  | cons x rest ih =>
    simp only [List.flatMap_cons, singleBytes, List.cons_append, List.nil_append, singlesOfBytes]
    rw [singleOfBytes_singleBytes, ih]

/-- An index is read back from its two bytes. -/
theorem indexOfBytes (index : UInt16) :
    index.toUInt8.toUInt16 ||| ((index >>> 8).toUInt8.toUInt16 <<< 8) = index := by
  apply UInt16.eq_of_toBitVec_eq
  ext i hi
  simp [-UInt16.toUInt16_toUInt8]
  grind

/-- A small number is read back from its byte. -/
theorem toNat_toUInt8 {n : Nat} (h : n < 256) : n.toUInt8.toNat = n := by
  exact Nat.mod_eq_of_lt h

end Instruction

@[simp] theorem Value.ofList_toList (v : Value) : Value.ofList v.toList = v := rfl

/-! ### Single instructions -/

namespace Instruction

variable {i : Instruction}

/-- Whether the number of components that an instruction states fits in a byte. -/
def Fits : Instruction → Prop
  | unary op => op.count < 256
  | binary op => op.count < 256
  | swizzle pattern => pattern.count < 256
  | _ => True

/-- An instruction has as many operand bytes as its operation asks for. -/
theorem length_operands (i : Instruction) : i.operands.length = i.opcode.operandSize := by
  cases i with
  | constant v => rfl
  | parameter index => rfl
  | unary op => cases op <;> rfl
  | binary op => cases op <;> rfl
  | clamp => rfl
  | swizzle pattern => rfl

/-- An instruction is read back from its operand bytes. -/
theorem ofOperands?_operands (h : i.Fits) : ofOperands? i.opcode i.operands = some i := by
  cases i with
  | constant v =>
    show some (constant (Value.ofList (singlesOfBytes (v.toList.flatMap singleBytes)))) = _
    rw [singlesOfBytes_flatMap, Value.ofList_toList]
  | parameter index =>
    show some (parameter (index.toUInt8.toUInt16 ||| ((index >>> 8).toUInt8.toUInt16 <<< 8))) = _
    rw [indexOfBytes]
  | unary op =>
    cases op with
    | length count =>
      show some (unary (.length count.toUInt8.toNat)) = _
      rw [toNat_toUInt8 (n := count) h]
    | _ => rfl
  | binary op =>
    cases op with
    | dot count =>
      show some (binary (.dot count.toUInt8.toNat)) = _
      rw [toNat_toUInt8 (n := count) h]
    | append count =>
      show some (binary (.append count.toUInt8.toNat)) = _
      rw [toNat_toUInt8 (n := count) h]
    | _ => rfl
  | clamp => rfl
  | swizzle pattern =>
    show some (swizzle { pattern with count := pattern.count.toUInt8.toNat }) = _
    rw [toNat_toUInt8 h]

/-- An instruction in front of a program is its first item. -/
theorem nextItem_encode (h : i.Fits) (rest : Program) :
    Program.nextItem i.opcode.byte (i.operands ++ rest) = (.instruction i, rest) := by
  have hlen := i.length_operands
  have hsize : ¬ (i.operands ++ rest).length < i.opcode.operandSize := by
    rw [List.length_append]
    omega
  simp only [Program.nextItem, Opcode.ofByte?_byte, hsize, if_false]
  rw [List.take_left' hlen, List.drop_left' hlen, ofOperands?_operands h]

end Instruction

/-! ### Lists of instructions -/

namespace Program

variable {is : List Instruction} {params s t : List Value}

/-- The program of a list of instructions. -/
def ofInstructions (is : List Instruction) : Program := is.flatMap Instruction.encode

/-- The items of the program of a list of instructions are these instructions. Every instruction
has at least one byte, so the length of the program is enough to read all of them. -/
theorem itemsFrom_ofInstructions (h : ∀ i ∈ is, i.Fits) {fuel : Nat}
    (hf : (ofInstructions is).length ≤ fuel) (offset : Nat) :
    (itemsFrom fuel offset (ofInstructions is)).map Prod.snd = is.map Item.instruction := by
  induction is generalizing fuel offset with
  | nil => cases fuel <;> rfl
  | cons i rest ih =>
    have hcons : ofInstructions (i :: rest) =
        i.opcode.byte :: (i.operands ++ ofInstructions rest) := rfl
    rw [hcons] at hf ⊢
    cases fuel with
    | zero => simp at hf
    | succ fuel =>
      simp only [List.length_cons, List.length_append] at hf
      simp only [itemsFrom, i.nextItem_encode (h i (by simp)), List.map_cons]
      rw [ih (fun j hj => h j (by simp [hj])) (by omega)]

theorem items_ofInstructions (h : ∀ i ∈ is, i.Fits) :
    (ofInstructions is).items.map Prod.snd = is.map Item.instruction :=
  itemsFrom_ofInstructions h (Nat.le_refl _) 0

/-! ### Execution -/

/-- Running a list of instructions, wherever it stands in a program, turns the stack `s` into the
stack `t`. -/
def Executes (params : List Value) (is : List Instruction) (s t : List Value) : Prop :=
  ∀ items : List (Nat × Item), items.map Prod.snd = is.map Item.instruction →
    items.foldlM (step params) s = .ok t

theorem Executes.single {i : Instruction} (h : ∀ offset, execute offset i params s = .ok t) :
    Executes params [i] s t := by
  intro items hitems
  obtain ⟨⟨offset, item⟩, rfl, hitem⟩ := List.map_eq_singleton_iff.mp hitems
  obtain rfl : item = .instruction i := hitem
  simp only [List.foldlM_cons, List.foldlM_nil, step, h offset]
  rfl

theorem Executes.append {r : List Value} {js : List Instruction} (hi : Executes params is s t)
    (hj : Executes params js t r) : Executes params (is ++ js) s r := by
  intro items hitems
  rw [List.map_append] at hitems
  obtain ⟨first, second, rfl, hfirst, hsecond⟩ := List.map_eq_append_iff.mp hitems
  rw [List.foldlM_append, hi first hfirst]
  exact hj second hsecond

/-- What a list of instructions leaves on top of the stack is the value of its program. -/
theorem run_of_executes {v : Value} (hfits : ∀ i ∈ is, i.Fits)
    (h : Executes params is [] (v :: t)) :
    (ofInstructions is).run params = .ok v := by
  simp only [run, h _ (items_ofInstructions hfits)]
  rfl

end Program

end ShaderGraph
