import ShaderGraph.Preshader.Machine

/-!
# Programs of any bytes

The machine takes any sequence of bytes for a program. It ends with a value or with a report, and
what the report says is the case (`Program.Warrants`). One operation is not guarded: appending to
more components than a value has breaks the machine off without a report (`Program.Overruns`). All
other counts and component indices do no harm, whatever they are.
-/

namespace ShaderGraph

variable {op : Opcode}

theorem Opcode.eq_byte_of_ofByte? {b : UInt8} (h : ofByte? b = some op) : b = op.byte := by
  unfold ofByte? at h
  split at h
  · cases h
  case isFalse hzero =>
    obtain ⟨hlt, rfl⟩ := List.getElem?_eq_some_iff.mp h
    have hpos : b.toNat ≠ 0 := fun hb => hzero (UInt8.toNat_inj.mp hb)
    rw [byte, List.Nodup.idxOf_getElem (by decide) _ hlt, Nat.sub_add_cancel (by omega)]
    simp

/-- As many bytes as an operation asks for make up an instruction of it. -/
theorem Instruction.exists_ofOperands? {operands : List UInt8}
    (h : op.operandSize ≤ operands.length) :
    ∃ i, ofOperands? op operands = some i ∧ i.opcode = op := by
  cases op with
  | parameter =>
    rcases operands with _ | ⟨low, _ | ⟨high, rest⟩⟩
    · cases h
    · exact absurd h (by simp [Opcode.operandSize])
    · exact ⟨_, rfl, rfl⟩
  | swizzle =>
    rcases operands with _ | ⟨b, _ | ⟨b, _ | ⟨b, _ | ⟨b, _ | ⟨b, rest⟩⟩⟩⟩⟩
    case cons.cons.cons.cons.cons => exact ⟨_, rfl, rfl⟩
    all_goals exact absurd h (by simp [Opcode.operandSize])
  | _ => exact ⟨_, rfl, rfl⟩

namespace Program

variable {p : Program} {params stack : List Value} {offset : Nat} {item : Item} {e : EvalError}

/-! ### Places of items -/

/-- What an item says about the bytes it was read from. -/
def Reads (first : UInt8) (rest : List UInt8) : Item → Prop
  | .instruction i => first = i.opcode.byte
  | .unknown byte => first = byte ∧ Opcode.ofByte? byte = none
  | .truncated op => first = op.byte ∧ rest.length < op.operandSize

/-- An item is read from the first bytes, and of the others some are left. -/
theorem nextItem_reads (first : UInt8) (rest : List UInt8) :
    Reads first rest (nextItem first rest).1 ∧ (nextItem first rest).2 <:+ rest := by
  unfold nextItem
  split
  case h_1 hnone => exact ⟨⟨rfl, hnone⟩, List.suffix_rfl⟩
  case h_2 op hop =>
    have hbyte := Opcode.eq_byte_of_ofByte? hop
    split
    case isTrue hlt => exact ⟨⟨hbyte, hlt⟩, List.nil_suffix⟩
    case isFalse hge =>
      have hlength : op.operandSize ≤ (rest.take op.operandSize).length := by
        rw [List.length_take]
        omega
      obtain ⟨i, hi, rfl⟩ := Instruction.exists_ofOperands? hlength
      rw [hi]
      exact ⟨hbyte, List.drop_suffix _ _⟩

/-- Every item is read from the bytes at its offset. -/
theorem reads_of_mem_itemsFrom {fuel base : Nat}
    (h : (offset, item) ∈ itemsFrom fuel base (p.drop base)) :
    ∃ first rest, p.drop offset = first :: rest ∧ Reads first rest item := by
  induction fuel generalizing base with
  | zero => cases h
  | succ fuel ih =>
    cases hp : p.drop base with
    | nil =>
      rw [hp] at h
      cases h
    | cons first rest =>
      have hnext := nextItem_reads first rest
      rw [hp, itemsFrom] at h
      generalize nextItem first rest = next at h hnext
      obtain ⟨head, after⟩ := next
      rcases List.mem_cons.mp h with heq | h
      · obtain ⟨rfl, rfl⟩ := Prod.mk.inj heq
        exact ⟨first, rest, hp, hnext.1⟩
      · have hafter : after = p.drop (base + (1 + (rest.length - after.length))) := by
          rw [← List.drop_drop, hp, Nat.add_comm 1, List.drop_succ_cons]
          exact List.suffix_iff_eq_drop.mp hnext.2
        generalize base + (1 + (rest.length - after.length)) = next at h hafter
        exact ih (hafter ▸ h)

/-! ### Failing steps -/

/-- The machine comes to an item with a stack. -/
def Arrives (p : Program) (params : List Value) (offset : Nat) (item : Item)
    (stack : List Value) : Prop :=
  ∃ before after, p.items = before ++ (offset, item) :: after ∧
    before.foldlM (step params) [] = .ok stack

/-- The machine comes to an instruction that appends to more components than a value has. -/
def Overruns (p : Program) (params : List Value) (count : Nat) : Prop :=
  4 < count ∧ ∃ offset b a stack,
    p.Arrives params offset (.instruction (.binary (.append count))) (b :: a :: stack)

/-- Whether what is reported about a program is the case. -/
def Warrants (p : Program) (params : List Value) : EvalError → Prop
  | .unknownOperation byte offset => p[offset]? = some byte ∧ Opcode.ofByte? byte = none
  | .truncated op offset => p[offset]? = some op.byte ∧ p.length < offset + 1 + op.operandSize
  | .underflow op offset => p[offset]? = some op.byte ∧
    ∃ item stack, p.Arrives params offset item stack ∧ stack.length < op.arity
  | .noParameter index count => count = params.length ∧ count ≤ index ∧
    ∃ offset stack, p.Arrives params offset (.instruction (.parameter index.toUInt16)) stack
  | .noResult => p.items.foldlM (step params) [] = .ok []
  | _ => False

/-- An instruction fails over a parameter that is not there, over a stack that does not hold its
operands, and where it appends to too many components. -/
theorem execute_error {i : Instruction} (h : execute offset i params stack = .error e) :
    (∃ index, i = .parameter index ∧ params.length ≤ index.toNat ∧
        e = .noParameter index.toNat params.length) ∨
      (stack.length < i.opcode.arity ∧ e = .underflow i.opcode offset) ∨
      ∃ count b a rest, i = .binary (.append count) ∧ stack = b :: a :: rest ∧ 4 < count ∧
        e = .components count := by
  -- Each case runs over the stacks that are too short before the one that holds the operands.
  cases i with
  | constant v => cases h
  | parameter index =>
    unfold execute at h
    dsimp only at h
    split at h
    · cases h
    case h_2 hnone =>
      exact .inl ⟨index, rfl, List.getElem?_eq_none_iff.mp hnone, (Except.error.inj h).symm⟩
  | swizzle pattern =>
    rcases stack with _ | ⟨a, rest⟩
    · exact .inr (.inl ⟨Nat.one_pos, (Except.error.inj h).symm⟩)
    · cases h
  | unary op =>
    rcases stack with _ | ⟨a, rest⟩
    · exact .inr (.inl ⟨by cases op <;> exact Nat.one_pos, (Except.error.inj h).symm⟩)
    · cases h
  | clamp =>
    rcases stack with _ | ⟨hi, _ | ⟨lo, _ | ⟨a, rest⟩⟩⟩
    case cons.cons.cons => cases h
    all_goals exact .inr (.inl ⟨by simp [Instruction.opcode, Opcode.arity],
      (Except.error.inj h).symm⟩)
  | binary op =>
    rcases stack with _ | ⟨b, _ | ⟨a, rest⟩⟩
    · exact .inr (.inl ⟨by cases op <;> exact Nat.two_pos, (Except.error.inj h).symm⟩)
    · exact .inr (.inl ⟨by cases op <;> exact Nat.one_lt_two, (Except.error.inj h).symm⟩)
    · unfold execute at h
      dsimp only at h
      split at h
      · cases h
      case isFalse hundefined =>
        cases op with
        | append count =>
          simp only [BinaryOp.isDefined, decide_eq_true_eq] at hundefined
          exact .inr (.inr ⟨count, b, a, rest, rfl, rfl, by omega, (Except.error.inj h).symm⟩)
        | _ => exact absurd rfl hundefined

/-- A step that fails ends the run, and a run that fails ends at such a step. -/
theorem foldlM_eq_error {σ α ε : Type} {f : σ → α → Except ε σ} {l : List α} {s : σ} {e : ε} :
    l.foldlM f s = .error e ↔ ∃ before x after t,
      l = before ++ x :: after ∧ before.foldlM f s = .ok t ∧ f t x = .error e := by
  constructor
  · intro h
    induction l generalizing s with
    | nil => cases h
    | cons x rest ih =>
      rw [List.foldlM_cons] at h
      cases hx : f s x with
      | error e' =>
        rw [hx] at h
        exact ⟨[], x, rest, s, rfl, rfl, hx.trans h⟩
      | ok t =>
        rw [hx] at h
        obtain ⟨before, y, after, t', rfl, hbefore, hy⟩ := ih h
        refine ⟨x :: before, y, after, t', rfl, ?_, hy⟩
        rw [List.foldlM_cons, hx]
        exact hbefore
  · rintro ⟨before, x, after, t, rfl, hbefore, hx⟩
    rw [List.foldlM_append, hbefore]
    show List.foldlM f t (x :: after) = _
    rw [List.foldlM_cons, hx]
    rfl

section

variable (harrives : p.Arrives params offset item stack)
  (h : step params stack (offset, item) = .error e)

include harrives h

/-- A step that fails is reported truly, or it appends to too many components. -/
theorem step_error :
    p.Warrants params e ∨ ∃ count, e = .components count ∧ p.Overruns params count := by
  obtain ⟨before, after, hitems, -⟩ := id harrives
  have hmem : (offset, item) ∈ itemsFrom p.length 0 (p.drop 0) := by
    show _ ∈ p.items
    simp [hitems]
  obtain ⟨first, rest, hp, hreads⟩ := reads_of_mem_itemsFrom hmem
  have hfirst : p[offset]? = some first := by
    rw [← List.head?_drop, hp]
    rfl
  have hlength : p.length = offset + (rest.length + 1) := by
    have := congrArg List.length hp
    simp at this
    omega
  cases item with
  | unknown byte =>
    obtain rfl := Except.error.inj h
    exact .inl ⟨hreads.1 ▸ hfirst, hreads.2⟩
  | truncated op =>
    obtain rfl := Except.error.inj h
    obtain ⟨rfl, hlt⟩ := hreads
    exact .inl ⟨hfirst, by omega⟩
  | instruction i =>
    rcases execute_error h with
      ⟨index, rfl, hle, rfl⟩ | ⟨hlt, rfl⟩ | ⟨count, b, a, rest, rfl, rfl, hlt, rfl⟩
    · exact .inl ⟨rfl, hle, offset, stack, by simpa using harrives⟩
    · obtain rfl : first = i.opcode.byte := hreads
      exact .inl ⟨hfirst, _, stack, harrives, hlt⟩
    · exact .inr ⟨count, rfl, hlt, offset, b, a, rest, harrives⟩

theorem run_eq_error_of_step : p.run params = .error e := by
  obtain ⟨before, after, hitems, hbefore⟩ := harrives
  have hfold : p.items.foldlM (step params) [] = .error e :=
    foldlM_eq_error.mpr ⟨before, _, after, stack, hitems, hbefore, h⟩
  rw [run, hfold]
  rfl

end

/-- **The machine takes any bytes.** A program of any bytes, with any parameters, has a value or an
error that is the case, unless the machine comes to an instruction that appends to more components
than a value has. At that instruction, and at no other, it breaks off without a report. -/
theorem run_verdict (p : Program) (params : List Value) :
    ((∃ count, p.Overruns params count) ∨ (∃ v, p.run params = .ok v) ∨
        ∃ e, p.run params = .error e ∧ p.Warrants params e) ∧
      ∀ count, p.run params = .error (.components count) ↔ p.Overruns params count := by
  have hover : ∀ {count}, p.Overruns params count → p.run params = .error (.components count) := by
    rintro count ⟨hlt, offset, b, a, stack, harrives⟩
    refine run_eq_error_of_step harrives ?_
    exact if_neg (by simpa [BinaryOp.isDefined] using hlt)
  have herror : ∀ {e}, p.run params = .error e →
      p.Warrants params e ∨ ∃ count, e = .components count ∧ p.Overruns params count := by
    intro e h
    cases hfold : p.items.foldlM (step params) [] with
    | error e' =>
      rw [run, hfold] at h
      obtain rfl := Except.error.inj h
      obtain ⟨before, ⟨offset, item⟩, after, stack, hitems, hbefore, hstep⟩ :=
        foldlM_eq_error.mp hfold
      exact step_error ⟨before, after, hitems, hbefore⟩ hstep
    | ok stack =>
      rw [run, hfold] at h
      cases stack with
      | nil =>
        obtain rfl := Except.error.inj h
        exact .inl hfold
      | cons v rest => cases h
  refine ⟨?_, fun count => ⟨fun h => ?_, hover⟩⟩
  · cases h : p.run params with
    | ok v => exact .inr (.inl ⟨v, rfl⟩)
    | error e =>
      rcases herror h with hwarrants | ⟨count, -, hoverruns⟩
      · exact .inr (.inr ⟨e, rfl, hwarrants⟩)
      · exact .inl ⟨count, hoverruns⟩
  · rcases herror h with hwarrants | ⟨count', heq, hoverruns⟩
    · cases hwarrants
    · obtain rfl := EvalError.components.inj heq
      exact hoverruns

/-- An instruction that appends to five components of a parameter. -/
theorem run_appendFive :
    Program.run [0x02, 0, 0, 0x02, 0, 0, 0x1e, 5] [.replicate .one] = .error (.components 5) ∧
      (EvalError.components 5).isFault := ⟨rfl, rfl⟩

end Program

end ShaderGraph
