import Mathlib.Tactic.Tauto
import ShaderGraph.Proofs.Encoding
import ShaderGraph.Uniform.Program

/-!
# Programs compute what expressions mean

The program of an expression, run on the values of a parameter table, gives the value of the
expression. The table is the one that compilation left, or any that later compilations made of it:
entries are only added at the end, so an index keeps its meaning.

A table keeps one default for each name and width, the one that was compiled first. What a program
computes is therefore the value of the expression with the defaults of the table
(`Uniform.evaluateWith`), and that is the value of the expression itself where its parameters agree
with the table or are overridden (`Uniform.run_program`).
-/

namespace ShaderGraph

/-! ### Parameters of an expression -/

namespace Uniform

/-- The parameters that an expression reads, from left to right, each with its own default. -/
def parameters : Uniform → List ParameterInfo
  | constant _ _ | texture _ => []
  | scalarParameter name default => [⟨name, false, Value.replicate default⟩]
  | vectorParameter name default => [⟨name, true, default⟩]
  | unary _ _ a => a.parameters
  | binary _ _ a b => a.parameters ++ b.parameters
  | clamp _ a lo hi => a.parameters ++ (lo.parameters ++ hi.parameters)
  | swizzle _ a => a.parameters

/-- Whether no operation states more components than a value has. -/
def isWellCounted : Uniform → Bool
  | unary op _ a => op.count ≤ 4 && a.isWellCounted
  | binary op _ a b => op.count ≤ 4 && a.isWellCounted && b.isWellCounted
  | clamp _ a lo hi => a.isWellCounted && lo.isWellCounted && hi.isWellCounted
  | swizzle pattern a => pattern.count ≤ 4 && a.isWellCounted
  | _ => true

/-- The value of an expression whose parameters have the values that `value` gives them. -/
def evaluateWith (value : ParameterInfo → Value) : Uniform → Value
  | constant v _ => v
  | scalarParameter name default => value ⟨name, false, Value.replicate default⟩
  | vectorParameter name default => value ⟨name, true, default⟩
  | texture _ => Value.zero
  | unary op _ a => op.apply (a.evaluateWith value)
  | binary op _ a b => op.apply (a.evaluateWith value) (b.evaluateWith value)
  | clamp _ a lo hi =>
    (a.evaluateWith value).clamp (lo.evaluateWith value) (hi.evaluateWith value)
  | swizzle pattern a => (a.evaluateWith value).swizzle pattern

/-- The value of an expression is the one under overrides and its own defaults. -/
theorem evaluate_eq_evaluateWith (overrides : Overrides) (u : Uniform) :
    u.evaluate overrides = u.evaluateWith fun p => (overrides.lookup p.name).getD p.default := by
  induction u with
  | constant | scalarParameter | vectorParameter | texture => rfl
  | unary op type a ha => simp only [evaluate, evaluateWith, ha]
  | binary op type a b ha hb => simp only [evaluate, evaluateWith, ha, hb]
  | clamp type a lo hi ha hlo hhi => simp only [evaluate, evaluateWith, ha, hlo, hhi]
  | swizzle pattern a ha => simp only [evaluate, evaluateWith, ha]

/-- The value of an expression depends on the values of its own parameters only. -/
theorem evaluateWith_congr {f g : ParameterInfo → Value} {u : Uniform}
    (h : ∀ p ∈ u.parameters, f p = g p) : u.evaluateWith f = u.evaluateWith g := by
  induction u with
  | constant | texture => rfl
  | scalarParameter name default => exact h _ (by simp [parameters])
  | vectorParameter name default => exact h _ (by simp [parameters])
  | unary op type a ha => simp only [evaluateWith, ha h]
  | binary op type a b ha hb =>
    simp only [parameters, List.mem_append] at h
    simp only [evaluateWith, ha fun p hp => h p (.inl hp), hb fun p hp => h p (.inr hp)]
  | clamp type a lo hi ha hlo hhi =>
    simp only [parameters, List.mem_append] at h
    simp only [evaluateWith, ha fun p hp => h p (.inl hp), hlo fun p hp => h p (.inr (.inl hp)),
      hhi fun p hp => h p (.inr (.inr hp))]
  | swizzle pattern a ha => simp only [evaluateWith, ha h]

end Uniform

/-! ### Tables -/

namespace ParameterTable

variable {table final : ParameterTable} {i : Nat} {p : ParameterInfo} {ps : List ParameterInfo}

/-- Whether an entry is the one for a name and a width. -/
def isFor (name : String) (vector : Bool) (p : ParameterInfo) : Bool :=
  p.name == name && p.vector == vector

/-- The entry for a name and a width. -/
def info? (table : ParameterTable) (name : String) (vector : Bool) : Option ParameterInfo :=
  table.find? (isFor name vector)

/-- The table after the parameters of a list were compiled. -/
def internAll (table : ParameterTable) (ps : List ParameterInfo) : ParameterTable :=
  ps.foldl (fun t p => (t.intern p.name p.vector p.default).2) table

/-- The value that a table has for a parameter: its override, else the default of its entry, and
its own default where the table does not list it. -/
def value (table : ParameterTable) (overrides : Overrides) (p : ParameterInfo) : Value :=
  (overrides.lookup p.name).getD (((table.info? p.name p.vector).map (·.default)).getD p.default)

/-- The index of a parameter. -/
def index (table : ParameterTable) (p : ParameterInfo) : Nat :=
  table.findIdx (isFor p.name p.vector)

/-- The value that a parameter has where the entries of the table have the values `params`. -/
def read (table : ParameterTable) (params : List Value) (p : ParameterInfo) : Value :=
  (params[table.findIdx (isFor p.name p.vector)]?).getD p.default

theorem internAll_append (table : ParameterTable) (ps qs : List ParameterInfo) :
    table.internAll (ps ++ qs) = (table.internAll ps).internAll qs := List.foldl_append

/-- A parameter that is compiled has the index of its entry. -/
theorem findIdx?_intern (table : ParameterTable) (name : String) (vector : Bool)
    (default : Value) :
    (table.intern name vector default).2.findIdx? (isFor name vector) =
      some (table.intern name vector default).1 := by
  unfold intern
  split
  case h_1 i hi => exact hi
  case h_2 hnone =>
    have hlast : List.findIdx? (isFor name vector) [⟨name, vector, default⟩] = some 0 := by
      simp [List.findIdx?_cons, isFor]
    show List.findIdx? (isFor name vector) (table ++ [⟨name, vector, default⟩]) = _
    rw [List.findIdx?_append, show List.findIdx? (isFor name vector) table = none from hnone,
      hlast]
    simp

theorem prefix_intern (table : ParameterTable) (name : String) (vector : Bool)
    (default : Value) : table <+: (table.intern name vector default).2 := by
  unfold intern
  split
  · exact List.prefix_rfl
  · exact List.prefix_append _ _

/-- Compilation only adds entries at the end. -/
theorem prefix_internAll (table : ParameterTable) (ps : List ParameterInfo) :
    table <+: table.internAll ps := by
  induction ps generalizing table with
  | nil => exact List.prefix_rfl
  | cons p rest ih => exact (table.prefix_intern p.name p.vector p.default).trans (ih _)

/-- The index of an entry stays when entries are added. -/
theorem findIdx?_of_prefix (h : table <+: final) {q : ParameterInfo → Bool}
    (hi : table.findIdx? q = some i) : final.findIdx? q = some i := by
  obtain ⟨more, rfl⟩ := h
  rw [List.findIdx?_append, hi]
  rfl

/-- The index that a parameter is compiled to is the one that it has in the end. -/
theorem intern_fst (h : table.internAll [p] <+: final) :
    (table.intern p.name p.vector p.default).1 = final.index p := by
  have hfound := findIdx?_of_prefix h (table.findIdx?_intern p.name p.vector p.default)
  exact (List.findIdx?_eq_some_iff_findIdx_eq.mp hfound).2.symm

/-- A parameter that was compiled has an index. -/
theorem exists_findIdx?_internAll (table : ParameterTable) (hp : p ∈ ps) :
    ∃ i, (table.internAll ps).findIdx? (isFor p.name p.vector) = some i := by
  induction ps generalizing table with
  | nil => simp at hp
  | cons q rest ih =>
    rcases List.mem_cons.mp hp with rfl | hp
    · exact ⟨_, findIdx?_of_prefix (prefix_internAll _ rest)
        (table.findIdx?_intern p.name p.vector p.default)⟩
    · exact ih _ hp

/-- A table that has entries for all parameters stays as it is. -/
theorem internAll_of_prefix (h : table.internAll ps <+: final) : final.internAll ps = final := by
  induction ps generalizing table with
  | nil => rfl
  | cons p rest ih =>
    have hfound := findIdx?_of_prefix ((prefix_internAll _ rest).trans h)
      (table.findIdx?_intern p.name p.vector p.default)
    have hintern : (final.intern p.name p.vector p.default).2 = final := by
      unfold isFor at hfound
      rw [intern, hfound]
    show (final.intern p.name p.vector p.default).2.internAll rest = final
    rw [hintern, ih h]

/-- The value at the index of a parameter is the one that is read for it. -/
theorem getElem?_read (hi : table.findIdx? (isFor p.name p.vector) = some i) {params : List Value}
    (hparams : params.length = table.length) : params[i]? = some (table.read params p) := by
  obtain ⟨hlt, hidx⟩ := List.findIdx?_eq_some_iff_findIdx_eq.mp hi
  rw [read, hidx, List.getElem?_eq_getElem (hparams ▸ hlt)]
  rfl

/-- The value at the index of a parameter is the one that the table has for it. -/
theorem getElem?_values (hi : table.findIdx? (isFor p.name p.vector) = some i)
    (overrides : Overrides) : (table.values overrides)[i]? = some (table.value overrides p) := by
  obtain ⟨hlt, hfor, -⟩ := List.findIdx?_eq_some_iff_getElem.mp hi
  have hinfo : table.info? p.name p.vector = some table[i] := by
    unfold info?
    rw [List.find?_eq_getElem?_findIdx, ← List.getElem?_eq_getElem hlt]
    congr 1
    exact (List.findIdx?_eq_some_iff_findIdx_eq.mp hi).2
  have hname : table[i].name = p.name := by
    simp only [isFor, Bool.and_eq_true, beq_iff_eq] at hfor
    exact hfor.1
  simp [values, value, hinfo, hname, hlt]

@[simp] theorem length_values (table : ParameterTable) (overrides : Overrides) :
    (table.values overrides).length = table.length := by simp [values]

/-- What is read for a parameter among the values of its table. -/
theorem read_values (hi : table.findIdx? (isFor p.name p.vector) = some i) (overrides : Overrides) :
    table.read (table.values overrides) p = table.value overrides p :=
  Option.some.inj
    ((getElem?_read hi (length_values _ _)).symm.trans (getElem?_values hi overrides))

end ParameterTable

/-! ### Compilation -/

/-- If a computation does not fail, its first part does not. -/
theorem exists_of_bind_ok {ε α β : Type} {x : Except ε α} {f : α → Except ε β} {b : β}
    (h : x >>= f = .ok b) : ∃ a, x = .ok a ∧ f a = .ok b := by
  cases x with
  | error e => exact absurd h (by simp [bind, Except.bind])
  | ok a => exact ⟨a, rfl, h⟩

theorem bind_eq_ok_iff {ε α β : Type} {x : Except ε α} {f : α → Except ε β} {b : β} :
    x >>= f = .ok b ↔ ∃ a, x = .ok a ∧ f a = .ok b :=
  ⟨exists_of_bind_ok, fun ⟨_, hx, hf⟩ => hx ▸ hf⟩

theorem Program.readParameter_eq_ok_iff {index : Nat} {p : Program} :
    readParameter index = .ok p ↔
      index < 0x10000 ∧ p = ofInstructions [.parameter index.toUInt16] := by
  unfold readParameter
  split <;> simp [*, ofInstructions, eq_comm]

namespace Uniform

variable {u : Uniform} {table final : ParameterTable}

/-- The instructions of an expression, given the indices of its parameters. -/
def instructions (index : ParameterInfo → Nat) : Uniform → List Instruction
  | constant v _ => [.constant v]
  | scalarParameter name default =>
    [.parameter (index ⟨name, false, Value.replicate default⟩).toUInt16]
  | vectorParameter name default => [.parameter (index ⟨name, true, default⟩).toUInt16]
  | texture _ => []
  | unary op _ a => a.instructions index ++ [.unary op]
  | binary op _ a b => a.instructions index ++ b.instructions index ++ [.binary op]
  | clamp _ a lo hi =>
    a.instructions index ++ lo.instructions index ++ hi.instructions index ++ [.clamp]
  | swizzle pattern a => a.instructions index ++ [.swizzle pattern]

/-- An expression compiles if it has no textures and there are indices for its parameters, and then
to its instructions. The indices are those of any table that compilation goes on to. -/
theorem program_eq_ok_iff {after : ParameterTable} {p : Program}
    (hgrown : table.internAll u.parameters <+: final) :
    u.program table = .ok (p, after) ↔ u.isTextureFree ∧
      (∀ q ∈ u.parameters, final.index q < 0x10000) ∧
      p = .ofInstructions (u.instructions final.index) ∧ after = table.internAll u.parameters := by
  have hsplit : ∀ {t : ParameterTable} {ps qs : List ParameterInfo},
      t.internAll (ps ++ qs) <+: final →
        t.internAll ps <+: final ∧ (t.internAll ps).internAll qs <+: final := by
    intro t ps qs h
    rw [ParameterTable.internAll_append] at h
    exact ⟨(ParameterTable.prefix_internAll _ _).trans h, h⟩
  have hok : ∀ {p q : Program} {s t : ParameterTable},
      (Pure.pure (p, s) : Except Fault _) = .ok (q, t) ↔ q = p ∧ t = s := by
    simp [pure, Except.pure, eq_comm]
  induction u generalizing table after p with
  | constant v type =>
    simp [program, isTextureFree, parameters, instructions, ParameterTable.internAll,
      Program.ofInstructions, eq_comm]
  | texture ref => simp [program, isTextureFree]
  | scalarParameter name default | vectorParameter name default =>
    simp only [program, bind_eq_ok_iff, Program.readParameter_eq_ok_iff, hok,
      ParameterTable.intern_fst (p := ⟨_, _, _⟩) hgrown, and_assoc]
    simp [isTextureFree, parameters, instructions, ParameterTable.internAll]
  | unary _ _ a iha | swizzle _ a iha =>
    simp only [program, bind_eq_ok_iff, Prod.exists, iha hgrown, hok]
    simp [isTextureFree, parameters, instructions, Program.ofInstructions, and_assoc]
  | binary op type a b iha ihb =>
    obtain ⟨ha, hb⟩ := hsplit hgrown
    simp only [program, bind_eq_ok_iff, Prod.exists, iha ha, hok]
    simp [isTextureFree, parameters, instructions, Program.ofInstructions, and_assoc, ihb hb,
      ParameterTable.internAll_append, forall_and, or_imp]
    tauto
  | clamp type a lo hi iha ihlo ihhi =>
    obtain ⟨ha, hrest⟩ := hsplit hgrown
    obtain ⟨hlo, hhi⟩ := hsplit hrest
    simp only [program, bind_eq_ok_iff, Prod.exists, iha ha, hok]
    simp [isTextureFree, parameters, instructions, Program.ofInstructions, and_assoc, ihlo hlo,
      ihhi hhi, ParameterTable.internAll_append, forall_and, or_imp]
    tauto

/-- The instructions of an expression leave its value on the stack, if its parameters have indices
in the list of their values. -/
theorem executes_instructions (hfree : u.isTextureFree) (hcounts : u.isWellCounted)
    {index : ParameterInfo → Nat} {value : ParameterInfo → Value} {params : List Value}
    (hread : ∀ p ∈ u.parameters, params[(index p).toUInt16.toNat]? = some (value p)) :
    (∀ i ∈ u.instructions index, i.Fits) ∧ ∀ stack : List Value,
      Program.Executes params (u.instructions index) stack (u.evaluateWith value :: stack) := by
  have hread' : ∀ {p}, params[(index p).toUInt16.toNat]? = some (value p) → ∀ stack,
      Program.Executes params [.parameter (index p).toUInt16] stack (value p :: stack) := by
    refine fun h stack => .single fun offset => ?_
    unfold Program.execute
    simp only [h]
  induction u with
  | constant v type =>
    exact ⟨by simp [instructions, Instruction.Fits], fun _ => .single fun _ => rfl⟩
  | scalarParameter name default | vectorParameter name default =>
    exact ⟨by simp [instructions, Instruction.Fits], hread' (hread _ (by simp [parameters]))⟩
  | texture ref => simp [isTextureFree] at hfree
  | unary op _ a iha | swizzle op a iha =>
    simp only [isWellCounted, Bool.and_eq_true, decide_eq_true_eq] at hcounts
    obtain ⟨hfits, hexec⟩ := iha hfree hcounts.2 hread
    have hop : op.count < 256 := by omega
    refine ⟨?_, fun stack => (hexec stack).append (.single fun _ => rfl)⟩
    simpa only [instructions, List.forall_mem_append, List.forall_mem_singleton] using ⟨hfits, hop⟩
  | binary op type a b iha ihb =>
    simp only [isTextureFree, Bool.and_eq_true] at hfree
    simp only [isWellCounted, Bool.and_eq_true, decide_eq_true_eq] at hcounts
    simp only [parameters, List.forall_mem_append] at hread
    obtain ⟨hfits, hexec⟩ := iha hfree.1 hcounts.1.2 hread.1
    obtain ⟨hfits', hexec'⟩ := ihb hfree.2 hcounts.2 hread.2
    have hop : op.count < 256 := by omega
    have hdefined : op.isDefined := by
      cases op with
      | append count => simpa [BinaryOp.isDefined, BinaryOp.count] using hcounts.1.1
      | _ => rfl
    refine ⟨?_, fun stack =>
      ((hexec stack).append (hexec' _)).append (.single fun _ => if_pos hdefined)⟩
    simpa only [instructions, List.forall_mem_append, List.forall_mem_singleton] using
      ⟨⟨hfits, hfits'⟩, hop⟩
  | clamp type a lo hi iha ihlo ihhi =>
    simp only [isTextureFree, Bool.and_eq_true] at hfree
    simp only [isWellCounted, Bool.and_eq_true] at hcounts
    simp only [parameters, List.forall_mem_append] at hread
    obtain ⟨hfits, hexec⟩ := iha hfree.1.1 hcounts.1.1 hread.1
    obtain ⟨hfits', hexec'⟩ := ihlo hfree.1.2 hcounts.1.2 hread.2.1
    obtain ⟨hfits'', hexec''⟩ := ihhi hfree.2 hcounts.2 hread.2.2
    refine ⟨?_, fun stack => (((hexec stack).append (hexec' _)).append (hexec'' _)).append
      (.single fun _ => rfl)⟩
    simpa only [instructions, List.forall_mem_append, List.forall_mem_singleton] using
      ⟨⟨⟨hfits, hfits'⟩, hfits''⟩, trivial⟩

/-- The program of an expression computes its value from any values for the entries of the
table. -/
theorem run_program_read (hfree : u.isTextureFree) (hcounts : u.isWellCounted)
    (hgrown : table.internAll u.parameters <+: final) (hsize : final.length ≤ 0x10000) :
    ∃ p, u.program table = .ok (p, table.internAll u.parameters) ∧
      ∀ params : List Value, params.length = final.length →
        p.run params = .ok (u.evaluateWith (final.read params)) := by
  have hindex : ∀ q ∈ u.parameters, ∃ i < final.length,
      final.findIdx? (ParameterTable.isFor q.name q.vector) = some i ∧ final.index q = i := by
    intro q hq
    obtain ⟨i, hi⟩ := table.exists_findIdx?_internAll hq
    have hfinal := ParameterTable.findIdx?_of_prefix hgrown hi
    obtain ⟨hlt, heq⟩ := List.findIdx?_eq_some_iff_findIdx_eq.mp hfinal
    exact ⟨i, hlt, hfinal, heq⟩
  have hsmall : ∀ q ∈ u.parameters, final.index q < 0x10000 := by
    intro q hq
    obtain ⟨i, hlt, -, rfl⟩ := hindex q hq
    omega
  refine ⟨_, (program_eq_ok_iff hgrown).2 ⟨hfree, hsmall, rfl, rfl⟩, fun params hparams => ?_⟩
  have hread : ∀ q ∈ u.parameters,
      params[(final.index q).toUInt16.toNat]? = some (final.read params q) := by
    intro q hq
    obtain ⟨i, hlt, hi, hq⟩ := hindex q hq
    have hword : i.toUInt16.toNat = i := by
      exact Nat.mod_eq_of_lt (by omega)
    rw [hq, hword]
    exact ParameterTable.getElem?_read hi hparams
  obtain ⟨hfits, hexec⟩ := executes_instructions hfree hcounts hread
  exact Program.run_of_executes hfits (hexec [])

/-- What is read among the values of a table is the value that the table has. -/
theorem evaluateWith_read_values (hgrown : table.internAll u.parameters <+: final)
    (overrides : Overrides) :
    u.evaluateWith (final.read (final.values overrides)) =
      u.evaluateWith (final.value overrides) := by
  refine evaluateWith_congr fun q hq => ?_
  obtain ⟨i, hi⟩ := table.exists_findIdx?_internAll hq
  exact ParameterTable.read_values (ParameterTable.findIdx?_of_prefix hgrown hi) overrides

/-- The program of an expression computes its value with the defaults of the table. -/
theorem run_program_table (hfree : u.isTextureFree) (hcounts : u.isWellCounted)
    (hgrown : table.internAll u.parameters <+: final) (hsize : final.length ≤ 0x10000) :
    ∃ p, u.program table = .ok (p, table.internAll u.parameters) ∧
      ∀ overrides,
        p.run (final.values overrides) = .ok (u.evaluateWith (final.value overrides)) := by
  obtain ⟨p, hp, hrun⟩ := run_program_read hfree hcounts hgrown hsize
  refine ⟨p, hp, fun overrides => ?_⟩
  rw [hrun _ (ParameterTable.length_values _ _), evaluateWith_read_values hgrown]

/-- **Preshaders are compiled correctly.** The program of an expression, compiled onto any table
and run on the values of any table grown from it, gives the value of the expression, if each of its
parameters is overridden or has the default that the table lists for it. -/
theorem run_program {u : Uniform} (hfree : u.isTextureFree) (hcounts : u.isWellCounted)
    {table final : ParameterTable} (hgrown : table.internAll u.parameters <+: final)
    (hsize : final.length ≤ 0x10000) (overrides : Overrides)
    (hdefaults : ∀ p ∈ u.parameters, (overrides.lookup p.name).isSome ∨
      (final.info? p.name p.vector).map (·.default) = some p.default) :
    ∃ p, u.program table = .ok (p, table.internAll u.parameters) ∧
      p.run (final.values overrides) = .ok (u.evaluate overrides) := by
  obtain ⟨p, hp, hrun⟩ := run_program_table hfree hcounts hgrown hsize
  refine ⟨p, hp, ?_⟩
  rw [hrun overrides, evaluate_eq_evaluateWith, evaluateWith_congr]
  intro q hq
  rcases hdefaults q hq with hover | hinfo
  · obtain ⟨v, hv⟩ := Option.isSome_iff_exists.mp hover
    simp [ParameterTable.value, hv]
  · simp [ParameterTable.value, hinfo]

/-- An expression with a parameter of each kind, compiled onto a table that knows one of them by
another default, which is overridden. -/
theorem run_program_overridden :
    let u : Uniform := clamp .float4
      (binary .mul .float4 (vectorParameter "Tint" (Value.replicate .half))
        (swizzle ⟨4, 0, 0, 1, 1⟩ (scalarParameter "Gain" .two)))
      (constant Value.zero .float1) (scalarParameter "Limit" .one)
    let table : ParameterTable := [⟨"Gain", false, Value.replicate .one⟩]
    let final := table.internAll u.parameters ++ [⟨"Later", true, Value.zero⟩]
    let overrides : Overrides := [("Gain", Value.replicate .half)]
    u.isTextureFree ∧ u.isWellCounted ∧ final.length ≤ 0x10000 ∧
      (∀ p ∈ u.parameters, (overrides.lookup p.name).isSome ∨
        (final.info? p.name p.vector).map (·.default) = some p.default) ∧
      ∃ p, u.program table = .ok (p, table.internAll u.parameters) ∧
        p.run (final.values overrides) = .ok (u.evaluate overrides) := by
  intro u table final overrides
  have hdefaults : ∀ p ∈ u.parameters, (overrides.lookup p.name).isSome ∨
      (final.info? p.name p.vector).map (·.default) = some p.default := by decide
  exact ⟨rfl, rfl, by decide, hdefaults, run_program rfl rfl (List.prefix_append _ _) (by decide)
    overrides hdefaults⟩

end Uniform

end ShaderGraph
