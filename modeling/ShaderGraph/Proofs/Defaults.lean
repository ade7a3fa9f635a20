import ShaderGraph.Proofs.Phases

/-!
# Slots evaluated with their defaults

The programs of the slots, run on the defaults of their parameters, give each slot the value of its
expression, where every parameter has the default that came first for its name and width. That is
the value of the expression with its own defaults wherever no two parameters of one name and width
have different defaults (`Pass.run_defaults`). Where two have, the one that came second is lost.
-/

namespace ShaderGraph

/-! ### Tables of parameters -/

namespace ParameterTable

/-- The entry for a parameter is the one that the table had, else the first one that was added. -/
theorem info?_internAll (table : ParameterTable) (ps : List ParameterInfo) (name : String)
    (vector : Bool) :
    (table.internAll ps).info? name vector =
      (table.info? name vector).or (ps.find? (isFor name vector)) := by
  induction ps generalizing table with
  | nil => simp [internAll]
  | cons p rest ih =>
    have hstep : (table.intern p.name p.vector p.default).2.info? name vector =
        (table.info? name vector).or ([p].find? (isFor name vector)) := by
      unfold intern
      split
      case h_1 i hi =>
        cases hp : isFor name vector p with
        | false => simp [hp]
        | true =>
          -- The table has an entry for the name and the width already.
          simp only [isFor, Bool.and_eq_true, beq_iff_eq] at hp
          obtain ⟨rfl, rfl⟩ := hp
          have hsome : (table.info? p.name p.vector).isSome := by
            rw [info?, List.find?_isSome]
            obtain ⟨hlt, hfor, -⟩ := List.findIdx?_eq_some_iff_getElem.mp hi
            exact ⟨table[i], List.getElem_mem hlt, hfor⟩
          obtain ⟨q, hq⟩ := Option.isSome_iff_exists.mp hsome
          simp [hq]
      case h_2 => exact List.find?_append
    show ((table.intern p.name p.vector p.default).2.internAll rest).info? name vector = _
    rw [ih, hstep, Option.or_assoc, ← List.find?_append]
    rfl

/-- A table that is small enough for its indices stays so. -/
theorem length_internAll {table : ParameterTable} {ps : List ParameterInfo} {n : Nat}
    (hsize : table.length ≤ n) (h : ∀ p ∈ ps, (table.internAll ps).index p < n) :
    (table.internAll ps).length ≤ n := by
  induction ps generalizing table with
  | nil => exact hsize
  | cons p rest ih =>
    have hp : ((table.internAll [p]).internAll rest).index p < n := h p (by simp)
    rw [← intern_fst (prefix_internAll _ rest)] at hp
    refine ih ?_ fun q hq => h q (by simp [hq])
    show (table.intern p.name p.vector p.default).2.length ≤ n
    unfold intern at hp ⊢
    split
    · exact hsize
    case h_2 hnone =>
      simp only [hnone] at hp
      rw [List.length_append]
      exact hp

theorem defaults_eq_values (table : ParameterTable) : table.defaults = table.values [] := by
  simp [defaults, values]

end ParameterTable

/-! ### Programs -/

namespace Uniform

variable {u : Uniform} {table after : ParameterTable} {p : Program}

/-- An expression that compiles has no textures, and its table grows by its parameters as far as
there are indices for them. -/
theorem program_ok (h : u.program table = .ok (p, after)) :
    u.isTextureFree ∧ after = table.internAll u.parameters ∧
      (table.length ≤ 0x10000 → after.length ≤ 0x10000) := by
  obtain ⟨hfree, hsmall, -, rfl⟩ := (program_eq_ok_iff List.prefix_rfl).1 h
  exact ⟨hfree, rfl, fun hsize => ParameterTable.length_internAll hsize hsmall⟩

/-- The program of an expression is the same on every table that compilation goes on to. -/
theorem program_of_prefix {final : ParameterTable} (h : u.program table = .ok (p, after))
    (hgrown : after <+: final) : u.program final = .ok (p, final) := by
  obtain ⟨-, rfl, -⟩ := program_ok h
  obtain ⟨hfree, hsmall, hp, -⟩ := (program_eq_ok_iff hgrown).1 h
  have hstays := ParameterTable.internAll_of_prefix hgrown
  exact (program_eq_ok_iff (by simp only [hstays, List.prefix_rfl])).2
    ⟨hfree, hsmall, hp, hstays.symm⟩

theorem programs_ok {us : List Uniform} {ps : List Program}
    (h : programs us table = .ok (ps, after)) :
    after = table.internAll (us.flatMap parameters) ∧
      (table.length ≤ 0x10000 → after.length ≤ 0x10000) := by
  induction us generalizing table ps with
  | nil =>
    obtain ⟨-, rfl⟩ := Prod.mk.inj (Except.ok.inj h)
    exact ⟨rfl, id⟩
  | cons u rest ih =>
    obtain ⟨⟨p, mid⟩, hp, hrest⟩ := exists_of_bind_ok h
    obtain ⟨⟨qs, last⟩, hqs, hok⟩ := exists_of_bind_ok hrest
    obtain ⟨-, rfl⟩ := Prod.mk.inj (Except.ok.inj hok)
    obtain ⟨-, rfl, hsize⟩ := program_ok hp
    obtain ⟨hlast, hsize'⟩ := ih hqs
    refine ⟨?_, fun h => hsize' (hsize h)⟩
    rw [hlast, List.flatMap_cons, ParameterTable.internAll_append]

end Uniform

/-- The programs are those of the expressions in turn, on a table with all their parameters. -/
def ParameterTable.Programs (table : ParameterTable) (us : List SharedUniform)
    (ps : List Program) : Prop :=
  List.Forall₂ (fun u p => u.expr.program table = .ok (p, table)) us ps

namespace ParameterTable.Programs

variable {us : List SharedUniform} {ps : List Program} {table after final : ParameterTable}

theorem of_ok (h : Uniform.programs (us.map (·.expr)) table = .ok (ps, after))
    (hgrown : after <+: final) : final.Programs us ps := by
  induction us generalizing table ps with
  | nil =>
    obtain ⟨rfl, -⟩ := Prod.mk.inj (Except.ok.inj h)
    exact .nil
  | cons u rest ih =>
    obtain ⟨⟨p, mid⟩, hp, hrest⟩ := exists_of_bind_ok h
    obtain ⟨⟨qs, last⟩, hqs, hok⟩ := exists_of_bind_ok hrest
    obtain ⟨rfl, rfl⟩ := Prod.mk.inj (Except.ok.inj hok)
    have hmid : mid <+: last := by
      rw [(Uniform.programs_ok hqs).1]
      exact ParameterTable.prefix_internAll _ _
    exact .cons (Uniform.program_of_prefix hp (hmid.trans hgrown)) (ih hqs)

theorem textureFree (h : final.Programs us ps) : ∀ u ∈ us, u.expr.isTextureFree := by
  induction h with
  | nil => exact fun u hu => absurd hu List.not_mem_nil
  | cons hp _ ih => exact List.forall_mem_cons.2 ⟨(Uniform.program_ok hp).1, ih⟩

/-- The programs compute the values of the expressions from any values of the parameters. -/
theorem run (h : final.Programs us ps) (hcounts : ∀ u ∈ us, u.expr.isWellCounted)
    (hsize : final.length ≤ 0x10000) {params : List Value}
    (hparams : params.length = final.length) :
    List.Forall₂ (fun p v => p.run params = .ok v) ps
      (us.map fun u => u.expr.evaluateWith (final.read params)) := by
  induction h with
  | nil => exact .nil
  | @cons u _ _ _ hp _ ih =>
    obtain ⟨hfree, hstays, -⟩ := Uniform.program_ok hp
    have hgrown : final.internAll u.expr.parameters <+: final := by
      simp only [← hstays, List.prefix_rfl]
    obtain ⟨p', hp', hrun⟩ := Uniform.run_program_read hfree (hcounts u (by simp)) hgrown hsize
    obtain ⟨rfl, -⟩ := Prod.mk.inj (Except.ok.inj (hp.symm.trans hp'))
    exact .cons (hrun params hparams) (ih fun u hu => hcounts u (by simp [hu]))

end ParameterTable.Programs

/-! ### Slots -/

namespace UniformSet

/-- The parameters that the programs of a set read, in the order in which they are compiled. -/
def readParameters (set : UniformSet) : List ParameterInfo :=
  (set.scalars ++ set.vectors).flatMap (·.expr.parameters)

/-- The default that came first for the name and the width of a parameter. -/
def firstDefault (set : UniformSet) (p : ParameterInfo) : Value :=
  ((set.readParameters.find? (ParameterTable.isFor p.name p.vector)).map (·.default)).getD p.default

/-- Whether no two parameters of one name and width have different defaults. -/
def HasOneDefault (set : UniformSet) : Prop :=
  ∀ p ∈ set.readParameters, ∀ q ∈ set.readParameters,
    p.name = q.name → p.vector = q.vector → p.default = q.default

instance (set : UniformSet) : Decidable set.HasOneDefault :=
  inferInstanceAs (Decidable (∀ p ∈ set.readParameters, ∀ q ∈ set.readParameters,
    p.name = q.name → p.vector = q.vector → p.default = q.default))

/-- The first components of values, with zeros at the end that fill up the last vector. -/
def packed (values : List Value) : List Single :=
  values.map (·.x) ++ List.replicate ((values.length + 3) / 4 * 4 - values.length) Single.zero

/-- Whether an evaluation comes to given values is found by evaluating. -/
instance decidableEqOk {ε α : Type} [DecidableEq α] (a : α) :
    (r : Except ε α) → Decidable (r = .ok a)
  | .ok b => decidable_of_iff (b = a) ⟨congrArg _, Except.ok.inj⟩
  | .error _ => isFalse fun h => nomatch h

variable {set slots : UniformSet}

/-- Programs that all run are run in order. -/
theorem runAll_eq {params vs : List Value} {ps : List Program}
    (h : List.Forall₂ (fun p v => p.run params = .ok v) ps vs) (vector : Bool) (i : Nat) :
    runAll vector params i ps = .ok vs := by
  induction h generalizing i with
  | nil => rfl
  | cons hp _ ih =>
    simp only [runAll, hp, ih]
    rfl

/-- The programs of a set are those of its slots, on a table with all their parameters. -/
theorem withPrograms_programs (h : set.withPrograms = .ok slots) :
    slots.parameters.Programs slots.scalars slots.scalarPrograms ∧
      slots.parameters.Programs slots.vectors slots.vectorPrograms ∧
      slots.parameters = set.parameters.internAll slots.readParameters ∧
      (set.parameters.length ≤ 0x10000 → slots.parameters.length ≤ 0x10000) := by
  obtain ⟨ps, qs, table, final, hscalars, hvectors, rfl⟩ := withPrograms_ok h
  obtain ⟨htable, hsize⟩ := Uniform.programs_ok hscalars
  obtain ⟨hfinal, hsize'⟩ := Uniform.programs_ok hvectors
  refine ⟨.of_ok hscalars (hfinal ▸ ParameterTable.prefix_internAll _ _),
    .of_ok hvectors List.prefix_rfl, ?_, fun h => hsize' (hsize h)⟩
  show final = _
  rw [hfinal, htable, ← ParameterTable.internAll_append]
  simp [readParameters, List.flatMap_map]

section

variable (hempty : set.parameters = []) (h : set.withPrograms = .ok slots)
  (hcounts : ∀ u ∈ slots.scalars ++ slots.vectors, u.expr.isWellCounted)

include hempty h hcounts

/-- The values of slots, given those of the parameters. -/
theorem evaluate_eq {params : List Value}
    (hparams : params.length = slots.parameters.length) :
    slots.evaluate params =
      .ok (packed (slots.scalars.map fun u => u.expr.evaluateWith (slots.parameters.read params)),
        slots.vectors.map fun u => u.expr.evaluateWith (slots.parameters.read params)) := by
  obtain ⟨hscalars, hvectors, -, hsize⟩ := withPrograms_programs h
  have hsize := hsize (by simp [hempty])
  have hrun := hscalars.run (fun u hu => hcounts u (List.mem_append_left _ hu)) hsize hparams
  have hrun' := hvectors.run (fun u hu => hcounts u (List.mem_append_right _ hu)) hsize hparams
  simp only [evaluate, hparams, runAll_eq hrun, runAll_eq hrun']
  simp [bind, Except.bind, pure, Except.pure, packed]

/-- The values of slots with the defaults that came first. -/
theorem evaluate_defaults :
    slots.evaluate slots.parameters.defaults =
      .ok (packed (slots.scalars.map fun u => u.expr.evaluateWith slots.firstDefault),
        slots.vectors.map fun u => u.expr.evaluateWith slots.firstDefault) := by
  obtain ⟨-, -, htable, -⟩ := withPrograms_programs h
  have hvalue : slots.parameters.value [] = slots.firstDefault := by
    funext p
    unfold ParameterTable.value firstDefault
    rw [htable, hempty, ParameterTable.info?_internAll]
    rfl
  have hread : ∀ u ∈ slots.scalars ++ slots.vectors,
      u.expr.evaluateWith (slots.parameters.read slots.parameters.defaults) =
        u.expr.evaluateWith slots.firstDefault := by
    intro u hu
    rw [ParameterTable.defaults_eq_values, ← hvalue]
    refine Uniform.evaluateWith_congr fun q hq => ?_
    obtain ⟨i, hi⟩ := set.parameters.exists_findIdx?_internAll
      (show q ∈ slots.readParameters from List.mem_flatMap.2 ⟨u, hu, hq⟩)
    exact ParameterTable.read_values (htable ▸ hi) []
  rw [evaluate_eq hempty h hcounts (by simp [ParameterTable.defaults]),
    List.map_congr_left fun u hu => hread u (List.mem_append_left _ hu),
    List.map_congr_left fun u hu => hread u (List.mem_append_right _ hu)]

end

/-- A parameter has the default that came first if all of its name and width have the same. -/
theorem evaluateWith_firstDefault (h : slots.HasOneDefault) {u : SharedUniform}
    (hu : u ∈ slots.scalars ++ slots.vectors) :
    u.expr.evaluateWith slots.firstDefault = u.expr.evaluate [] := by
  rw [Uniform.evaluate_eq_evaluateWith]
  refine Uniform.evaluateWith_congr fun p hp => ?_
  have hread : p ∈ slots.readParameters := List.mem_flatMap.mpr ⟨u, hu, hp⟩
  unfold firstDefault
  cases hfind : slots.readParameters.find? (ParameterTable.isFor p.name p.vector) with
  | none => rfl
  | some q =>
    have hfor := List.find?_some hfind
    simp only [ParameterTable.isFor, Bool.and_eq_true, beq_iff_eq] at hfor
    exact h q (List.mem_of_find?_eq_some hfind) p hread hfor.1 hfor.2

end UniformSet

namespace Pass

/-- A material without a graph has no slots. -/
theorem slots_run_none {env : Environment} {o : Outcome} {p : Pass}
    (h : run env none {} = .ok o p) : o.slots = {} := by
  cases h
  rfl

/-- **Default values.** Whatever is compiled, the programs of the slots run on the defaults of their
parameters, and give every slot the value of its expression with the defaults that came first. That
is the value with its own defaults if no two parameters of one name and width have different
defaults. -/
theorem run_defaults (env : Environment) (g? : Option Graph) {o : Outcome} {p : Pass}
    (h : run env (g?.map Graph.expressions) {} = .ok o p) :
    o.slots.evaluate o.slots.parameters.defaults =
        .ok (UniformSet.packed (o.slots.scalars.map fun u =>
            u.expr.evaluateWith o.slots.firstDefault),
          o.slots.vectors.map fun u => u.expr.evaluateWith o.slots.firstDefault) ∧
      (o.slots.HasOneDefault →
        o.slots.evaluate o.slots.parameters.defaults =
          .ok (UniformSet.packed (o.slots.scalars.map fun u => u.expr.evaluate []),
            o.slots.vectors.map fun u => u.expr.evaluate [])) := by
  cases g? with
  | none =>
    rw [slots_run_none h]
    exact ⟨rfl, fun _ => rfl⟩
  | some g =>
    have hp := run_completed g.expressions_safe h
    obtain ⟨set, hempty, hprograms⟩ := hp.programs
    rw [hp.slots]
    have hcounts : ∀ u ∈ p.slots.scalars ++ p.slots.vectors, u.expr.isWellCounted := by
      intro u hu
      rcases List.mem_append.mp hu with hu | hu
      · exact hp.sound.counted u (hp.sound.slotted .scalar u hu)
      · exact hp.sound.counted u (hp.sound.slotted .vector u hu)
    have hfirst := UniformSet.evaluate_defaults hempty hprograms hcounts
    refine ⟨hfirst, fun hone => ?_⟩
    have hown := fun u hu => UniformSet.evaluateWith_firstDefault hone (u := u) hu
    rw [hfirst, List.map_congr_left fun u hu => hown u (List.mem_append_left _ hu),
      List.map_congr_left fun u hu => hown u (List.mem_append_right _ hu)]

/-- A color that is scaled by a parameter. -/
def scaledTint : Graph where
  nodes :=
    [.scalarParameter "Gain" .two, .vectorParameter "Tint" (Value.replicate .half),
     .binary .multiply ⟨1, 0⟩ ⟨2, 0⟩ .zero .one]

/-- The material that has it as its color, and the scale as its roughness. -/
def tintedMaterial : Environment where
  material :=
    { inputs := ((PropertyTable.const Input.none).set .roughness ⟨1, 0⟩).set .emissiveColor ⟨3, 0⟩ }

/-- One parameter is read by a scalar and by a vector. -/
theorem run_defaults_scaledTint :
    ∃ o p, run tintedMaterial (some scaledTint.expressions) {} = .ok o p ∧
      o.slots.scalars.length = 1 ∧ o.slots.vectors.length = 1 ∧ o.slots.HasOneDefault ∧
      o.slots.evaluate o.slots.parameters.defaults =
        .ok (UniformSet.packed (o.slots.scalars.map fun u => u.expr.evaluate []),
          o.slots.vectors.map fun u => u.expr.evaluate []) := by
  obtain ⟨o, p, h, hscalars, hvectors, hone⟩ :
      ∃ o p, run tintedMaterial (some scaledTint.expressions) {} = .ok o p ∧
        o.slots.scalars.length = 1 ∧ o.slots.vectors.length = 1 ∧ o.slots.HasOneDefault := by
    decide +kernel
  exact ⟨o, p, h, hscalars, hvectors, hone, (run_defaults _ (some scaledTint) h).2 hone⟩

/-- Two parameters of one name with different defaults. -/
def conflictingGains : Graph where
  nodes := [.scalarParameter "Gain" .one, .scalarParameter "Gain" .two]

/-- The material that reads one as its metallic part and the other as its roughness. -/
def conflictingMaterial : Environment where
  material :=
    { inputs := ((PropertyTable.const Input.none).set .metallic ⟨1, 0⟩).set .roughness ⟨2, 0⟩ }

/-- The second parameter is evaluated with the default of the first. -/
theorem conflicting_defaults_differ :
    ∃ o p, run conflictingMaterial (some conflictingGains.expressions) {} = .ok o p ∧
      o.success = true ∧
      o.slots.evaluate o.slots.parameters.defaults = .ok ([.one, .one, .zero, .zero], []) ∧
      UniformSet.packed (o.slots.scalars.map fun u => u.expr.evaluate []) =
        [.one, .two, .zero, .zero] := by decide +kernel

end Pass

end ShaderGraph
