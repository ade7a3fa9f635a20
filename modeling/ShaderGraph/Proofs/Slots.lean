import Mathlib.Order.Bounds.Basic
import ShaderGraph.Proofs.Defaults
import ShaderGraph.Proofs.Waypoints

/-!
# Slots are exact

The text that reads a slot is emitted long before the slots are fixed, and their programs are
compiled only then. Still the text names the place at which the outcome holds the uniform
expression it was emitted for: on the way to the end, chunks and slots are only ever added
(`Pass.Retains`), and a table of slots tells its entries apart by their places among all uniform
expressions, which are distinct for distinct expressions (`UniformTable.Interned`).
-/

namespace ShaderGraph

/-! ### Programs of slots -/

namespace UniformSet

/-- The length of packed values is the least multiple of four that is not below their number. -/
theorem isLeast_length_packed (vs : List Value) :
    IsLeast {n | 4 ∣ n ∧ vs.length ≤ n} (packed vs).length := by
  have hlength : (packed vs).length = (vs.length + 3) / 4 * 4 := by
    simp only [packed, List.length_append, List.length_map, List.length_replicate]
    omega
  rw [hlength]
  refine ⟨⟨⟨_, Nat.mul_comm _ _⟩, by omega⟩, fun n hn => ?_⟩
  obtain ⟨⟨k, rfl⟩, hk⟩ := hn
  omega

theorem getElem?_packed {vs : List Value} {i : Nat} {v : Value} (h : vs[i]? = some v) :
    (packed vs)[i]? = some v.x := by
  obtain ⟨hlt, -⟩ := List.getElem?_eq_some_iff.mp h
  rw [packed, List.getElem?_append_left (by simpa using hlt), List.getElem?_map, h]
  rfl

/-- What `evaluate` gives: the first component of the value of the scalar program `i` at place `i`,
in whole vectors, and the values of the vector programs in turn. -/
structure Evaluates (set : UniformSet) (params : List Value) (scalars : List Single)
    (vectors : List Value) : Prop where
  result : set.evaluate params = .ok (scalars, vectors)
  length : IsLeast {n | 4 ∣ n ∧ set.scalars.length ≤ n} scalars.length
  scalar : ∀ (i : Nat) (p : Program), set.scalarPrograms[i]? = some p →
    ∃ v, p.run params = .ok v ∧ scalars[i]? = some v.x
  vector : List.Forall₂ (fun p v => p.run params = .ok v) set.vectorPrograms vectors

variable {set slots : UniformSet}

/-- The programs of slots are those of their expressions, and run on any values of the
parameters. -/
theorem exists_evaluates (hempty : set.parameters = []) (h : set.withPrograms = .ok slots)
    (hcounts : ∀ u ∈ slots.scalars ++ slots.vectors, u.expr.isWellCounted) :
    slots.parameters.Programs slots.scalars slots.scalarPrograms ∧
      slots.parameters.Programs slots.vectors slots.vectorPrograms ∧
      ∀ params : List Value, params.length = slots.parameters.length →
        ∃ scalars vectors, slots.Evaluates params scalars vectors := by
  obtain ⟨hscalars, hvectors, -, hsize⟩ := withPrograms_programs h
  refine ⟨hscalars, hvectors, fun params hparams => ?_⟩
  have hsize := hsize (by simp [hempty])
  have hvalues := hscalars.run (fun u hu => hcounts u (List.mem_append_left _ hu)) hsize hparams
  refine ⟨_, _, evaluate_eq hempty h hcounts hparams, ?_, fun i p hp => ?_,
    hvectors.run (fun u hu => hcounts u (List.mem_append_right _ hu)) hsize hparams⟩
  · simpa using isLeast_length_packed (slots.scalars.map fun u =>
      u.expr.evaluateWith (slots.parameters.read params))
  · obtain ⟨hlt, rfl⟩ := List.getElem?_eq_some_iff.mp hp
    obtain ⟨hsame, hget⟩ := List.forall₂_iff_get.mp hvalues
    exact ⟨_, hget i hlt (hsame ▸ hlt), getElem?_packed (List.getElem?_eq_getElem _)⟩

end UniformSet

/-! ### Reading slots -/

namespace Pass

variable {p : Pass} {ctx : Context}

/-- The text of the chunk that code of a scope refers to. -/
def textAt? (p : Pass) (k : Nat) (c : Code) : Option String :=
  c.bind fun i => ((p.scope k)[i]?).map (·.text)

/-- A report gives no code. -/
theorem report_codeless (problem : Problem) {Q : Code → Pass → Prop} :
    p.Gives (ctx.report problem) fun c q => c.isSome → Q c q := by
  refine (ctx.report_gives problem).mono fun c q hc hsome => ?_
  rw [hc.1] at hsome
  cases hsome

/-- Code of a temporary is that of a chunk with its text, whether it was there before or not. -/
theorem emitWith_text (hscope : ctx.scope < p.scopes.length) (digest : Digest) (type : ValueType)
    (text : String) :
    p.Gives (ctx.emitWith digest type text) fun c q =>
      c.isSome → q.textAt? ctx.scope c = some text ∧ q.interpolators = p.interpolators := by
  refine (ctx.emitWith_gives digest type text).mono fun c q hc hsome => ?_
  obtain ⟨-, ⟨i, d, rfl, rfl, hd, -, htext⟩ | ⟨rfl, rfl⟩⟩ | ⟨-, rfl, -⟩ := hc
  · exact ⟨by simp [textAt?, hd, htext], rfl⟩
  · refine ⟨?_, rfl⟩
    exact congrArg (Option.map (·.text))
      (getElem?_append (p := { p with nextTemporary := _ }) hscope _)
  · cases hsome

/-- Reading a slot finds the slot of a deferred uniform expression, or adds it, and emits the text
that reads it. -/
theorem readSlot_gives (i : Nat) :
    p.Gives (ctx.readSlot i) fun c q => ∃ d u kind,
      (p.scope ctx.scope)[i]? = some d ∧ d.deferred? = some u ∧
      SlotKind.ofType? d.type = some kind ∧ (q.scope ctx.scope)[i]? = some d ∧
      q.slots.table kind = (addSlot (p.slots.table kind) u).2 ∧
      q.textAt? ctx.scope c = some (kind.access d.type (addSlot (p.slots.table kind) u).1) := by
  refine (ctx.readSlot_gives i).mono fun c q hc => ?_
  obtain ⟨d, u, kind, hd, hu, hkind, rfl, rfl⟩ := hc
  have hscope := Context.lt_of_getElem?_scope hd
  refine ⟨d, u, kind, hd, hu, hkind, ?_, UniformSet.table_withTable_self _ _ _, ?_⟩
  · exact getElem?_of_prefix (scope_append_self (p := { p with slots := _ }) hscope _ ▸
      List.prefix_append _ _) hd
  · exact congrArg (Option.map (·.text)) (getElem?_append (p := { p with slots := _ }) hscope _)

/-- What is known of the slots when a compilation ends: the code is sound, and the programs are
those of the slots. -/
theorem run_slotted {env : Environment} {g? : Option Graph} {o : Outcome}
    (h : run env (g?.map Graph.expressions) {} = .ok o p) :
    p.Sound ∧ o.slots = p.slots ∧
      ∃ set : UniformSet, set.parameters = [] ∧ set.withPrograms = .ok p.slots := by
  cases g? with
  | none =>
    cases h
    exact ⟨ready_init.sound.of_code_eq rfl, rfl, {}, rfl, rfl⟩
  | some g =>
    have hp := run_completed g.expressions_safe h
    exact ⟨hp.sound, hp.slots, hp.programs⟩

/-- The code that reads a slot names the place at which tables hold what it reads. -/
def ReadsSlot (slots : UniformSet) (ctx : Context) (i : Nat) (q : Pass) (c : Code) (r : Pass) :
    Prop :=
  ∃ d u kind slot, (q.scope ctx.scope)[i]? = some d ∧ d.deferred? = some u ∧
    SlotKind.ofType? d.type = some kind ∧
    r.textAt? ctx.scope c = some (kind.access d.type slot) ∧ (slots.table kind)[slot]? = some u

/-- What an outcome has in its slots. -/
structure SlotsExact (env : Environment) (g? : Option Graph) (o : Outcome) (p : Pass) : Prop
    extends EndsIn env g? o p where
  /-- A slot that is read on the way to a state with the tables of the outcome, as the last one is,
  has what is read. -/
  read : ∀ (ctx : Context) (i : Nat) (q r e : Pass) (c : Code), ctx.readSlot i q = .ok c r →
    r.Reaches e → Reaches {} e → (∀ kind, e.slots.table kind = o.slots.table kind) →
    ReadsSlot o.slots ctx i q c r
  constantFree : ∀ kind, ∀ u ∈ o.slots.table kind, u.expr.isConstant = false
  distinct : ∀ (kind : SlotKind) (i j : Nat) (u v : SharedUniform),
    (o.slots.table kind)[i]? = some u → (o.slots.table kind)[j]? = some v →
      u.expr.identical v.expr ∨ p.uniforms.Identical u v → i = j
  scalarPrograms : o.slots.parameters.Programs o.slots.scalars o.slots.scalarPrograms
  vectorPrograms : o.slots.parameters.Programs o.slots.vectors o.slots.vectorPrograms
  evaluates : ∀ params : List Value, params.length = o.slots.parameters.length →
    ∃ scalars vectors, o.slots.Evaluates params scalars vectors

/-- **Slots are exact.** Whenever a compilation emits the text that reads a slot, its outcome has
the uniform expression that is read in that slot. The outcome has no constant in a slot, and no two
slots of a table for expressions that agree. The program of a slot is that of its expression, and
evaluation, whatever the values of the parameters, has the value of the scalar `i` at place `i`. -/
theorem run_slots (env : Environment) (g? : Option Graph) {o : Outcome} {p : Pass}
    (h : run env (g?.map Graph.expressions) {} = .ok o p) : SlotsExact env g? o p := by
  obtain ⟨hsound, hslots, set, hempty, hprograms⟩ := run_slotted h
  have hcounts : ∀ u ∈ p.slots.scalars ++ p.slots.vectors, u.expr.isWellCounted := by
    intro u hu
    rcases List.mem_append.mp hu with hu | hu
    · exact hsound.counted u (hsound.slotted .scalar u hu)
    · exact hsound.counted u (hsound.slotted .vector u hu)
  obtain ⟨hscalars, hvectors, hevaluates⟩ := UniformSet.exists_evaluates hempty hprograms hcounts
  rw [← hslots] at hscalars hvectors hevaluates
  refine ⟨run_endsIn g? h, fun ctx i q r e c hread he hreached htables => ?_,
    hslots ▸ hsound.single.deferred, fun kind i j u v hi hj huv => ?_, hscalars, hvectors,
    hevaluates⟩
  · obtain ⟨d, u, kind, hd, hu, hkind, hd', htable, htext⟩ := readSlot_gives i c r hread
    refine ⟨d, u, kind, _, hd, hu, hkind, htext, ?_⟩
    -- The entry at the slot has the number of the expression, and entries with one number are one.
    have hsound := hreached.sound ready_init.sound
    have hlisted : u ∈ e.uniforms :=
      hsound.listed _ d ((he.retains.scopes _).subset (List.mem_of_getElem? hd')) u
        (Option.filter_eq_some_iff.mp hu).1
    obtain ⟨entry, hentry, hid⟩ := getElem?_addSlot (q.slots.table kind) u
    rw [← htable] at hentry
    have hfinal := getElem?_of_prefix (he.retains.slots kind) hentry
    have hmem : entry ∈ e.uniforms := hsound.slotted kind entry (List.mem_of_getElem? hfinal)
    rw [← htables]
    exact hfinal.trans (congrArg some (hsound.interned.eq_of_id_eq hmem hlisted hid))
  · rw [hslots] at hi hj
    have hu := hsound.slotted kind u (List.mem_of_getElem? hi)
    have hv := hsound.slotted kind v (List.mem_of_getElem? hj)
    obtain rfl : u = v := by
      rcases huv with huv | huv
      · exact hsound.interned.eq_of_expr_identical hu hv huv
      · exact hsound.interned.eq_of_identical hu hv huv
    exact hsound.single.index_eq hi hj

/-- A number that is a parameter. -/
def gain : Graph where
  nodes := [.scalarParameter "Gain" .half]

/-- The material that has it as its roughness. -/
def rough : Environment where
  material := { inputs := (PropertyTable.const Input.none).set .roughness ⟨1, 0⟩ }

/-- Where the pixel stage compiles the roughness. -/
def roughReader (p : Pass) : Context :=
  { propertyContext rough .roughness (p.stageScopes.get .pixel) with node := 1 }

/-- Where the pixel stage has compiled the parameter, its slot is read. -/
theorem run_slots_gain :
    ∃ o p q r c s, run rough (some gain.expressions) {} = .ok o p ∧ Reaches {} q ∧
      q.Reaches p ∧ q.roughReader.scalarParameter "Gain" .half q = .ok (some 4) r ∧
      q.roughReader.readSlot 4 r = .ok c s ∧ ReadsSlot o.slots q.roughReader 4 r c s := by
  obtain ⟨o, p, h, q, hq, code, r, hr, rfl, c, s, hs, hslots⟩ :
      ∃ o p, run rough (some gain.expressions) {} = .ok o p ∧
        ∃ q, run rough (some (gain.barred 1 .noSuchStage)) {} = .error .noSuchStage q ∧
        ∃ code r, q.roughReader.scalarParameter "Gain" .half q = .ok code r ∧ code = some 4 ∧
        ∃ c s, q.roughReader.readSlot 4 r = .ok c s ∧
          { s.slots with
            parameters := o.slots.parameters, scalarPrograms := o.slots.scalarPrograms } =
              o.slots := by
    decide +kernel
  obtain ⟨hreached, hrest⟩ := Graph.barred_waypoint h hq
  have hsound := hreached.sound ready_init.sound
  have hevolves := (Context.scalarParameter_safe _ _).gives hsound _ _ hr
  have hread := (Context.readSlot_yields _ (hevolves.sound hsound) _ _ hs).1
  refine ⟨o, p, q, r, c, s, h, hreached, hrest, hr, hs, ?_⟩
  refine (run_slots rough (some gain) h).read _ _ _ _ s c hs (.refl s)
    ((hreached.evolves hevolves).evolves hread) fun kind => ?_
  rw [← hslots]
  cases kind <;> rfl

end Pass

end ShaderGraph
