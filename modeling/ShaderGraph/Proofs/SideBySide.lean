import ShaderGraph.Proofs.Coupling
import ShaderGraph.Proofs.PhaseLogic

/-!
# Two graphs compiled side by side

A relation between states that hosts whole phases (`Pass.Hosts`), and two graphs and compilers that
end alike on all that a material asks of them (`Pass.GraphsAgree`), make all phases of the two
compilations end alike.

Interpolators and custom outputs are compiled apart from the properties, in scopes of their own.
Each begins with a fresh frame of its stage, for which the states may be in a closer relation, and
leaves that frame for a fresh one. Until it does, the states may be in a looser relation.
-/

namespace ShaderGraph

variable {P Q : Fault → Prop} {set : UniformSet}

/-! ### Faults -/

/-- If a computation has no result, its fault is as `P` says. -/
def Errs {α : Type} (P : Fault → Prop) (x : Except Fault α) : Prop := ∀ e, x = .error e → P e

namespace Errs

variable {α β : Type} {x : Except Fault α} {f : α → Except Fault β}

theorem ok (a : α) : Errs P (.ok a) := fun e h => by cases h

theorem mono (hx : Errs P x) (h : ∀ e, P e → Q e) : Errs Q x := fun e he => h e (hx e he)

theorem bind (hx : Errs P x) (hf : ∀ a, Errs P (f a)) : Errs P (x >>= f) := by
  intro e h
  cases x with
  | ok a => exact hf a e h
  | error e' => exact hx e (congrArg _ (Except.error.inj h))

end Errs

/-! ### Programs -/

/-- There are too many parameters for a program, or a texture is read. -/
def Fault.IsOfProgram (reads : Prop) (e : Fault) : Prop :=
  e = .parameterIndex ∨ e = .textureProgram ∧ reads

theorem Fault.IsOfProgram.mono {s t : Prop} {e : Fault} (h : s → t) (he : e.IsOfProgram s) :
    e.IsOfProgram t := he.imp_right fun he => ⟨he.1, h he.2⟩

theorem Fault.IsOfProgram.concernsFrames_eq {s : Prop} {e : Fault} (he : e.IsOfProgram s) :
    e.concernsFrames = false := by
  rcases he with rfl | ⟨rfl, -⟩ <;> rfl

namespace Uniform

variable {table : ParameterTable}

theorem program_errs (u : Uniform) :
    Errs (Fault.IsOfProgram (u.isTextureFree = false)) (u.program table) := by
  have hread : ∀ {index : Nat} {s : Prop},
      Errs (Fault.IsOfProgram s) (Program.readParameter index) := by
    intro index s e h
    unfold Program.readParameter at h
    split at h
    · cases h
    · exact .inl (Except.error.inj h).symm
  induction u generalizing table with
  | constant => exact .ok _
  | scalarParameter | vectorParameter => exact hread.bind fun _ => .ok _
  | texture => exact fun e h => .inr ⟨(Except.error.inj h).symm, rfl⟩
  | unary _ _ _ ih | swizzle _ _ ih => exact ih.bind fun _ => .ok _
  | binary _ _ a b iha ihb =>
    exact (iha.mono fun _ => .mono fun h => by simp [isTextureFree, h]).bind fun _ =>
      (ihb.mono fun _ => .mono fun h => by simp [isTextureFree, h]).bind fun _ => .ok _
  | clamp _ a lo hi iha ihlo ihhi =>
    exact (iha.mono fun _ => .mono fun h => by simp [isTextureFree, h]).bind fun _ =>
      (ihlo.mono fun _ => .mono fun h => by simp [isTextureFree, h]).bind fun _ =>
        (ihhi.mono fun _ => .mono fun h => by simp [isTextureFree, h]).bind fun _ => .ok _

theorem programs_errs (us : List Uniform) :
    Errs (Fault.IsOfProgram (∃ u ∈ us, u.isTextureFree = false)) (programs us table) := by
  induction us generalizing table with
  | nil => exact .ok _
  | cons u us ih =>
    exact ((program_errs u).mono fun _ => .mono fun h => ⟨u, by simp, h⟩).bind fun _ =>
      (ih.mono fun _ => .mono fun ⟨v, hv, h⟩ => ⟨v, by simp [hv], h⟩).bind fun _ => .ok _

theorem programs_map_errs {us all : List SharedUniform} (h : us ⊆ all) :
    Errs (Fault.IsOfProgram (∃ u ∈ all, u.expr.isTextureFree = false))
      (programs (us.map (·.expr)) table) := by
  refine (programs_errs _).mono fun _ => .mono fun ⟨u, hu, hfree⟩ => ?_
  obtain ⟨v, hv, rfl⟩ := List.mem_map.1 hu
  exact ⟨v, h hv, hfree⟩

end Uniform

/-- There are no programs for uniform expressions only if one of them reads a texture, or there are
too many parameters. -/
theorem UniformSet.withPrograms_errs (set : UniformSet) :
    Errs (Fault.IsOfProgram (∃ u ∈ set.scalars ++ set.vectors, u.expr.isTextureFree = false))
      set.withPrograms :=
  (Uniform.programs_map_errs (List.subset_append_left _ _)).bind fun _ =>
    (Uniform.programs_map_errs (List.subset_append_right _ _)).bind fun _ => .ok _

/-! ### Bodies -/

theorem Scope.body_errs {s : Scope} {start stop : Nat} {c : Code} :
    Errs (·.concernsFrames = false) (s.body start stop c) := by
  intro e h
  unfold Scope.body at h
  repeat' split at h
  all_goals cases h
  all_goals rfl

/-- A function is compiled, and not a property. -/
structure Context.IsApart (ctx : Context) (env : Environment) : Prop where
  env_eq : ctx.env = env
  property : ctx.property = none

namespace Pass

theorem propertyBodies_errs {p : Pass} : Errs (·.concernsFrames = false) p.propertyBodies := by
  have hbody : ∀ property, Errs (·.concernsFrames = false) (p.propertyBody property) := by
    intro property
    unfold propertyBody
    split
    · exact Scope.body_errs.bind fun _ => .ok _
    · exact Scope.body_errs
  unfold propertyBodies
  generalize Property.all = properties
  generalize (PropertyTable.const {} : PropertyTable Body) = table
  induction properties generalizing table with
  | nil => exact .ok _
  | cons property rest ih =>
    exact Errs.bind ((hbody property).bind fun _ => .ok _) fun _ => ih _

/-! ### All that is asked for -/

/-- A relation between states that takes in what the phases do besides compiling nodes, closer ones
for states in which a stage has a fresh frame, and looser ones for what is compiled apart in it. -/
structure Hosts (E : Fault → Pass → Pass → Prop) (R : Pass → Pass → Prop)
    (N A : Stage → Pass → Pass → Prop) : Prop extends Absorbs E R where
  fresh : ∀ stage, Absorbs E (N stage)
  apart : ∀ stage, Absorbs E (A stage)
  settle : ∀ {p q : Pass} (stage : Stage), N stage p q → R p q
  leave : ∀ {p q : Pass} (stage : Stage), R p q → A stage p q
  reset : ∀ stage, Couples E (A stage) (N stage) (resetStack stage) (resetStack stage)
  hold : ∀ {p q : Pass}, N .vertex p q →
    N .vertex { p with sink := some [] } { q with sink := some [] }
  keep : ∀ {p q : Pass} (id : NodeId), A .vertex p q →
    A .vertex { p with interpolatorErrors := (id, p.sink.getD []) :: p.interpolatorErrors }
      { q with interpolatorErrors := (id, q.sink.getD []) :: q.interpolatorErrors }
  release : ∀ {p q : Pass}, A .vertex p q →
    A .vertex { p with sink := none } { q with sink := none }
  success : ∀ {p q : Pass}, R p q → p.success = q.success
  summary : ∀ {p q p' q' : Pass} (level : LogLevel) (message : String)
    (attributes : Nat → List (String × String)), R p q → R p' q' → p'.success = p.success →
    Agree E R (Pass.note level message (attributes p.diagnostics.length) p')
      (Pass.note level message (attributes q.diagnostics.length) q')

/-- Related states that have a scope. -/
def Having (R : Pass → Pass → Prop) (scope : Nat) (p q : Pass) : Prop :=
  R p q ∧ scope < p.scopes.length

/-- Two graphs and compilers that end alike on all that is compiled for a material. Only light
functions compile their emission for the compute stage. -/
structure GraphsAgree (E : Fault → Pass → Pass → Prop) (R : Pass → Pass → Prop)
    (N A : Stage → Pass → Pass → Prop) (env : Environment) (g g' : ExpressionGraph)
    (c d : Compiler) : Prop where
  property : ∀ (property : Property) {p q : Pass},
    (property = .emissiveColorCompute → env.material.domain = .lightFunction) → R p q →
    Agree E R
      (c (propertyContext env property (p.stageScopes.get property.stage))
        (env.material.inputs.get property.base) p)
      (d (propertyContext env property (p.stageScopes.get property.stage))
        (env.material.inputs.get property.base) q)
  interpolator : ∀ id : NodeId,
    ((g.node? id).bind (·.vertexInput?) = none ∧ (g'.node? id).bind (·.vertexInput?) = none) ∨
    ∃ i i', (g.node? id).bind (·.vertexInput?) = some i ∧
      (g'.node? id).bind (·.vertexInput?) = some i' ∧
      ∀ ctx : Context, ctx.IsApart env → ctx.stage = .vertex →
        Couples E (Having (N .vertex) ctx.scope) (A .vertex) (c ctx i) (d ctx i')
  customOutput : ∀ id : NodeId,
    ((g.node? id).bind (·.customOutput?) = none ∧ (g'.node? id).bind (·.customOutput?) = none) ∨
    ∃ e e' out, g.node? id = some e ∧ g'.node? id = some e' ∧ e.customOutput? = some out ∧
      e'.customOutput? = some out ∧ ∀ (ctx : Context) (output : Int), ctx.IsApart env →
        ctx.node = id → Couples E (Having (N ctx.stage) ctx.scope) (A ctx.stage)
          (e.compile c ctx output) (e'.compile d ctx output)
  virtualTextures : env.options.virtualTexturing →
    virtualTextureProblems env.material g = virtualTextureProblems env.material g'

section Phases

variable {E : Fault → Pass → Pass → Prop} {R S : Pass → Pass → Prop}
variable {N A : Stage → Pass → Pass → Prop} {env : Environment} {g g' : ExpressionGraph}
variable {c d : Compiler} {α : Type} {ctx : Context} {i i' : Input}

/-- What is read of the core is the same on both sides, and read in related states. -/
theorem Absorbs.readAt (hR : Absorbs E R) {f k : Pass → PassM α} (hk : ∀ p, k p = k p.core)
    (h : ∀ p q, R p q → Agree E S (f p p) (k p q)) : Couples E R S (get >>= f) (get >>= k) := by
  refine .get_bind fun p q hr => ?_
  rw [hk q, ← hR.core hr, ← hk p]
  exact h p q hr

/-- What is read of the core is the same on both sides. -/
theorem Absorbs.read (hR : Absorbs E R) {f k : Pass → PassM α} (hk : ∀ p, k p = k p.core)
    (h : ∀ p, Couples E R S (f p) (k p)) : Couples E R S (get >>= f) (get >>= k) :=
  hR.readAt hk fun p q hr => h p p q hr

theorem Absorbs.modify (hR : Absorbs E R) {u : Pass → Pass} (hapart : ∀ p, (u p).apart = p.apart)
    (hcore : ∀ p, (u p).core = (u p.core).core)
    (hgauge : ∀ p, (u p).gauge = p.gauge) :
    Keeps E R (modify u) (modify u) :=
  (Steps.update (L := {}) hapart hcore hgauge).couples hR

/-- That there is a scope need not matter. -/
theorem Couples.having {m n : PassM α} (h : Couples E R S m n) (scope : Nat) :
    Couples E (Having R scope) S m n := h.mono (fun _ _ hr => hr.1) fun _ _ hs => hs

/-- What is done in a new scope ends alike if it does in any scope that there is. -/
theorem Absorbs.newScope (hR : Absorbs E R) {f k : Nat → PassM α}
    (h : ∀ scope, Couples E (Having R scope) S (f scope) (k scope)) :
    Couples E R S (newScope >>= f) (newScope >>= k) := by
  intro p q hpq
  obtain ⟨hscope, hr⟩ := newScope_plain.couples hR p q hpq
  have hlt : p.scopes.length < (p.scopes ++ [[]]).length := by simp
  show Agree E S (f p.scopes.length _) (k q.scopes.length _)
  rw [← show p.scopes.length = q.scopes.length from hscope]
  exact h _ _ _ ⟨hr, hlt⟩

/-! ### Interpolators -/

theorem compileInterpolated_couples (hS : Absorbs E S) (h : Couples E R S (c ctx i) (d ctx i')) :
    Couples E R S (compileInterpolated c ctx i) (compileInterpolated d ctx i') := by
  refine h.bind fun code => ((Context.typeOf_plain code).couples hS).bind fun type => ?_
  split
  · exact (hS.report ctx rfl).bind fun _ => .pure _
  · exact .pure _

theorem compileInterpolator_couples (hR : Hosts E R N A)
    (h : ∀ ctx : Context, ctx.IsApart env → ctx.stage = .vertex →
      Couples E (Having (N .vertex) ctx.scope) (A .vertex) (c ctx i) (d ctx i'))
    (id : NodeId) :
    Keeps E (N .vertex) (compileInterpolator env c id i) (compileInterpolator env d id i') := by
  have hA := hR.apart .vertex
  have hstore : ∀ (ctx : Context) (code : Code) (type : ValueType),
      Keeps E (A .vertex) (storeInterpolator ctx id code type)
        (storeInterpolator ctx id code type) := by
    intro ctx code type
    unfold storeInterpolator
    split
    · refine hA.read (fun _ => rfl) fun p => ?_
      refine ((Context.functionBody_plain code).couples hA).bind fun body => ?_
      refine ((addImplementation_steps (L := .full) rfl _).couples hA).bind fun _ => ?_
      exact (Context.listInterpolator_steps (L := .full) rfl _).couples hA
    · exact .modify fun _ _ hr => hR.keep id hr
  refine Couples.bind (.modify fun _ _ hr => hR.hold hr) fun _ => ?_
  refine (hR.fresh .vertex).newScope fun scope => ?_
  have hinput := h { env, stage := .vertex, scope, node := id } ⟨rfl, rfl⟩ rfl
  refine (compileInterpolated_couples hA hinput).bind fun ⟨code, type⟩ => ?_
  refine (hstore _ code _).bind fun _ => Couples.bind (.modify fun _ _ hr => hR.release hr) ?_
  exact fun _ => (hA.note _ _ _).bind fun _ => hR.reset _

theorem compileInterpolators_couples (hR : Hosts E R N A)
    (hg : GraphsAgree E R N A env g g' c d) :
    Keeps E (N .vertex) (compileInterpolators env g c) (compileInterpolators env g' d) := by
  refine .forM fun id _ => ?_
  rcases hg.interpolator id with ⟨h, h'⟩ | ⟨i, i', h, h', hi⟩
  · simp only [h, h']
    exact (hR.fresh .vertex).reportGlobally rfl
  · simp only [h, h']
    exact compileInterpolator_couples hR hi id

/-! ### Custom outputs -/

theorem compileFunctions_couples (hR : Hosts E R N A) {e e' : Expression} {id : NodeId}
    (h : ∀ (ctx : Context) (output : Int), ctx.IsApart env → ctx.node = id →
      Couples E (Having (N ctx.stage) ctx.scope) (A ctx.stage) (e.compile c ctx output)
        (e'.compile d ctx output))
    (outputs : Nat) (stage : Stage) :
    Keeps E R (compileFunctions env c id e outputs stage)
      (compileFunctions env d id e' outputs stage) := by
  have hloop : Keeps E (A stage)
      ((List.range outputs).forM fun i => do
        resetStack stage
        compileFunction env c id e stage (Int.ofNat i))
      ((List.range outputs).forM fun i => do
        resetStack stage
        compileFunction env d id e' stage (Int.ofNat i)) := by
    refine .forM fun i _ => ?_
    refine (hR.reset stage).bind fun _ => ?_
    refine (hR.fresh stage).newScope fun scope => ?_
    exact (h { env, stage, scope, node := id } i ⟨rfl, rfl⟩ rfl).bind fun _ => .pure _
  refine (hloop.mono (fun _ _ => hR.leave stage) fun _ _ h => h).bind fun _ => ?_
  exact (hR.reset stage).mono (fun _ _ h => h) fun _ _ => hR.settle stage

/-! ### Properties -/

theorem compileProperty_couples (hR : Hosts E R N A) (hg : GraphsAgree E R N A env g g' c d)
    (property : Property)
    (hproperty : property = .emissiveColorCompute → env.material.domain = .lightFunction) :
    Keeps E R (compileProperty env c property) (compileProperty env d property) := by
  have hrecord : ∀ (ctx : Context) (code : Code),
      Keeps E R (recordProperty env property ctx code) (recordProperty env property ctx code) := by
    intro ctx code
    refine ((Context.castProperty_plain _ _).couples hR.toAbsorbs).bind fun code => ?_
    refine ((Context.setResult_plain _ _).couples hR.toAbsorbs).bind fun _ => ?_
    exact (hR.note _ _ _).bind fun _ => .pure _
  refine hR.readAt (fun _ => rfl) fun p q hpq => ?_
  unfold compileSource
  split
  · exact Couples.bind ((Context.compileDefault_plain _).couples hR.toAbsorbs) (hrecord _) p q hpq
  · exact (hg.property property hproperty hpq).bind (hrecord _)

theorem appendParameter_plain {code : Code} (type : ValueType) (flags : Context.ResizeFlags)
    (name : String) (default : Single) :
    Plain (appendParameter ctx code type flags name default) := by
  refine (Context.resize_plain _ _ _).bind fun first => ?_
  refine (Context.emitUniform_plain _ _ _ _ _ (by nofun)).bind fun parameter => ?_
  exact (Context.resize_plain _ _ _).bind fun second => Context.append_plain _ _

theorem compileAppended_couples (hR : Hosts E R N A) (hg : GraphsAgree E R N A env g g' c d)
    (property : Property) (hproperty : property ≠ .emissiveColorCompute) (type : ValueType)
    (flags : Context.ResizeFlags) (name : String) (default : Single) :
    Keeps E R (compileAppended env c property type flags name default)
      (compileAppended env d property type flags name default) := by
  refine (compileProperty_couples hR hg property (absurd · hproperty)).bind fun x => ?_
  exact ((appendParameter_plain type flags name default).bind fun c =>
    Context.setResult_plain _ c).couples hR.toAbsorbs

/-! ### All phases -/

/-- What phases do besides compiling nodes ends alike. -/
theorem Hosts.phases (hR : Hosts E R N A) :
    PhaseLogic fun _ s (n : Unit → PassM _) => Keeps E R s (n ()) where
  pure := .pure
  bind hs hf := hs.bind hf
  read hk h := hR.read (fun p => congrFun (hk p) ()) h
  noSuchStage := .throw fun _ _ hr => hR.fault hr rfl
  enter phase := (enter_plain phase).couples hR.toAbsorbs
  noted := hR.note _ _
  report h := hR.reportGlobally h
  named _ := hR.modify (fun _ => rfl) (fun _ => rfl) fun _ => rfl
  defined _ := hR.modify (fun _ => rfl) (fun _ => rfl) fun _ => rfl

/-- What is compiled for a material ends alike. -/
theorem GraphsAgree.asks (hR : Hosts E R N A) (hg : GraphsAgree E R N A env g g' c d) :
    PhaseLogic.Asks (fun _ s (n : Unit → PassM _) => Keeps E R s (n ())) env g c (fun _ => g')
      fun _ => d where
  property property h := (compileProperty_couples hR hg property h.2.2.2).bind fun _ => .pure _
  normal := (compileProperty_couples hR hg .normal nofun).bind fun _ => .pure _
  normalEnd := hR.modify (fun _ => rfl) (fun _ => rfl) fun _ => rfl
  subsurface := compileAppended_couples hR hg .subsurfaceColor (by decide) _ _ _ _
  refraction := compileAppended_couples hR hg .refraction (by decide) _ _ _ _
  customOutput id := by
    rcases hg.customOutput id with ⟨h, h'⟩ | ⟨e, e', out, he, he', hout, hout', hcompile⟩
    · exact .inl ⟨h, fun _ => h'⟩
    · exact .inr ⟨e, fun _ => e', out, ⟨he, hout⟩, fun _ => ⟨he', hout'⟩,
        compileFunctions_couples hR hcompile _⟩
  virtualTextures h _ := (hg.virtualTextures h).symm

/-- **All phases** end alike. -/
theorem compileAll_couples (hR : Hosts E R N A) (hg : GraphsAgree E R N A env g g' c d) :
    Couples E (N .vertex) R (compileAll env g c) (compileAll env g' d) := by
  refine ((enter_plain _).couples (hR.fresh .vertex)).bind fun _ => ?_
  refine ((compileInterpolators_couples hR hg).mono (fun _ _ h => h) fun _ _ =>
    hR.settle .vertex).bind fun _ => ?_
  exact hR.phases.compileRest (hg.asks hR)

/-! ### The end -/

theorem source_core (m : Material) (p : Pass) (bodies : PropertyTable Body)
    (defines : List Define) :
    (Shader.Parts.mk m p bodies defines).source =
      (Shader.Parts.mk m p.core bodies defines).source := rfl

theorem orFault_couples {x : Except Fault α} (hR : Absorbs E R)
    (hx : Errs (·.concernsFrames = false) x) : Keeps E R (orFault x) (orFault x) := by
  cases x with
  | ok a => exact .pure a
  | error e => exact .throw fun p q hr => hR.fault hr (hx e rfl)

/-- The end of a pass ends alike. -/
theorem close_couples (hR : Hosts E R N A) : Keeps E R (close env) (close env) := by
  refine ((enter_plain _).couples hR.toAbsorbs).bind fun _ => ?_
  refine Couples.bind (hR.modify (fun _ => rfl) (fun _ => rfl) fun _ => rfl) fun _ => ?_
  refine (recordUsage_plain.couples hR.toAbsorbs).bind fun _ => ?_
  refine ((validate_steps (L := .full) rfl).couples hR.toAbsorbs).bind fun _ => ?_
  refine hR.read (fun _ => rfl) fun p => ?_
  refine (orFault_couples hR.toAbsorbs ((UniformSet.withPrograms_errs _).mono fun _ =>
    Fault.IsOfProgram.concernsFrames_eq)).bind fun slots => ?_
  refine Couples.bind (Steps.couples (L := .full) hR.toAbsorbs (.change (fun _ => rfl)
    (fun _ => rfl) fun p => { Abides.refl p with kept := nofun })) fun _ => ?_
  refine .get_bind fun p q hpq => ?_
  have hcore := hR.core hpq
  have hbodies : q.propertyBodies = p.propertyBodies :=
    (congrArg propertyBodies hcore.symm : q.core.propertyBodies = p.core.propertyBodies)
  have hdefines : q.defines env.material = p.defines env.material :=
    (congrArg (defines · env.material) hcore.symm :
      q.core.defines env.material = p.core.defines env.material)
  have hsource : ∀ bodies defines, (Shader.Parts.mk env.material q bodies defines).source =
      (Shader.Parts.mk env.material p bodies defines).source := fun bodies defines => by
    rw [source_core, ← hcore, ← source_core]
  rw [hbodies, hdefines, ← hR.success hpq]
  simp only [hsource]
  cases hok : p.propertyBodies with
  | error e => exact ⟨rfl, hR.fault hpq (propertyBodies_errs e hok)⟩
  | ok bodies =>
    have hentered := (enter_plain (if p.success then .success else .failed)).couples
      hR.toAbsorbs p q hpq
    have hsummary := hR.summary .info "translated material"
      (fun n => [("success", toString p.success), ("diagnostics", toString n),
        ("scalars", toString slots.scalars.length), ("vectors", toString slots.vectors.length),
        ("vtstacks", toString slots.layerStacks.length)]) hpq hentered.2 rfl
    exact ⟨rfl, hsummary.2⟩

/-- The state in which all phases begin. -/
def opened : Pass where
  trace := [.init]
  frames := List.replicate 5 {}
  openFrames := ⟨[0], [1], [2], [3], [4]⟩
  scopes := List.replicate 5 []
  stageScopes := ⟨0, 1, 2, 3, 4⟩
  log := [⟨.debug, "translator phase", [("state", "INIT")]⟩]

/-- A state in which a stage was given a scope and an outermost frame. -/
def withStage (p : Pass) (stage : Stage) : Pass :=
  { p with
    frames := p.frames ++ [{}], openFrames := p.openFrames.set stage [p.frames.length],
    scopes := p.scopes ++ [[]], stageScopes := p.stageScopes.set stage p.scopes.length }

theorem openStages_eq : (enter .init >>= fun _ => openStages) {} = .ok () opened := by
  have hstages : ∀ (stages : List Stage) (p : Pass), (stages.forM fun stage => do
      resetStack stage
      let scope ← newScope
      modify fun p : Pass => { p with stageScopes := p.stageScopes.set stage scope }) p =
        .ok () (stages.foldl withStage p) := by
    intro stages
    induction stages with
    | nil => exact fun _ => rfl
    | cons stage stages ih => exact fun p => ih (p.withStage stage)
  have henter : enter .init {} = .ok ()
      { trace := [.init], log := [⟨.debug, "translator phase", [("state", "INIT")]⟩] } := rfl
  rw [bind_of_ok henter]
  exact hstages Stage.all _

theorem runBy_eq (env : Environment) (g : ExpressionGraph) (compile : Compiler) :
    runBy env g compile {} = (compileAll env g compile >>= fun _ => finish env) opened := by
  have hassoc : runBy env g compile = (enter .init >>= fun _ => openStages) >>= fun _ =>
      compileAll env g compile >>= fun _ => finish env := by
    rw [bind_assoc]
    rfl
  rw [hassoc, bind_of_ok openStages_eq]

theorem run_eq (env : Environment) (g : ExpressionGraph) :
    run env (some g) {} = (compileAll env g g.compile >>= fun _ => finish env) opened :=
  runBy_eq env g g.compile

end Phases

end Pass

end ShaderGraph
