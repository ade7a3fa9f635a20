import ShaderGraph.Proofs.Failures
import ShaderGraph.Proofs.OutputNames
import ShaderGraph.Proofs.Reachability
import ShaderGraph.Proofs.StageFrames

/-!
# The limits of virtual textures

Virtual textures can be sampled for the properties of the pixel stage only, the opacity mask apart.
A compilation reports the properties past these limits before it compiles them: those that lead to a
node which says that it uses a virtual texture. One thing escapes that check. A texture parameter
may say that it is an ordinary one although its texture is virtual. Apart from that, a compilation
that succeeds samples no virtual texture for a property past the limits (`Pass.run_virtualLimits`).
The emission that is compiled again for the compute stage is not checked, but only light functions
have it, and they sample no virtual texture.

The nodes that lead to no virtual texture at all are a reserve (`Environment.sparing`), and the
frames of a stage are clean for it whatever else is compiled in the stage.
-/

namespace ShaderGraph

open Pass Relation

/-! ### What the check finds -/

/-- No virtual texture is referred to from a node on. -/
def Graph.Spares (g : Graph) (m : Material) (id : NodeId) : Prop :=
  ∀ n node, ReflTransGen g.Reads id n → g.node? n = some node →
    node.usesVirtualTexture = false ∧ node.isDisguised m = false

/-- The reserve of the nodes from which no virtual texture is referred to. -/
def Environment.sparing (env : Environment) (g : Graph) : Reserve where
  env := env
  nodes := g.Spares env.material
  licence := { implements := true, reports := true }
  reports := rfl
  sure := false

section Limits

variable {g : Graph} {env : Environment} {property : Property}

theorem Environment.sparing_closed : (env.sparing g).Closed g where
  pledge := rfl
  suits hid hnode := by
    refine ⟨fun _ => hid _ _ .refl hnode, fun h => ?_, fun h => by cases h⟩
    rcases h with h | h <;> cases h
  inputs hid hnode input hinput _ n node hn hfound :=
    hid n node (.head ⟨_, hnode, input, hinput, rfl⟩ hn) hfound

/-- The search follows the connections of the graph. -/
theorem Graph.leads_of_reads {id n : NodeId} {node : Node} (hreads : ReflTransGen g.Reads id n)
    (hnode : g.node? n = some node) (huses : node.usesVirtualTexture) :
    g.expressions.Leads [] id := by
  have hfound : ∀ {id node}, g.node? id = some node →
      g.expressions.node? id = some (node.expression g) := by
    intro id node h
    rw [Graph.node?_expressions, h]
    rfl
  induction hreads using ReflTransGen.head_induction_on with
  | refl => exact .here (by simp) (hfound hnode) huses
  | head hread _ ih =>
    obtain ⟨node', hnode', input, hinput, rfl⟩ := hread
    exact .step (by simp) (hfound hnode') hinput ih

/-- A property past the limits is checked, unless it is compiled for the compute stage. -/
theorem Property.exists_virtualTextureProblem
    (hlimited : property.base = .opacityMask ∨ property.stage ≠ .pixel)
    (hcompute : property.stage ≠ .compute) :
    property.base ∈ Property.connectable ∧
      ∃ problem, property.base.virtualTextureProblem? = some problem := by
  cases property with
  | customizedUV index =>
    refine ⟨?_, _, rfl⟩
    revert index
    decide
  | opacityMask => exact ⟨by decide, _, rfl⟩
  | worldPositionOffset => exact ⟨by decide, _, rfl⟩
  | previousWorldPositionOffset => exact ⟨by decide, _, rfl⟩
  | worldDisplacement => exact ⟨by decide, _, rfl⟩
  | tessellationMultiplier => exact ⟨by decide, _, rfl⟩
  | emissiveColorCompute => exact absurd rfl hcompute
  | _ => exact absurd hlimited (by decide)

/-- What a property past the limits reads, if the check has found nothing and no parameter is in
disguise. -/
theorem Graph.spares_of_limited (hlimits : virtualTextureProblems env.material g.expressions = [])
    (hlimited : property.base = .opacityMask ∨ property.stage ≠ .pixel)
    (hcompute : property.stage ≠ .compute)
    (hplain : ∀ n node, ReflTransGen g.Reads (env.material.inputs.get property.base).node n →
      g.node? n = some node → node.isDisguised env.material = false) :
    g.Spares env.material (env.material.inputs.get property.base).node := by
  intro n node hn hnode
  refine ⟨?_, hplain n node hn hnode⟩
  by_contra huses
  obtain ⟨hproperty, problem, hproblem⟩ := Property.exists_virtualTextureProblem hlimited hcompute
  have hreaches : g.expressions.reachesVirtualTexture (env.material.inputs.get property.base) :=
    (ExpressionGraph.reachesVirtualTexture_iff _).2 (leads_of_reads hn hnode (by simpa using huses))
  have hfound : problem ∈ virtualTextureProblems env.material g.expressions :=
    List.mem_filterMap.2 ⟨_, hproperty, by rw [if_pos hreaches, hproblem]⟩
  rw [hlimits] at hfound
  cases hfound

end Limits

/-! ### Watched compilations -/

/-- Looks out for virtual textures that are sampled for a property past the limits, unless a
parameter in disguise is read for that property. -/
def Graph.limits (g : Graph) (env : Environment) : Watch where
  asked _ _ := True
  answered ctx p _ q := ∀ property, ctx.property = some property →
    (property = .opacityMask ∨ ctx.stage ≠ .pixel) →
    (∀ n node, ReflTransGen g.Reads (env.material.inputs.get property).node n →
      g.node? n = some node → node.isDisguised env.material = false) →
    q.stats.virtualSamples = p.stats.virtualSamples
  before _ _ := True
  after _ _ _ _ := True

namespace Pass

section Runs

variable {g : Graph} {env : Environment} {ctx : Context}

theorem guarded_eq {before : Pass → Prop} {after : Pass → Code → Pass → Prop} {m : PassM Code}
    {p : Pass} (hbefore : before p) (hafter : p.Gives m fun c q => after p c q) (alarm : Fault) :
    guarded before after alarm m p = m p := by
  refine (if_pos hbefore).trans ?_
  cases hm : m p with
  | error e q => exact Observed.bind_of_error hm _
  | ok c q => exact (bind_of_ok hm).trans (if_pos (hafter c q hm))

/-- Nothing is looked out for where no property is compiled. -/
theorem ask_limits (h : ctx.property = none) (alarm : Fault) (c : Compiler) (input : Input) :
    (g.limits env).ask alarm c ctx input = c ctx input := by
  funext p
  have hanswered : ∀ (code : Code) (q : Pass), (g.limits env).answered ctx p code q := by
    intro code q property hproperty
    rw [h] at hproperty
    cases hproperty
  exact guarded_eq trivial (fun code q _ => hanswered code q) alarm

/-- **A property past the limits** is compiled without sampling virtual textures, unless a parameter
in disguise is read for it. -/
theorem compileProperty_limits (hlimits : virtualTextureProblems env.material g.expressions = [])
    {property : Property}
    (hdomain : property = .emissiveColorCompute → env.material.domain = .lightFunction) {p : Pass}
    (hp : p.Housed (env.sparing g) g.expressions none)
    (hctx : ctx = propertyContext env property (p.stageScopes.get property.stage)) :
    p.Gives (g.expressions.compile ctx (env.material.inputs.get property.base)) fun c q =>
      q.Housed (env.sparing g) g.expressions none ∧ (g.limits env).answered ctx p c q := by
  subst hctx
  have hcompiled := fun (quiet : Prop)
      (hquiet : quiet → (env.sparing g).Asks (env.material.inputs.get property.base)) =>
    (hp.course (rfl : (propertyContext env property (p.stageScopes.get property.stage)).env = env)
      rfl fun ρ => Environment.sparing_closed.compiles g.expressions.depth hquiet).2
  by_cases hcompute : property.stage = .compute
  · have hproperty : property = .emissiveColorCompute := by
      cases property <;> first | rfl | cases hcompute
    intro c q hq
    refine ⟨(hcompiled False nofun c q hq).1, fun _ _ _ _ => ?_⟩
    -- No domain but those of surfaces and decals samples virtual textures.
    refine (Graph.compileAt_minds (L := { implements := true, reports := true }) _ _ _
      ⟨.inr ?_, .inl rfl, .inl rfl⟩ p c q hq).virtualSamples rfl
    show env.material.domain.isSurfaceOrDecal = false
    rw [hdomain hproperty]
    rfl
  · intro c q hq
    obtain ⟨hhoused, hlicensed⟩ := hcompiled
      ((env.sparing g).Asks (env.material.inputs.get property.base)) id c q hq
    refine ⟨hhoused, fun base hbase hlimited hplain => (hlicensed fun _ => ?_).virtualSamples rfl⟩
    cases hbase
    exact Graph.spares_of_limited hlimits hlimited hcompute hplain

/-- **The limits of virtual textures** are kept by a compilation that succeeds with virtual
textures: it does not change if it is made to break off wherever the opacity mask or a property of
another stage than that of pixels samples a virtual texture, the properties apart for which a
texture parameter in disguise is read. -/
theorem run_virtualLimits {o : Outcome} {p : Pass} (hvirtual : env.options.virtualTexturing)
    (h : run env (some g.expressions) {} = .ok o p) (hsuccess : o.success = true)
    (alarm : Fault) :
    runBy env g.expressions ((g.limits env).ask alarm g.expressions.compile) {} = .ok o p := by
  have ho := run_concluded (some g) h
  have hlimits : virtualTextureProblems env.material g.expressions = [] :=
    (run_named g.expressions_safe h (ho.success ▸ hsuccess)).1.1 hvirtual
  have hall : compileAll env g.expressions
      ((g.limits env).ask alarm g.expressions.compile) opened =
        compileAll env g.expressions g.expressions.compile opened := by
    refine Graph.compileAll_housed (R := env.sparing g) nofun Environment.sparing_closed.alike rfl
      (fun input h => ask_limits h alarm _ input) (fun property p hdomain hp ctx hctx => ?_)
      fun _ => rfl
    have hgives := compileProperty_limits hlimits hdomain hp hctx
    exact ⟨guarded_eq trivial (hgives.mono fun _ _ h => h.2) alarm,
      hgives.mono fun _ _ h => h.1⟩
  rw [run_eq] at h
  obtain ⟨_, q, hcompiled, hfinish⟩ := exists_of_bind h
  rw [runBy_eq, bind_of_ok (hall.trans hcompiled)]
  exact hfinish

end Runs

end Pass

/-- A sample of an ordinary texture and one of a virtual texture. -/
def Builder.sampling : Builder where
  strict := true
  graph :=
    { nodes := [.textureSample {}, .textureSample { textureIndex := 1, sampler := .virtualColor }] }

theorem Builder.sampling_built : sampling.Built true :=
  .step (.step .start (.textureSample {}) rfl)
    (.textureSample { textureIndex := 1, sampler := .virtualColor }) rfl

/-- The material that is displaced by the ordinary texture and colored by the virtual one. -/
def samplingMaterial : Environment where
  material :=
    { inputs := ((PropertyTable.const Input.none).set .worldPositionOffset ⟨1, 0⟩).set
        .baseColor ⟨2, 0⟩
      textures := [{ name := "T", type := .texture2D, sizeX := 4, sizeY := 4 },
        { name := "VT", type := .textureVirtual, sizeX := 4, sizeY := 4 }] }
  options := { virtualTexturing := true }

/-- Of the three samples, only that of the color is one of a virtual texture. -/
theorem Pass.run_virtualLimits_sampling :
    Builder.sampling.Built true ∧
    ∃ o p, run samplingMaterial (some Builder.sampling.graph.expressions) {} = .ok o p ∧
      o.success = true ∧ o.stats.virtualSamples = 1 ∧
      runBy samplingMaterial Builder.sampling.graph.expressions
        ((Builder.sampling.graph.limits samplingMaterial).ask .noSuchStage
          Builder.sampling.graph.expressions.compile) {} = .ok o p := by
  obtain ⟨o, p, h, hsuccess, hsamples⟩ :
      ∃ o p, run samplingMaterial (some Builder.sampling.graph.expressions) {} = .ok o p ∧
        o.success = true ∧ o.stats.virtualSamples = 1 := by decide +kernel
  exact ⟨Builder.sampling_built, o, p, h, hsuccess, hsamples,
    run_virtualLimits rfl h hsuccess .noSuchStage⟩

/-- A sample through a texture parameter that says that its texture is an ordinary one. -/
def Builder.disguised : Builder where
  strict := true
  graph :=
    { nodes := [.textureObjectParameter "Tex" 0 .color, .textureSample { texture := ⟨1, 0⟩ }] }

theorem Builder.disguised_built : disguised.Built true :=
  .step (.step .start (.textureObjectParameter "Tex" 0 .color) rfl)
    (.textureSample { texture := ⟨1, 0⟩ }) rfl

/-- The material that is displaced by it, but gives the parameter a virtual texture. -/
def disguisedMaterial : Environment where
  material :=
    { inputs := (PropertyTable.const Input.none).set .worldPositionOffset ⟨2, 0⟩
      textures := [{ name := "VT", type := .textureVirtual, sizeX := 1024, sizeY := 1024 }] }
  options := { virtualTexturing := true }

/-- The virtual texture is sampled for the offset and for that of the previous frame, and nothing is
reported. -/
theorem Pass.run_disguised :
    Builder.disguised.Built true ∧
    (∀ property ∈ Property.all, (disguisedMaterial.material.inputs.get property).isConnected →
      property.stage = .vertex) ∧
    ∃ o p, run disguisedMaterial (some Builder.disguised.graph.expressions) {} = .ok o p ∧
      o.success = true ∧ o.diagnostics = [] ∧ o.stats.virtualSamples = 2 :=
  ⟨Builder.disguised_built, by decide, by decide +kernel⟩

end ShaderGraph
