import ShaderGraph.Outcome
import ShaderGraph.Proofs.PlainSteps

/-!
# What holds of every phase

The phases after the interpolators are made from a few kinds of steps besides what they compile. A
relation between a step and a family of steps that holds of these, and is kept when steps are put
together (`Pass.PhaseLogic`), holds of all these phases as soon as it holds of what a material asks
for (`Pass.PhaseLogic.compileRest`).
-/

namespace ShaderGraph

namespace Pass

/-! ### The list of custom outputs -/

section Listed

variable {env : Environment} {g : ExpressionGraph} {id : NodeId}

theorem compileListed_of_none (h : (g.node? id).bind (·.customOutput?) = none)
    (compile : Compiler) (before : Bool) :
    compileListed env g compile before id = reportGlobally (.notCustomOutput id) := by
  unfold compileListed
  cases hnode : g.node? id with
  | none => rfl
  | some e =>
    rw [hnode, Option.bind_some] at h
    simp only [h]

theorem compileListed_of_some {e : Expression} {out : CustomOutput} (h : g.node? id = some e)
    (hout : e.customOutput? = some out) (compile : Compiler) (before : Bool) :
    compileListed env g compile before id =
      if out.beforeProperties = before then compileCustomOutput env compile id e out
      else pure () := by
  simp only [compileListed, h, hout]

end Listed

theorem isOrdinary_of_mem_virtualTextureProblems {m : Material} {g : ExpressionGraph}
    {problem : Problem} (h : problem ∈ virtualTextureProblems m g) : problem.isOrdinary := by
  obtain ⟨property, -, hproblem⟩ := List.mem_filterMap.1 h
  split at hproblem
  · unfold Property.virtualTextureProblem? at hproblem
    split at hproblem
    · cases hproblem
      rfl
    · split at hproblem
      · cases hproblem
      · cases hproblem
        rfl
  · cases hproblem

/-! ### The logic -/

/-- A relation between a step and a family of steps that is kept when steps are put together, and
holds of what phases do besides compiling what is asked for. -/
structure PhaseLogic {ι : Type} (P : (α : Type) → PassM α → (ι → PassM α) → Prop) : Prop where
  pure : ∀ {α : Type} (a : α), P _ (pure a) fun _ => pure a
  bind : ∀ {α β : Type} {s : PassM α} {n : ι → PassM α} {f : α → PassM β} {k : ι → α → PassM β},
    P _ s n → (∀ a, P _ (f a) fun i => k i a) → P _ (s >>= f) fun i => n i >>= k i
  /-- What is read is in the core. -/
  read : ∀ {α : Type} {f : Pass → PassM α} {k : Pass → ι → PassM α}, (∀ p, k p = k p.core) →
    (∀ p, P _ (f p) (k p)) → P _ (get >>= f) fun i => get >>= fun p => k p i
  noSuchStage : P Unit (throw .noSuchStage) fun _ => throw .noSuchStage
  enter : ∀ phase, P _ (enter phase) fun _ => enter phase
  noted : ∀ attributes, P _ (note .debug "compiled custom output" attributes) fun _ =>
    note .debug "compiled custom output" attributes
  report : ∀ {problem : Problem}, problem.isOrdinary →
    P _ (reportGlobally problem) fun _ => reportGlobally problem
  named : ∀ name, P _ (modify fun p => { p with customOutputNames := name :: p.customOutputNames })
    fun _ => modify fun p => { p with customOutputNames := name :: p.customOutputNames }
  defined : ∀ define, P _ (modify fun p => { p with customDefines := p.customDefines ++ [define] })
    fun _ => modify fun p => { p with customDefines := p.customDefines ++ [define] }

namespace PhaseLogic

/-- A property is asked for as it is: the normal is compiled apart, a parameter is appended to two
others, and only light functions compile their emission for the compute stage. -/
def Asked (env : Environment) (property : Property) : Prop :=
  property ≠ .normal ∧ property ≠ .subsurfaceColor ∧ property ≠ .refraction ∧
    (property = .emissiveColorCompute → env.material.domain = .lightFunction)

section Asks

variable {ι : Type} (P : (α : Type) → PassM α → (ι → PassM α) → Prop) (env : Environment)
variable (g : ExpressionGraph) (c : Compiler) (g' : ι → ExpressionGraph) (d : ι → Compiler)

/-- What the properties of a material ask of a compiler is related to what they ask of a family of
them. -/
structure AsksProperties : Prop where
  property : ∀ property, Asked env property →
    P Unit (do let _ ← compileProperty env c property) fun i => do
      let _ ← compileProperty env (d i) property
  subsurface : P _ (compileSubsurface env c) fun i => compileSubsurface env (d i)
  refraction : P _ (compileRefraction env c) fun i => compileRefraction env (d i)

/-- The same with the normal. -/
structure AsksNormal : Prop extends AsksProperties P env c d where
  normal : P Unit (do let _ ← compileProperty env c .normal) fun i => do
    let _ ← compileProperty env (d i) .normal
  normalEnd : P _
    (modify fun p => { p with normalEnd := (p.scope (p.stageScopes.get .pixel)).length }) fun _ =>
      modify fun p => { p with normalEnd := (p.scope (p.stageScopes.get .pixel)).length }

/-- What the custom outputs of a material ask of a graph and its compiler is related to what they
ask of a family of them. -/
structure AsksOutputs : Prop where
  customOutput : ∀ id, ((g.node? id).bind (·.customOutput?) = none ∧
      ∀ i, ((g' i).node? id).bind (·.customOutput?) = none) ∨
    ∃ e, ∃ e' : ι → Expression, ∃ out, (g.node? id = some e ∧ e.customOutput? = some out) ∧
      (∀ i, (g' i).node? id = some (e' i) ∧ (e' i).customOutput? = some out) ∧
      ∀ stage, P _ (compileFunctions env c id e out.outputs stage) fun i =>
        compileFunctions env (d i) id (e' i) out.outputs stage

/-- All that a material asks for. -/
structure Asks : Prop extends AsksNormal P env c d, AsksOutputs P env g c g' d where
  virtualTextures : env.options.virtualTexturing →
    ∀ i, virtualTextureProblems env.material (g' i) = virtualTextureProblems env.material g

end Asks

variable {ι : Type} {P : (α : Type) → PassM α → (ι → PassM α) → Prop} {env : Environment}
variable {g : ExpressionGraph} {c : Compiler} {g' : ι → ExpressionGraph} {d : ι → Compiler}
variable {α : Type} (L : PhaseLogic P)

include L

theorem forM {β : Type} {l : List β} {f : β → PassM PUnit} {k : ι → β → PassM PUnit}
    (h : ∀ a ∈ l, P _ (f a) fun i => k i a) : P _ (l.forM f) fun i => l.forM (k i) := by
  induction l with
  | nil => exact L.pure _
  | cons a l ih => exact L.bind (h a (by simp)) fun _ => ih fun b hb => h b (by simp [hb])

/-- A step that is taken or not. -/
theorem optional {b : Prop} [Decidable b] {s : PassM Unit} {n : ι → PassM Unit}
    {f : Unit → PassM α} {k : ι → Unit → PassM α} (hs : b → P _ s n)
    (hf : P _ (f ()) fun i => k i ()) :
    P _ (if b then s >>= f else f ()) fun i => if b then n i >>= k i else k i () := by
  by_cases h : b
  · simp only [if_pos h]
    exact L.bind (hs h) fun _ => hf
  · simp only [if_neg h]
    exact hf

section Properties

variable (hA : AsksProperties P env c d)

include hA

theorem compileProperties {properties : List Property}
    (h : ∀ property ∈ properties, Asked env property) :
    P _ (Pass.compileProperties env c properties) fun i =>
      Pass.compileProperties env (d i) properties :=
  L.forM fun property hmem => hA.property property (h property hmem)

theorem compileRemaining :
    P _ (Pass.compileRemaining env c) fun i => Pass.compileRemaining env (d i) := by
  unfold Pass.compileRemaining
  refine L.bind (L.compileProperties hA (by simp [Asked])) fun _ =>
    L.read (fun _ => rfl) fun p => ?_
  refine L.optional (fun _ => hA.subsurface) ?_
  refine L.bind (L.compileProperties hA (by simp [Asked])) fun _ => ?_
  refine L.optional (fun _ => hA.refraction) ?_
  refine L.optional (fun hdomain => L.compileProperties hA (by simp [Asked, hdomain])) ?_
  refine L.read (fun _ => rfl) fun q => ?_
  exact L.optional (fun _ => L.compileProperties hA (by simp [Asked]))
    (L.compileProperties hA (by simp [Asked]))

theorem compileCoordinates :
    P _ (Pass.compileCoordinates env c) fun i => Pass.compileCoordinates env (d i) :=
  L.read (fun _ => rfl) fun _ => L.compileProperties hA (by simp [Asked])

end Properties

theorem compileNormal (hA : AsksNormal P env c d) :
    P _ (Pass.compileNormal env c) fun i => Pass.compileNormal env (d i) :=
  L.bind (L.enter _) fun _ => L.bind (L.bind hA.normal fun _ => L.pure _) fun _ => hA.normalEnd

section Outputs

variable (hA : AsksOutputs P env g c g' d)

theorem compileNamedOutput {e : Expression} {id : NodeId} {out : CustomOutput}
    (d : ι → Compiler) (e' : ι → Expression)
    (h : ∀ stage, P _ (compileFunctions env c id e out.outputs stage) fun i =>
      compileFunctions env (d i) id (e' i) out.outputs stage) :
    P _ (Pass.compileNamedOutput env c id e out) fun i =>
      Pass.compileNamedOutput env (d i) id (e' i) out := by
  unfold Pass.compileNamedOutput
  refine L.optional (fun _ => L.defined _) ?_
  cases out.stage with
  | none => exact L.bind L.noSuchStage fun _ => L.noted _
  | some stage => exact L.bind (h stage) fun _ => L.noted _

include hA

/-- A node of the list of custom outputs. -/
theorem compileListed (before : Bool) (id : NodeId) :
    P _ (Pass.compileListed env g c before id) fun i =>
      Pass.compileListed env (g' i) (d i) before id := by
  rcases hA.customOutput id with ⟨h, h'⟩ | ⟨e, e', out, h, h', hfunctions⟩
  · simp only [compileListed_of_none h, compileListed_of_none (h' _)]
    exact L.report rfl
  simp only [compileListed_of_some h.1 h.2, compileListed_of_some (h' _).1 (h' _).2]
  by_cases hround : out.beforeProperties = before
  · simp only [if_pos hround]
    refine L.read (fun _ => rfl) fun p => ?_
    by_cases hknown : (!out.allowsMultiple && p.customOutputNames.contains out.name) = true
    · simp only [if_pos hknown]
      exact L.report rfl
    · simp only [if_neg hknown]
      exact L.bind (L.named _) fun _ => L.compileNamedOutput d e' hfunctions
  · simp only [if_neg hround]
    exact L.pure _

/-- A round of custom outputs. -/
theorem compileCustomOutputs (before : Bool) :
    P _ (Pass.compileCustomOutputs env g c before) fun i =>
      Pass.compileCustomOutputs env (g' i) (d i) before :=
  L.forM fun id _ => L.compileListed hA before id

end Outputs

variable (hA : Asks P env g c g' d)

include hA

/-- All that comes after the limits of virtual textures are checked. -/
theorem compileRounds :
    P _ (Pass.compileRounds env g c) fun i => Pass.compileRounds env (g' i) (d i) := by
  refine L.bind (L.compileCustomOutputs hA.toAsksOutputs true) fun _ => ?_
  refine L.bind (L.compileNormal hA.toAsksNormal) fun _ => L.bind (L.enter _) fun _ => ?_
  refine L.bind (L.compileRemaining hA.toAsksProperties) fun _ => L.bind (L.enter _) fun _ => ?_
  exact L.bind (L.compileCustomOutputs hA.toAsksOutputs false) fun _ =>
    L.compileCoordinates hA.toAsksProperties

/-- **All that comes after the interpolators.** -/
theorem compileRest :
    P _ (Pass.compileRest env g c) fun i => Pass.compileRest env (g' i) (d i) := by
  unfold Pass.compileRest
  by_cases h : env.options.virtualTexturing = true
  · simp only [if_pos h, hA.virtualTextures h]
    refine L.bind (L.enter _) fun _ => L.bind (L.forM fun problem hproblem => ?_) fun _ =>
      L.compileRounds hA
    exact L.report (isOrdinary_of_mem_virtualTextureProblems hproblem)
  · simp only [if_neg h]
    exact L.compileRounds hA

end PhaseLogic

end Pass

end ShaderGraph
