import ShaderGraph.Proofs.InlinedCalls

/-!
# Calls mean their bodies

A material compiles to the same shader whether its functions are called or inlined
(`Graph.inlined_outcome`). The two compilations go side by side. Each node is compiled as its copy
for the chain of calls that leads to it (`Graph.compileAt_beside`): one key after the other comes
into progress and leaves it in both, in the frames of the calls on one side and in the outermost
frame on the other. Between compilations only the outermost frames are open on both sides
(`Pass.RestMirror`), so all phases end alike.
-/

namespace ShaderGraph

open Pass

/-! ### Nodes and their copies -/

/-- Two compilers do alike on all that may be compiled and on its copies. -/
def MirrorsAlike (g : Graph) (keys : Finset Key) (previousFrame : Bool) (c d : Compiler) : Prop :=
  ∀ {ctx : Context} {input : Input} {L R : View} {home : Nat} {stack : List Nat} {links : List Key},
    ctx.previousFrame = previousFrame →
    Abreast g keys previousFrame ctx.stage L R home stack links →
    Admits g.expressions (some g.height) keys L.nesting (home :: stack) ctx input →
    ((g.expressions.node? input.node).isSome → g.Nested (links.map Key.node) input.node) →
    Keeps anyFault (Beside (Framed g L R)) (c ctx input)
      (g.onCopies (links.map Key.node) d ctx input)

namespace Node

variable {g : Graph} {node : Node}

theorem call?_of_stays (h : node.staysInFrame) : (node.expression g).call? = none := by
  cases node <;> first | rfl | cases h

theorem selectOutput_beside {F : Pass → Pass → Prop} (hF : SeesFrames F) {ctx ctx' : Context}
    {f : FunctionId} {arguments : List Input} {output : Int} {select select' : Input → PassM Code}
    (h : ∀ id ∈ (g.function f).outputs, Keeps anyFault (Beside F)
      (select { node := id }) (select' { node := id })) :
    Keeps anyFault (Beside F) (selectOutput g ctx f arguments output select)
      (selectOutput g ctx' f arguments output select') := by
  unfold selectOutput
  dsimp only
  split
  · exact Beside.report hF _ _ _ _
  split
  · exact Beside.report hF _ _ _ _
  rename_i id hid
  refine h id ?_
  split at hid
  · cases hid
  · exact List.mem_of_getElem? hid

section Copy

variable {keys : Finset Key} {previousFrame : Bool} {c d : Compiler} {ctx : Context} {L R : View}
variable {home : Nat} {stack : List Nat} {links : List Key} {κ : Key}

/-- **A node is compiled as its copy** once their keys are in progress. -/
theorem compile_beside (hacyclic : g.Acyclic) (hkeys : g.expressions.HasKeys keys previousFrame)
    (hmirror : MirrorsAlike g keys previousFrame c d) (hnode : g.node? κ.node = some node)
    (hctx : ctx.node = κ.node) (hprevious : ctx.previousFrame = previousFrame)
    (h : Abreast g keys previousFrame ctx.stage L R home stack links) (hκ : κ ∈ keys)
    (hover : Over (some g.height) L.nesting (home :: stack) κ.node)
    (hnested : g.Nested (links.map Key.node) κ.node)
    (hnone : (node.expression g).call? = none → ctx.shared = none)
    (hgives : (node.expression g).call?.isSome → GivesFrame L.ties home κ ctx.shared)
    (output : Int) :
    Keeps anyFault (Within g L R ctx.stage home (links.map Key.node) κ)
      (node.compile g c ctx output)
      (node.compileCopy g (links.map Key.node) κ.node d { ctx with shared := none } output) := by
  have hexpression : g.expressions.node? κ.node = some (node.expression g) :=
    Graph.node?_expression hnode
  have hrank := hacyclic.forall_ranks
  have hnew := hover.not_mem_active rfl rfl
  have hentered := h.enter hκ hnew (hnested.mem_copies (Graph.mem_ids_of_node? hnode))
  have hinput : ∀ i ∈ node.inputs g,
      Keeps anyFault (Within g L R ctx.stage home (links.map Key.node) κ) (c ctx i)
        (g.onCopies (links.map Key.node) d ctx i) := fun i hi =>
    hmirror hprevious hentered (.input hrank hkeys hprevious hκ hexpression hi hover) fun hsome =>
      hnested.below (hacyclic.ranks hexpression i hi hsome)
  have hidle : (node.expression g).call? = none → { ctx with shared := none } = ctx := by
    intro hcall
    rw [← hnone hcall]
  by_cases hstays : node.staysInFrame
  · rw [compileCopy_of_stays hstays, hidle (call?_of_stays hstays), ← hctx]
    exact (node.compile_built g hstays output).couples (Beside.absorbs Framed.seesFrames)
      (Beside.readInterpolator Framed.seesFrames ctx) hinput
  cases node with
  | functionInput f index name type preview =>
    rw [hidle rfl, ← hctx]
    refine functionArgument_beside hentered (hinput preview (by simp [inputs])) ?_
    rintro below rest κ' callers e call rfl rfl he hcall hconnected
    have hmem := Graph.argument_mem_inputs he hcall hconnected
    refine hmirror hprevious hentered.pop
      (.argument hrank hkeys hprevious he hmem hentered.poised) fun hsome => ?_
    exact hnested.caller.below (hacyclic.ranks he _ hmem hsome)
  | functionCall f arguments =>
    obtain ⟨b, t, hshared, ht, hb⟩ := hgives rfl
    obtain ⟨hlt, e, call, he, hcall, hframe⟩ := h.poised.ties.child ht hb
    cases hexpression.symm.trans he
    cases hcall
    obtain ⟨t', ht', heq⟩ := Option.map_eq_some_iff.1 hframe
    refine selectOutput_beside Framed.seesFrames fun id hid => ?_
    have hmem : ({ node := id } : Input) ∈ (functionCall f arguments).inputs g :=
      List.mem_append_right _ (List.mem_map_of_mem hid)
    rw [← hctx]
    refine callFunction_beside hshared ht' (congrArg Prod.fst heq) ?_
    have hopened : (L.enter home κ).nesting.opened ctx.stage = home :: stack := h.poised.opened
    have hpushed := hentered.push ht hb hlt (Nesting.mem_enter.2 (.inl ⟨rfl, rfl⟩))
      (not_mem_links h.poised hnew) (le_of_over hover)
    have hprevious' : Context.previousFrame { ctx with node := κ.node, shared := none } =
      previousFrame := hprevious
    rw [hopened, hctx]
    refine hmirror hprevious' hpushed
      (.body hrank hkeys hprevious' hκ hexpression hmem hover h.poised ht hb) fun hsome => ?_
    exact hnested.called (Graph.mem_calls.2 ⟨f, arguments, hnode⟩)
      (hacyclic.ranks hexpression _ hmem hsome)
  | _ => exact absurd rfl hstays

end Copy

end Node

/-! ### Graphs -/

namespace Graph

variable {g : Graph} {keys : Finset Key} {previousFrame : Bool}

theorem node?_copyInput {input : Input} {chain : List NodeId} (h : input.isConnected)
    (hnode : g.node? input.node = none) :
    g.inlined.node? (g.copyInput chain input).node = none := by
  rw [copyInput_node h]
  cases hcopy : g.inlined.node? (g.copyNumber chain input.node) with
  | none => rfl
  | some e =>
    obtain ⟨node, hsome⟩ := node?_of_mem_copies (mem_copies_of_node? hcopy)
    rw [hnode] at hsome
    cases hsome

/-- **Compilers of a graph and of the inlined graph** with the same depth do alike. -/
theorem compileAt_beside (hacyclic : g.Acyclic)
    (hkeys : g.expressions.HasKeys keys previousFrame) (n : Nat) :
    MirrorsAlike g keys previousFrame (g.expressions.compileAt n) (g.inlined.compileAt n) := by
  induction n using Nat.strong_induction_on with
  | _ n ih =>
  intro ctx input L R home stack links hprevious h hadmits hnested
  unfold onCopies
  rw [ExpressionGraph.compileAt_eq, ExpressionGraph.compileAt_eq, isConnected_copyInput]
  split
  case isFalse => exact .pure none
  rename_i hconnected
  cases hnode : g.node? input.node with
  | none =>
    have hmissing : g.expressions.node? input.node = none := by
      rw [node?_expressions, hnode]
      rfl
    rw [hmissing, node?_copyInput hconnected hnode]
    exact Beside.report Framed.seesFrames _ _ _ _
  | some node =>
    have hexpression : g.expressions.node? input.node = some (node.expression g) :=
      node?_expression hnode
    have hnested' := hnested (by rw [hexpression]; rfl)
    have hmem := hnested'.mem_copies (mem_ids_of_node? hnode)
    have hcopy : g.inlined.node? (g.copyInput (links.map Key.node) input).node =
        some (node.copy g (links.map Key.node) input.node) := by
      rw [copyInput_node hconnected]
      exact node?_copyNumber hmem hnode
    obtain ⟨hκ, hover⟩ := hadmits _ hexpression
    rw [hexpression, hcopy]
    cases n with
    | zero => exact .throw fun _ _ _ => trivial
    | succ n =>
      refine compileExpression_beside h hconnected rfl hκ hmem (hover.not_mem_active rfl rfl) ?_
      refine compileFresh_beside h hnode rfl hκ hmem fun ties shared hgrows hties hnone hgives => ?_
      have hprevious' : Context.previousFrame { ctx with node := input.node, shared } =
        previousFrame := hprevious
      exact Node.compile_beside hacyclic hkeys (ih n (Nat.lt_succ_self n)) hnode rfl hprevious'
        (h.mono hgrows hties) hκ hover hnested' hnone hgives _

end Graph

/-! ### Rest -/

namespace Pass

variable {p : Pass} {roots : Stage → Nat}

/-- Two states at rest, with the given outermost frames of the stages. -/
structure Rests (g : Graph) (roots roots' : Stage → Nat) (p q : Pass) : Prop where
  left : AtRest g.expressions p
  right : AtRest g.inlined q
  opened : ∀ stage, p.openFrames.get stage = [roots stage]
  opened' : ∀ stage, q.openFrames.get stage = [roots' stage]
  injective : Function.Injective roots
  injective' : Function.Injective roots'
  memos : Memos g roots roots' p q

/-- A pass over a graph beside one over the inlined graph, between compilations. -/
def RestMirror (g : Graph) : Pass → Pass → Prop :=
  Beside fun p q => ∃ roots roots', Rests g roots roots' p q

theorem AtRest.outermost {G : ExpressionGraph} (h : AtRest G p) {stage : Stage} {root : Nat}
    (hopen : p.openFrames.get stage = [root]) : ∃ t, p.ties[root]? = some t ∧ t.call = none := by
  obtain ⟨root', t, hopen', ht, hcall⟩ := h.roots stage
  obtain ⟨rfl, -⟩ := List.cons.inj (hopen.symm.trans hopen')
  exact ⟨t, ht, hcall⟩

theorem openFrames_restarted (h : ∀ stage, p.openFrames.get stage = [roots stage])
    (stage stage' : Stage) :
    (p.restarted stage).openFrames.get stage' =
      [Function.update roots stage p.frames.length stage'] := by
  by_cases hstage : stage' = stage
  · subst hstage
    rw [Function.update_self]
    exact StageTable.get_set_self ..
  · rw [Function.update_of_ne hstage, ← h stage']
    exact StageTable.get_set_of_ne _ hstage _

/-- The outermost frames stay different if one of them is new. -/
theorem Rooted.injective_update (h : Rooted roots p.ties) (stage : Stage) :
    Function.Injective (Function.update roots stage p.frames.length) := by
  have hne : ∀ stage', roots stage' ≠ p.frames.length := fun stage' =>
    Nat.ne_of_lt (length_ties ▸ h.lt_length stage')
  intro a b hab
  by_cases ha : a = stage <;> by_cases hb : b = stage
  · rw [ha, hb]
  · rw [ha, Function.update_self, Function.update_of_ne hb] at hab
    exact absurd hab.symm (hne b)
  · rw [hb, Function.update_self, Function.update_of_ne ha] at hab
    exact absurd hab (hne a)
  · rw [Function.update_of_ne ha, Function.update_of_ne hb] at hab
    exact h.injective hab

namespace Rests

variable {g : Graph} {roots roots' : Stage → Nat} {p q p' q' : Pass}

theorem rooted (h : Rests g roots roots' p q) : Rooted roots p.ties :=
  ⟨h.injective, fun stage => h.left.outermost (h.opened stage)⟩

theorem rooted' (h : Rests g roots roots' p q) : Rooted roots' q.ties :=
  ⟨h.injective', fun stage => h.right.outermost (h.opened' stage)⟩

/-- What a compilation that ends leaves is at rest again. -/
theorem of_framed (h : Rests g roots roots' p q)
    (h' : Framed g ⟨roots, p.nesting, p.ties⟩ ⟨roots', q.nesting, q.ties⟩ p' q') :
    Rests g roots roots' p' q' where
  left := h.left.of_stands h'.left
  right := h.right.of_stands h'.right
  opened stage := (h'.openFrames_left stage).trans (h.opened stage)
  opened' stage := (h'.openFrames_right stage).trans (h.opened' stage)
  injective := h.injective
  injective' := h.injective'
  memos := h'.memos

theorem framed (h : Rests g roots roots' p q) :
    Framed g ⟨roots, p.nesting, p.ties⟩ ⟨roots', q.nesting, q.ties⟩ p q :=
  ⟨h.left.stands, h.right.stands, h.memos⟩

/-- Where a compilation that begins at rest stands. -/
theorem abreast {keys : Finset Key} {previousFrame : Bool} (h : Rests g roots roots' p q)
    (hplain : ∀ κ ∈ keys, κ.ofCall = Key.ofNode κ.node previousFrame) (stage : Stage) :
    Abreast g keys previousFrame stage ⟨roots, p.nesting, p.ties⟩ ⟨roots', q.nesting, q.ties⟩
      (roots stage) [] [] where
  poised := by
    obtain ⟨root, hpoised⟩ : ∃ root, Poised g.expressions (some g.height) keys stage p.nesting
      p.ties [root] [] := h.left.poised stage
    obtain ⟨rfl, -⟩ := List.cons.inj (hpoised.opened.symm.trans (h.opened stage))
    exact hpoised
  plain := hplain
  outermost := rfl
  rooted := h.rooted
  injective := h.injective'
  opened := h.opened' stage
  inside := h.rooted'.lt_length stage
  follows κ' hκ' := by
    have hidle := h.right.idle (roots' stage)
    change κ' ∈ q.nesting.active (roots' stage) at hκ'
    rw [hidle] at hκ'
    cases hκ'

/-- A stage leaves its frames for a fresh one on both sides. -/
theorem restarted (h : Rests g roots roots' p q) (stage : Stage) :
    Rests g (Function.update roots stage p.frames.length)
      (Function.update roots' stage q.frames.length) (p.restarted stage) (q.restarted stage) where
  left := h.left.restarted stage
  right := h.right.restarted stage
  opened := openFrames_restarted h.opened stage
  opened' := openFrames_restarted h.opened' stage
  injective := h.rooted.injective_update stage
  injective' := h.rooted'.injective_update stage
  memos := h.memos.restarted stage

end Rests

namespace RestMirror

variable {g : Graph}

theorem seesFrames : SeesFrames fun p q => ∃ roots roots', Rests g roots roots' p q := by
  rintro p q p' q' ⟨roots, roots', h⟩ hframes hopen hframes' hopen'
  exact ⟨roots, roots', h.of_framed (h.framed.seesFrames hframes hopen hframes' hopen')⟩

theorem hosts :
    Hosts anyFault (RestMirror g) (fun _ => RestMirror g) (fun _ => RestMirror g) where
  toAbsorbs := Beside.absorbs seesFrames
  fresh _ := Beside.absorbs seesFrames
  apart _ := Beside.absorbs seesFrames
  settle _ h := h
  leave _ h := h
  reset stage := by
    rintro p q ⟨halike, roots, roots', h⟩
    exact ⟨rfl, halike.congr rfl rfl, _, _, h.restarted stage⟩
  hold h := ⟨⟨h.1.core, h.1.success, h.1.reports, rfl, h.1.interpolatorErrors⟩,
    seesFrames h.2 rfl rfl rfl rfl⟩
  keep {p q} id h := by
    refine ⟨⟨h.1.core, h.1.success, h.1.reports, h.1.sink, ?_⟩, seesFrames h.2 rfl rfl rfl rfl⟩
    have hlength : (p.sink.getD []).length = (q.sink.getD []).length := by
      have hsink := congrArg (Option.getD · 0) h.1.sink
      cases hp : p.sink <;> cases hq : q.sink <;> simp_all
    rw [List.map_cons, List.map_cons, h.1.interpolatorErrors, hlength]
  release h := ⟨⟨h.1.core, h.1.success, h.1.reports, rfl, h.1.interpolatorErrors⟩,
    seesFrames h.2 rfl rfl rfl rfl⟩
  success h := h.1.success
  summary {p q p' q'} level message attributes h h' hsuccess := by
    refine ⟨rfl, ⟨h'.1.core, h'.1.success, fun hclear => ?_, h'.1.sink, h'.1.interpolatorErrors⟩,
      seesFrames h'.2 rfl rfl rfl rfl⟩
    -- As long as nothing was reported, both sides sum up the same.
    obtain ⟨hdiagnostics, -⟩ := h.1.reports (hsuccess ▸ hclear)
    obtain ⟨hdiagnostics', hlog⟩ := h'.1.reports hclear
    refine ⟨hdiagnostics', ?_⟩
    rw [hdiagnostics]
    exact congrArg (· ++ _) hlog

end RestMirror

/-- All phases begin at rest. -/
theorem restMirror_opened {g : Graph} : RestMirror g opened opened := by
  have hmemo : ∀ f κ, opened.memo? f κ = none := by
    intro f κ
    unfold memo? opened
    rw [List.getElem?_replicate]
    by_cases h : f < 5
    · simp [h]
    · simp [h]
  let roots : Stage → Nat := fun stage => (opened.openFrames.get stage).headD 0
  have hopened : ∀ stage, opened.openFrames.get stage = [roots stage] := by
    intro stage
    cases stage <;> rfl
  have hinjective : Function.Injective roots := by
    intro a b hab
    cases a <;> cases b <;> first | rfl | cases hab
  refine ⟨⟨rfl, rfl, fun _ => ⟨rfl, rfl⟩, rfl, rfl⟩, roots, roots, atRest_opened, atRest_opened,
    hopened, hopened, hinjective, hinjective, fun _ _ => ?_, fun _ _ => hmemo _ _⟩
  rw [hmemo, hmemo]

end Pass

namespace Graph

variable {g : Graph}

theorem ofCall_of_mem_keys {previousFrame : Bool} {root : Input} {κ : Key}
    (h : κ ∈ g.keys previousFrame root) : κ.ofCall = Key.ofNode κ.node previousFrame := by
  obtain ⟨i, -, hi⟩ := List.mem_filterMap.1 (List.mem_toFinset.1 h)
  obtain ⟨e, -, rfl⟩ := Option.map_eq_some_iff.1 hi
  rfl

/-- Between compilations, an input is compiled as its copy outside of all calls. -/
theorem compileAt_restMirror (hacyclic : g.Acyclic) (n : Nat) (ctx : Context) (input : Input) :
    Keeps anyFault (RestMirror g) (g.expressions.compileAt n ctx input)
      (g.onCopies [] (g.inlined.compileAt n) ctx input) := by
  rintro p q ⟨halike, roots, roots', h⟩
  have hadmits : Admits g.expressions (some g.height) (g.keys ctx.previousFrame input) p.nesting
      [roots ctx.stage] ctx input := by
    refine fun e he => ⟨keyOf_mem_keys (List.mem_cons_self ..) he rfl, fun r hr f hf κ hκ => ?_⟩
    rw [h.left.idle] at hκ
    cases hκ
  have hboth := (compileAt_beside hacyclic hasKeys n rfl
    (h.abreast (fun κ => ofCall_of_mem_keys) ctx.stage) hadmits fun _ => .root).mono
    (fun _ _ => id) fun p' q' h' =>
      (⟨h'.1, roots, roots', h.of_framed h'.2⟩ : RestMirror g p' q')
  exact hboth p q ⟨halike, h.framed⟩

/-- **The two graphs agree** on all that is compiled for a material. -/
theorem graphsAgree_inlined (hacyclic : g.Acyclic) {env : Environment}
    (hinputs : env.material.IsOn g) (depth : Nat) :
    GraphsAgree anyFault (RestMirror g) (fun _ => RestMirror g) (fun _ => RestMirror g) env
      (g.expressions.withDepth depth) (g.inlined.withDepth depth)
      (g.expressions.withDepth depth).compile (g.inlined.withDepth depth).compile := by
  have hinput : ∀ ctx i, Keeps anyFault (RestMirror g)
      ((g.expressions.withDepth depth).compile ctx i)
      ((g.inlined.withDepth depth).compile ctx (g.copyInput [] i)) := by
    intro ctx i
    unfold ExpressionGraph.compile
    rw [ExpressionGraph.compileAt_withDepth, ExpressionGraph.compileAt_withDepth]
    exact compileAt_restMirror hacyclic depth ctx i
  have hnone : ∀ {id}, (g.expressions.node? id).bind (·.customOutput?) = none →
      ((g.expressions.withDepth depth).node? id).bind (·.customOutput?) = none ∧
        ((g.inlined.withDepth depth).node? id).bind (·.customOutput?) = none := fun h =>
    ⟨h, (customOutput?_inlined _).trans h⟩
  refine ⟨fun property p q _ hpq => ?_, fun id => ?_, fun id => ?_, fun _ => ?_⟩
  · have hcompile := hinput (propertyContext env property (p.stageScopes.get property.stage))
      (env.material.inputs.get property.base) p q hpq
    rwa [copyInput_nil (hinputs property.base)] at hcompile
  · have hcopied := vertexInput?_inlined (g := g) id
    cases hvertex : (g.expressions.node? id).bind (·.vertexInput?) with
    | none => exact .inl ⟨hvertex, by rw [hvertex] at hcopied; exact hcopied⟩
    | some i =>
      rw [hvertex] at hcopied
      exact .inr ⟨i, g.copyInput [] i, hvertex, hcopied, fun ctx _ _ => (hinput ctx i).having _⟩
  · rcases inlined_cases id with ⟨node, he, he'⟩ | ⟨he, -⟩
    · cases hout : (node.expression g).customOutput? with
      | none => exact .inl (hnone (by rw [he]; exact hout))
      | some out =>
        refine .inr ⟨_, _, out, he, he', hout, hout, fun ctx output _ hctx => ?_⟩
        have hstays : node.staysInFrame := by
          cases node <;> first | rfl | cases hout
        refine Couples.having ?_ _
        show Couples _ _ _ (node.compile g _ ctx output) (node.compileCopy g [] id _ ctx output)
        rw [Node.compileCopy_of_stays hstays, ← hctx]
        have hread : Keeps anyFault (RestMirror g) ctx.readInterpolator
            ctx.readInterpolator := Beside.readInterpolator RestMirror.seesFrames ctx
        exact (node.compile_built g hstays output).couples RestMirror.hosts.toAbsorbs hread
          fun i _ => hinput ctx i
    · exact .inl (hnone (by rw [he]; rfl))
  · have hdepth : ∀ G : ExpressionGraph, virtualTextureProblems env.material (G.withDepth depth) =
        virtualTextureProblems env.material G := by
      intro G
      have hwrap := ExpressionGraph.virtualTextureProblems_wrap (g := G) env.material id depth
      rwa [ExpressionGraph.wrap_id] at hwrap
    rw [hdepth, hdepth]
    exact virtualTextureProblems_inlined hacyclic hinputs

end Graph

/-! ### Outcomes -/

namespace Pass

variable {p q : Pass} {g : Graph}

/-- With the same code, only what was reported may differ in an outcome. -/
theorem Alike.outcome (h : Alike p q) (t : Texts) (m : Material) :
    t.outcome q m = { t.outcome p m with
      diagnostics := (t.outcome q m).diagnostics, log := (t.outcome q m).log } := by
  have hparts : ∀ p : Pass, t.outcome p m = { t.outcome p.core m with
      success := p.success, diagnostics := p.diagnostics, log := (t.outcome p m).log } :=
    fun _ => rfl
  rw [hparts p, hparts q, h.core, h.success]

/-- If nothing was reported, nothing differs. -/
theorem Alike.outcome_eq (h : Alike p q) (t : Texts) (m : Material) (hsuccess : p.success) :
    t.outcome q m = t.outcome p m := by
  obtain ⟨hdiagnostics, hlog⟩ := h.reports hsuccess
  have hdiagnostics' : (t.outcome q m).diagnostics = (t.outcome p m).diagnostics :=
    hdiagnostics.symm
  have hlog' : (t.outcome q m).log = (t.outcome p m).log := by
    unfold Texts.outcome Outcome.ofPass
    rw [hlog]
  rw [h.outcome t m, hdiagnostics', hlog']

/-- Two passes that end with the same texts have outcomes of one form. -/
theorem RestMirror.outcome {m n : PassM Texts} {p' : Pass} {o : Outcome} {material : Material}
    (hmn : Keeps anyFault (RestMirror g) m n) (hpq : RestMirror g p q)
    (h : (m >>= fun t => get >>= fun r => pure (t.outcome r material)) p = .ok o p') :
    ∃ (t : Texts) (q' : Pass), (n >>= fun t => get >>= fun r => pure (t.outcome r material)) q =
      .ok (t.outcome q' material) q' ∧ o = t.outcome p' material ∧ RestMirror g p' q' := by
  obtain ⟨t, r, hm, hend⟩ := exists_of_bind h
  obtain ⟨rfl, rfl⟩ : t.outcome r material = o ∧ r = p' := by
    cases hend
    exact ⟨rfl, rfl⟩
  have hagree := hmn p q hpq
  rw [hm] at hagree
  cases hn : n q with
  | error => rw [hn] at hagree; exact hagree.elim
  | ok t' q' =>
    rw [hn] at hagree
    obtain ⟨rfl, hrest⟩ := hagree
    exact ⟨t, q', bind_of_ok hn, rfl, hrest⟩

/-- No call is given a frame in a pass over an inlined graph. -/
theorem AtRest.shared_eq_nil (h : AtRest g.inlined q) : ∀ frame ∈ q.frames, frame.shared = [] := by
  intro frame hframe
  obtain ⟨a, ha⟩ := List.getElem?_of_mem hframe
  have hties : q.ties[a]? = some frame.ties := by
    rw [getElem?_ties, ha]
    rfl
  refine List.eq_nil_iff_forall_not_mem.2 fun ⟨κ, b⟩ hb => ?_
  obtain ⟨-, e, call, he, hcall, -⟩ := h.links.child hties hb
  rw [Graph.call?_inlined he] at hcall
  cases hcall

end Pass

namespace Graph

/-- **Calls mean their bodies**: without cycles, a material whose compilation returns an outcome has
the same code with all calls inlined, in a pass that gives no call a frame. If the compilation
succeeded, nothing of the outcome differs. -/
theorem inlined_outcome (g : Graph) (hacyclic : g.Acyclic) (env : Environment)
    (hinputs : env.material.IsOn g) {o : Outcome} {p : Pass}
    (hrun : run env (some g.expressions) {} = .ok o p) {depth : Nat}
    (hdepth : g.expressions.depth ≤ depth) :
    ∃ o' q, run env (some (g.inlined.withDepth depth)) {} = .ok o' q ∧
      o' = { o with diagnostics := o'.diagnostics, log := o'.log } ∧ (o.success → o' = o) ∧
      ∀ frame ∈ q.frames, frame.shared = [] := by
  rw [← (run_withDepth hdepth env).1, run_eq, finish, ← bind_assoc] at hrun
  rw [run_eq, finish, ← bind_assoc]
  have hcouples : Couples anyFault (RestMirror g) (RestMirror g)
      (compileAll env (g.expressions.withDepth depth) (g.expressions.withDepth depth).compile >>=
        fun _ => close env)
      (compileAll env (g.inlined.withDepth depth) (g.inlined.withDepth depth).compile >>=
        fun _ => close env) :=
    (compileAll_couples RestMirror.hosts (graphsAgree_inlined hacyclic hinputs depth)).bind fun _ =>
      close_couples RestMirror.hosts
  obtain ⟨t, q, hq, rfl, halike, roots, roots', hrest⟩ :=
    RestMirror.outcome hcouples restMirror_opened hrun
  exact ⟨_, q, hq, halike.outcome t _, halike.outcome_eq t _, hrest.right.shared_eq_nil⟩

/-- Both calls of the function are given frames, one within the argument of the other; with copies
of its body in their place, no call is given one, and the outcome is the same. -/
theorem inlined_outcome_doubledTwice :
    doubledTwice.Acyclic ∧ doubledRoughness.material.IsOn doubledTwice ∧
      ∃ o p q, run doubledRoughness (some doubledTwice.expressions) {} = .ok o p ∧
        o.success ∧ (p.frames.any fun frame => !frame.shared.isEmpty) ∧
        run doubledRoughness
          (some (doubledTwice.inlined.withDepth doubledTwice.expressions.depth)) {} = .ok o q ∧
        ∀ frame ∈ q.frames, frame.shared = [] := by
  have hacyclic : doubledTwice.Acyclic := acyclic_of_ordered (by decide)
  have hunconnected : Material.IsOn {} doubledTwice := fun _ => Nat.zero_le _
  have hconnect : Material.connect {} doubledTwice 8 ⟨6, 0⟩ = .ok doubledRoughness.material := rfl
  have hinputs := hunconnected.connect hconnect
  obtain ⟨o, p, hrun, hsuccess, hframes⟩ : ∃ o p,
      run doubledRoughness (some doubledTwice.expressions) {} = .ok o p ∧
        (o.success ∧ p.frames.any fun frame => !frame.shared.isEmpty) := by
    decide +kernel
  obtain ⟨o', q, hrun', -, hsame, hshared⟩ :=
    inlined_outcome doubledTwice hacyclic doubledRoughness hinputs hrun (Nat.le_refl _)
  rw [hsame hsuccess] at hrun'
  exact ⟨hacyclic, hinputs, o, p, q, hrun, hsuccess, hframes, hrun', hshared⟩

end Graph

end ShaderGraph
