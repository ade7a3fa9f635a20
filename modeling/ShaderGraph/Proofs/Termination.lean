import ShaderGraph.Proofs.Descent
import ShaderGraph.Proofs.SideBySide

/-!
# Compilation ends

Every graph compiles within a depth that the number of its keys bounds, whatever its connections:
cycles, functions that call each other, and arguments that lead back to their own call. So the depth
that a graph is given is never met, and a larger one changes nothing (`Graph.depth_suffices`).
-/

namespace ShaderGraph

namespace Pass

/-! ### Rest -/

/-- A state between compilations: nothing is in progress, and of each stage only the outermost frame
is open. -/
structure AtRest (g : ExpressionGraph) (p : Pass) : Prop where
  idle : ∀ f, p.nesting.active f = []
  links : Links g p.ties
  roots : ∀ stage, ∃ root t, p.openFrames.get stage = [root] ∧ p.ties[root]? = some t ∧
    t.call = none

/-- Two runs in the same state at rest; where the nodes have ranks, what they reported is
ordinary. -/
def RestTwin (g : ExpressionGraph) (rank : Option (NodeId → Nat)) (p q : Pass) : Prop :=
  p = q ∧ AtRest g p ∧ (rank.isSome → p.Clean)

section Rest

variable {g : ExpressionGraph} {rank : Option (NodeId → Nat)} {p q : Pass} {keys : Finset Key}

theorem AtRest.stands (h : AtRest g p) : Stands g p.nesting p.ties p :=
  ⟨rfl, .refl _, h.links⟩

theorem AtRest.of_stands (h : AtRest g p) (hq : Stands g p.nesting p.ties q) : AtRest g q where
  idle f := by
    rw [hq.nesting]
    exact h.idle f
  links := hq.links
  roots stage := by
    obtain ⟨root, t, hopen, ht, hcall⟩ := h.roots stage
    obtain ⟨t', ht', hcall', -⟩ := hq.grows.keeps ht
    refine ⟨root, t', ?_, ht', hcall'.trans hcall⟩
    rw [← hopen]
    exact congrFun (congrArg Nesting.opened hq.nesting) stage

theorem AtRest.of_frames_eq (h : AtRest g p) (hframes : q.frames = p.frames)
    (hopen : q.openFrames = p.openFrames) : AtRest g q :=
  h.of_stands (h.stands.of_frames_eq hframes hopen)

/-- What ends alike in every nesting ends alike at rest. -/
theorem RestTwin.couples {α : Type} {m n : PassM α}
    (h : ∀ p, AtRest g p → Twinned g rank p.nesting p.ties m n) :
    Keeps (SameFault rank) (RestTwin g rank) m n := by
  intro p q ⟨hpq, hrest, hclean⟩
  subst hpq
  have hafter := (h p hrest).mono (fun _ _ => id) fun q r ⟨hqr, hstands, hclean⟩ =>
    (⟨hqr, hrest.of_stands hstands, hclean⟩ : RestTwin g rank q r)
  exact hafter p p ⟨rfl, hrest.stands, hclean⟩

theorem RestTwin.absorbs : Absorbs (SameFault rank) (RestTwin g rank) where
  fault h he := ⟨h.1, he, h.2.2⟩
  core h := by rw [h.1]
  update {p q u} h hapart hcore habides := by
    obtain ⟨rfl, hrest, hclean⟩ := h
    have htwin : Twin g rank p.nesting p.ties p p := ⟨rfl, hrest.stands, hclean⟩
    obtain ⟨-, hstands, hclean'⟩ := Twin.absorbs.update htwin hapart hcore habides
    exact ⟨rfl, hrest.of_stands hstands, hclean'⟩
  note level message attributes := RestTwin.couples fun _ _ => Twin.absorbs.note _ _ _
  report ctx problem h := RestTwin.couples fun _ _ => Twin.absorbs.report ctx h
  reportGlobally h := RestTwin.couples fun _ _ => Twin.absorbs.reportGlobally h

/-- A state in which a stage has left its frames for a fresh one. -/
def restarted (p : Pass) (stage : Stage) : Pass :=
  withStack { p with frames := p.frames ++ [{}] } stage [p.frames.length]

theorem ties_restarted (stage : Stage) :
    (p.restarted stage).ties = p.ties ++ [({} : Frame).ties] := List.map_append

theorem AtRest.restarted (h : AtRest g p) (stage : Stage) : AtRest g (p.restarted stage) where
  idle f := by
    unfold Pass.restarted
    rw [nesting_withStack]
    exact (congrFun (activeIn_concat p.frames rfl) f).trans (h.idle f)
  links := ties_restarted stage ▸ h.links.concat
  roots stage' := by
    rw [ties_restarted]
    by_cases hstage : stage' = stage
    · subst hstage
      refine ⟨p.frames.length, ({} : Frame).ties, StageTable.get_set_self .., ?_, rfl⟩
      rw [← length_ties, List.getElem?_concat_length]
    · obtain ⟨root, t, hopen, ht, hcall⟩ := h.roots stage'
      refine ⟨root, t, (StageTable.get_set_of_ne _ hstage _).trans hopen, ?_, hcall⟩
      rw [List.getElem?_append_left (List.getElem?_eq_some_iff.1 ht).1, ht]

theorem RestTwin.hosts :
    Hosts (SameFault rank) (RestTwin g rank) (fun _ => RestTwin g rank)
      (fun _ => RestTwin g rank) where
  toAbsorbs := RestTwin.absorbs
  fresh _ := RestTwin.absorbs
  apart _ := RestTwin.absorbs
  settle _ h := h
  leave _ h := h
  reset stage := Ends.couples (fun p q h => h.1) fun p ⟨_, hrest, hclean⟩ =>
    ⟨⟨⟩, p.restarted stage, rfl, rfl, hrest.restarted stage, fun hr =>
      (hclean hr).congr rfl rfl rfl⟩
  hold h := by
    obtain ⟨rfl, hrest, hclean⟩ := h
    refine ⟨rfl, hrest.of_frames_eq rfl rfl, fun hr => ⟨(hclean hr).diagnostics, ?_,
      (hclean hr).interpolatorErrors⟩⟩
    rintro held hheld d hd
    obtain rfl := Option.mem_some_iff.1 hheld
    cases hd
  keep id h := by
    obtain ⟨rfl, hrest, hclean⟩ := h
    refine ⟨rfl, hrest.of_frames_eq rfl rfl, fun hr => ⟨(hclean hr).diagnostics, (hclean hr).sink,
      ?_⟩⟩
    intro x hx d hd
    rcases List.mem_cons.1 hx with rfl | hx
    · rename_i p
      cases hsink : p.sink with
      | none => simp [hsink] at hd
      | some held => exact (hclean hr).sink held hsink d (by simpa [hsink] using hd)
    · exact (hclean hr).interpolatorErrors x hx d hd
  release h := by
    obtain ⟨rfl, hrest, hclean⟩ := h
    exact ⟨rfl, hrest.of_frames_eq rfl rfl, fun hr => ⟨(hclean hr).diagnostics, nofun,
      (hclean hr).interpolatorErrors⟩⟩
  success h := by rw [h.1]
  summary level message attributes h h' _ := by
    rw [h.1]
    exact RestTwin.absorbs.note _ _ _ _ _ h'

/-- All phases begin at rest. -/
theorem atRest_opened : AtRest g opened where
  idle f := by
    show activeIn (List.replicate 5 {}) f = []
    unfold activeIn
    rw [List.getElem?_replicate]
    by_cases h : f < 5
    · simp [h]
    · simp [h]
  links := by
    have hnone : ∀ {a b : Nat} {κ : Key} {t : Ties}, opened.ties[a]? = some t →
        (κ, b) ∉ t.shared := by
      intro a b κ t ht hb
      have hmem := List.mem_of_getElem? ht
      simp only [ties, opened, List.map_replicate] at hmem
      rw [List.eq_of_mem_replicate hmem] at hb
      cases hb
    exact ⟨fun ht hb => absurd hb (hnone ht), fun ht _ hb => absurd hb (hnone ht),
      fun ht hb => absurd hb (hnone ht)⟩
  roots stage := by
    cases stage
    exacts [⟨0, _, rfl, rfl, rfl⟩, ⟨1, _, rfl, rfl, rfl⟩, ⟨2, _, rfl, rfl, rfl⟩,
      ⟨3, _, rfl, rfl, rfl⟩, ⟨4, _, rfl, rfl, rfl⟩]

/-- Nothing was reported then. -/
theorem clean_opened : opened.Clean where
  diagnostics d hd := by cases hd
  sink held hheld := by cases hheld
  interpolatorErrors x hx := by cases hx

theorem AtRest.poised (h : AtRest g p) (stage : Stage) :
    ∃ root, Poised g rank keys stage p.nesting p.ties [root] [] := by
  obtain ⟨root, t, hopen, ht, hcall⟩ := h.roots stage
  refine ⟨root, hopen, h.links, .root ht hcall, ⟨fun hf => ?_, fun _ _ hb => ?_⟩, fun f => ?_, ?_⟩
  · exact absurd (h.idle _) hf
  · exact absurd (h.idle _) hb
  · rw [h.idle]
    exact List.nodup_nil
  · intro f κ hκ
    rw [h.idle] at hκ
    cases hκ

theorem AtRest.enough (h : AtRest g p) {root n : Nat} (hn : (keys.card + 1) ^ (keys.card + 1) ≤ n) :
    Enough keys p.nesting [root] n := by
  have hpos : 0 < (keys.card + 1) ^ keys.card := Nat.pow_pos (Nat.succ_pos _)
  unfold Enough
  simp only [load, h.idle, List.length_nil, List.length_singleton, Nat.zero_mul, Nat.add_sub_cancel]
  omega

/-- The end of a step that leaves its state at rest, or whose fault is not about the nesting. -/
structure Settled (g : ExpressionGraph) {α : Type} (x : EStateM.Result Fault Pass α) : Prop where
  rests : ∀ {a : α} {p : Pass}, x = .ok a p → AtRest g p
  fits : ∀ {e : Fault} {p : Pass}, x = .error e p → e ≠ .tooDeep ∧ e ≠ .unbalancedFrames

/-- The state that a step ends in. -/
def final {α : Type} : EStateM.Result Fault Pass α → Pass
  | .ok _ p => p
  | .error _ p => p

theorem RestTwin.settled {α : Type} {x y : EStateM.Result Fault Pass α}
    (h : Agree (SameFault rank) (RestTwin g rank) x y) :
    x = y ∧ Settled g x ∧ (rank.isSome → (final x).Clean) := by
  cases x <;> cases y
  case ok.ok =>
    obtain ⟨rfl, rfl, hrest, hclean⟩ := h
    exact ⟨rfl, ⟨fun h => by cases h; exact hrest, fun h => by cases h⟩, hclean⟩
  case error.error e p f q =>
    obtain ⟨rfl, rfl, hframes, hclean⟩ := h
    refine ⟨rfl, ⟨fun h => ?_, fun h => ?_⟩, hclean⟩ <;> cases h
    constructor <;> rintro rfl <;> cases hframes
  all_goals exact h.elim

end Rest

end Pass

open Pass

/-! ### Keys -/

/-- The key of an input of a graph, if its node exists. -/
def ExpressionGraph.key? (g : ExpressionGraph) (previousFrame : Bool) (i : Input) : Option Key :=
  (g.node? i.node).map fun e =>
    ⟨i.node, if e.ignoresOutput then 0 else i.output, none, previousFrame⟩

namespace Graph

/-- The keys that can be in progress while an input of a graph is compiled. -/
def keys (g : Graph) (previousFrame : Bool) (root : Input) : Finset Key :=
  ((root :: g.nodes.flatMap fun n => n.inputs g).filterMap
    (g.expressions.key? previousFrame)).toFinset

variable {g : Graph} {previousFrame : Bool} {root : Input}

theorem keyOf_mem_keys {ctx : Context} {e : Expression} {i : Input}
    (hi : i ∈ root :: g.nodes.flatMap fun n => n.inputs g)
    (he : g.expressions.node? i.node = some e) (hprevious : ctx.previousFrame = previousFrame) :
    ctx.keyOf e i ∈ g.keys previousFrame root := by
  refine List.mem_toFinset.2 (List.mem_filterMap.2 ⟨i, hi, ?_⟩)
  obtain ⟨node, -, rfl⟩ := exists_node he
  simp only [ExpressionGraph.key?, he, Option.map_some, Context.keyOf, hprevious]
  rfl

theorem hasKeys : g.expressions.HasKeys (g.keys previousFrame root) previousFrame := by
  intro κ e e' i ctx _ he hi he' hprevious
  obtain ⟨node, hnode, rfl⟩ := exists_node he
  refine keyOf_mem_keys (List.mem_cons_of_mem _ ?_) he' hprevious
  exact List.mem_flatMap.2 ⟨node, mem_of_node? hnode, hi⟩

theorem card_keys_le : (g.keys previousFrame root).card ≤ g.connections + 1 := by
  refine (List.toFinset_card_le _).trans ((List.length_filterMap_le _ _).trans ?_)
  rw [List.length_cons, connections]

/-- The depth of a graph suffices for all its keys. -/
theorem pow_le_depth :
    ((g.keys previousFrame root).card + 1) ^ ((g.keys previousFrame root).card + 1) ≤
      g.expressions.depth := by
  have hcard : (g.keys previousFrame root).card ≤ g.connections + 1 := card_keys_le
  have hle : (g.keys previousFrame root).card + 1 ≤ 2 * (g.connections + 1) + 1 := by omega
  exact (Nat.pow_le_pow_left hle _).trans (Nat.pow_le_pow_right (by omega) hle)

end Graph

/-! ### Graphs at rest -/

/-- The graph with another depth. -/
def ExpressionGraph.withDepth (g : ExpressionGraph) (depth : Nat) : ExpressionGraph :=
  { g with depth }

namespace ExpressionGraph

variable {g : ExpressionGraph}

theorem compileAt_withDepth (depth n : Nat) : (g.withDepth depth).compileAt n = g.compileAt n := by
  induction n with
  | zero =>
    funext ctx input
    unfold compileAt
    rfl
  | succ n ih =>
    funext ctx input
    unfold compileAt
    simp only [ih]
    rfl

theorem wrap_id : g.wrap id = g := by
  unfold wrap
  simp only [id_eq, List.map_id']

theorem findsVirtualTexture_congr {g' : ExpressionGraph}
    (h : ∀ id, (g'.node? id).map (fun e => (e.usesVirtualTexture, e.inputs)) =
      (g.node? id).map fun e => (e.usesVirtualTexture, e.inputs)) (n : Nat)
    (visited : List NodeId) (pending : List Input) :
    g'.findsVirtualTexture n visited pending = g.findsVirtualTexture n visited pending := by
  induction n generalizing visited pending with
  | zero => rfl
  | succ n ih =>
    cases pending with
    | nil => rfl
    | cons input pending =>
      unfold findsVirtualTexture
      split
      · exact ih _ _
      have hnode := h input.node
      cases he : g.node? input.node with
      | none =>
        rw [he] at hnode
        rw [Option.map_eq_none_iff.1 hnode]
        exact ih _ _
      | some e =>
        rw [he] at hnode
        obtain ⟨e', he', heq⟩ := Option.map_eq_some_iff.1 hnode
        obtain ⟨huses, hinputs⟩ := Prod.mk.inj heq
        rw [he']
        simp only [huses, hinputs, ih]

theorem virtualTextureProblems_wrap (m : Material) (w : Compiler → Compiler) (depth : Nat) :
    virtualTextureProblems m ((g.wrap w).withDepth depth) = virtualTextureProblems m g := by
  have hfinds : ∀ n visited pending, ((g.wrap w).withDepth depth).findsVirtualTexture n visited
      pending = g.findsVirtualTexture n visited pending := by
    refine findsVirtualTexture_congr fun id => ?_
    change ((g.wrap w).node? id).map _ = _
    rw [node?_wrap, Option.map_map]
    rfl
  unfold virtualTextureProblems reachesVirtualTexture
  simp only [hfinds]
  simp [withDepth, wrap, List.flatMap_map]

end ExpressionGraph

namespace Graph

variable {g : Graph} {rank : Option (NodeId → Nat)} {w : Compiler → Compiler}
variable {ctx : Context} {input : Input} {n m depth : Nat}

section

variable (hrank : ∀ r ∈ rank, g.expressions.Ranks r) (hw : Harmless g.expressions rank w)

include hrank hw

/-- Compilers with enough depth do the same at rest. -/
theorem compileAt_rest {keys : Finset Key}
    (hkeys : g.expressions.HasKeys keys ctx.previousFrame)
    (hinput : ∀ e, g.expressions.node? input.node = some e → ctx.keyOf e input ∈ keys)
    {g' : ExpressionGraph} (hg' : g'.Renders g.expressions keys w)
    (hn : (keys.card + 1) ^ (keys.card + 1) ≤ n) (hm : (keys.card + 1) ^ (keys.card + 1) ≤ m) :
    Keeps (SameFault rank) (RestTwin g.expressions rank)
      (g.expressions.compileAt n ctx input) (g'.compileAt m ctx input) := by
  refine RestTwin.couples fun p hrest => ?_
  obtain ⟨root, hpoised⟩ : ∃ root, Poised g.expressions rank keys ctx.stage p.nesting p.ties
    [root] [] := hrest.poised ctx.stage
  refine compileAt_couples hrank hkeys hw hg' n m rfl hpoised (fun e he => ⟨hinput e he, ?_⟩)
    (hrest.enough hn) (hrest.enough hm)
  intro r hr f hf κ hκ
  rw [hrest.idle] at hκ
  cases hκ

/-- So does the graph itself, with a change to its compilers. -/
theorem compileAt_wrap_rest
    (hn : ((g.keys ctx.previousFrame input).card + 1) ^ ((g.keys ctx.previousFrame input).card + 1)
      ≤ n)
    (hm : ((g.keys ctx.previousFrame input).card + 1) ^ ((g.keys ctx.previousFrame input).card + 1)
      ≤ m) :
    Keeps (SameFault rank) (RestTwin g.expressions rank)
      (g.expressions.compileAt n ctx input) ((g.expressions.wrap w).compileAt m ctx input) :=
  compileAt_rest hrank hw hasKeys (fun _ he => keyOf_mem_keys (List.mem_cons_self ..) he rfl)
    (ExpressionGraph.renders_wrap _ _ _) hn hm

end

/-- No key is in progress at rest, so none is met again. -/
theorem wrap_rest (hw : Harmless g.expressions rank w) {c d : Compiler}
    (h : Keeps (SameFault rank) (RestTwin g.expressions rank) (c ctx input) (d ctx input)) :
    Keeps (SameFault rank) (RestTwin g.expressions rank) (c ctx input) (w d ctx input) := by
  intro p q hpq
  obtain rfl := hpq.1
  have hidle : ∀ κ, ctx.inProgress p κ = false := by
    intro κ
    by_contra hprogress
    obtain ⟨f, -, hκ⟩ := Context.inProgress_iff.1 (Bool.eq_true_of_not_eq_false hprogress)
    rw [hpq.2.1.idle] at hκ
    cases hκ
  rw [hw d ctx input p fun _ => ?_]
  · exact h p p hpq
  · unfold ExpressionGraph.reenters
    cases g.expressions.node? input.node with
    | none => rfl
    | some e => simp [hidle]

section

variable (hrank : ∀ r ∈ rank, g.expressions.Ranks r) (hw : Harmless g.expressions rank w)
  (hdepth : g.expressions.depth ≤ depth) (env : Environment)

include hrank hw hdepth env

/-- A graph agrees with itself at any larger depth, whatever is done where a key in progress would
be met. -/
theorem graphsAgree :
    GraphsAgree (SameFault rank) (RestTwin g.expressions rank)
      (fun _ => RestTwin g.expressions rank) (fun _ => RestTwin g.expressions rank) env
      g.expressions ((g.expressions.wrap w).withDepth depth) g.expressions.compile
      ((g.expressions.wrap w).withDepth depth).compile := by
  have hinput : ∀ ctx input, Keeps (SameFault rank) (RestTwin g.expressions rank)
      (g.expressions.compile ctx input)
      (((g.expressions.wrap w).withDepth depth).compile ctx input) := by
    intro ctx input
    unfold ExpressionGraph.compile
    rw [ExpressionGraph.compileAt_withDepth]
    exact compileAt_wrap_rest hrank hw pow_le_depth (pow_le_depth.trans hdepth)
  have hnode : ∀ id, ((g.expressions.wrap w).withDepth depth).node? id =
      (g.expressions.node? id).map fun e => { e with compile := fun c => e.compile (w c) } :=
    fun id => ExpressionGraph.node?_wrap _ _ _
  refine ⟨fun _ _ _ _ hpq => hinput _ _ _ _ hpq, fun id => ?_, fun id => ?_, fun _ =>
    (ExpressionGraph.virtualTextureProblems_wrap _ _ _).symm⟩
  · rw [hnode]
    cases g.expressions.node? id with
    | none => exact .inl ⟨rfl, rfl⟩
    | some e =>
      cases hinterpolated : e.vertexInput? with
      | none => exact .inl ⟨by simp [hinterpolated], by simp [hinterpolated]⟩
      | some i =>
        exact .inr ⟨i, i, by simp [hinterpolated], by simp [hinterpolated],
          fun ctx _ _ => (hinput ctx i).having _⟩
  · rw [hnode]
    cases he : g.expressions.node? id with
    | none => exact .inl ⟨rfl, rfl⟩
    | some e =>
      cases hout : e.customOutput? with
      | none => exact .inl ⟨by simp [hout], by simp [hout]⟩
      | some out =>
        refine .inr ⟨e, _, out, rfl, rfl, hout, hout, fun ctx output _ _ => ?_⟩
        obtain ⟨node, -, rfl⟩ := exists_node he
        have hstays : node.staysInFrame := by
          cases node <;> first | rfl | cases hout
        refine Couples.having ?_ _
        exact (node.compile_built g hstays output).couples RestTwin.absorbs
          (RestTwin.couples fun _ _ => Twin.readInterpolator ctx)
          fun i _ => wrap_rest hw (hinput ctx i)

/-- **Two compilations of a material** do the same. -/
theorem run_twin :
    run env (some g.expressions) {} = run env (some ((g.expressions.wrap w).withDepth depth)) {} ∧
      Settled g.expressions (run env (some g.expressions) {}) ∧
      (rank.isSome → (final (run env (some g.expressions) {})).Clean) := by
  rw [run_eq, run_eq]
  have hend : Keeps (SameFault rank) (RestTwin g.expressions rank) (finish env) (finish env) := by
    refine (close_couples RestTwin.hosts).bind fun t => .get_bind fun p q hpq => ?_
    obtain rfl := hpq.1
    exact ⟨rfl, hpq⟩
  have hall := (compileAll_couples RestTwin.hosts (graphsAgree hrank hw hdepth env)).bind fun _ =>
    hend
  exact RestTwin.settled (hall opened opened ⟨rfl, atRest_opened, fun _ => clean_opened⟩)

end

theorem run_withDepth (hn : g.expressions.depth ≤ n) (env : Environment) :
    run env (some (g.expressions.withDepth n)) {} = run env (some g.expressions) {} ∧
      Settled g.expressions (run env (some g.expressions) {}) := by
  have hrank : ∀ r ∈ (none : Option (NodeId → Nat)), g.expressions.Ranks r := fun r hr => by
    cases hr
  have hw : Harmless g.expressions none id := fun _ _ _ _ _ => rfl
  obtain ⟨hsame, hsettled, -⟩ := run_twin hrank hw hn env
  rw [ExpressionGraph.wrap_id] at hsame
  exact ⟨hsame.symm, hsettled⟩

/-- **Compilation ends**: the keys of a graph bound how deep compilations nest, also where its
connections lead in cycles. So the depth of the graph is never met, and a larger one changes
nothing. -/
theorem depth_suffices (g : Graph) :
    (∀ (ctx : Context) (input : Input) (p : Pass) (n : Nat), AtRest g.expressions p →
      ((g.keys ctx.previousFrame input).card + 1) ^ ((g.keys ctx.previousFrame input).card + 1)
        ≤ n →
      g.expressions.compileAt n ctx input p = g.expressions.compile ctx input p ∧
        Settled g.expressions (g.expressions.compile ctx input p)) ∧
    ∀ (env : Environment) (n : Nat), g.expressions.depth ≤ n →
      run env (some (g.expressions.withDepth n)) {} = run env (some g.expressions) {} ∧
        Settled g.expressions (run env (some g.expressions) {}) := by
  refine ⟨fun ctx input p n hrest hn => ?_, fun env n hn => run_withDepth hn env⟩
  have hrank : ∀ r ∈ (none : Option (NodeId → Nat)), g.expressions.Ranks r := fun r hr => by
    cases hr
  have hw : Harmless g.expressions none id := fun _ _ _ _ _ => rfl
  obtain ⟨hsame, hsettled, -⟩ :=
    RestTwin.settled (compileAt_wrap_rest hrank hw pow_le_depth hn p p ⟨rfl, hrest, nofun⟩)
  rw [ExpressionGraph.wrap_id] at hsame
  exact ⟨hsame.symm, hsettled⟩

/-- Two functions that call each other, and a call of the first with itself as its argument. -/
def mutualCalls : Graph where
  nodes :=
    [.functionInput 0 0 "x" .float .none, .functionCall 1 [⟨1, 0⟩], .functionOutput 0 "y" ⟨2, 0⟩,
     .functionInput 1 0 "x" .float .none, .functionCall 0 [⟨4, 0⟩], .functionOutput 1 "y" ⟨5, 0⟩,
     .functionCall 0 [⟨7, 0⟩]]
  functions := [{ name := "Outer", inputs := [1], outputs := [3] },
    { name := "Inner", inputs := [4], outputs := [6] }]

/-- The context of the base color of a material. -/
def mutualCallsContext : Context where
  env := { material := {} }
  stage := .pixel
  scope := 3

/-- The depth that its seven keys bound suffices for the call. -/
theorem depth_suffices_mutualCalls :
    AtRest mutualCalls.expressions opened ∧ (mutualCalls.keys false ⟨7, 0⟩).card = 7 ∧
      mutualCalls.expressions.compileAt (8 ^ 8) mutualCallsContext ⟨7, 0⟩ opened =
        mutualCalls.expressions.compile mutualCallsContext ⟨7, 0⟩ opened ∧
      Settled mutualCalls.expressions
        (mutualCalls.expressions.compile mutualCallsContext ⟨7, 0⟩ opened) := by
  have hcard : (mutualCalls.keys false ⟨7, 0⟩).card = 7 := by decide
  refine ⟨atRest_opened, hcard, (depth_suffices mutualCalls).1 _ _ _ _ atRest_opened ?_⟩
  exact Nat.le_of_eq (congrArg (fun k => (k + 1) ^ (k + 1)) hcard)

end Graph

end ShaderGraph
