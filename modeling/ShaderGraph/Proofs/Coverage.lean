import ShaderGraph.Proofs.VirtualLimits

/-!
# What the search for virtual textures covers

Before a property is compiled, the graph is searched for virtual textures from its input on. The
search finds one exactly if a node that uses one is reached along connections, also where these lead
in cycles. And it covers what is compiled: for a property, no node is compiled that cannot be
reached from its input (`Graph.search_covers`).

That takes no new look at the kinds of nodes. Only keys of a set that is closed under connections
come into progress (`Graph.compileAt_couples`), and the keys of the nodes that are reached are such
a set. The arguments of a function are reached too, since a call is in progress when they are read.
-/

namespace ShaderGraph

open Pass Relation

/-! ### The search -/

/-- What the search follows are connections of the graph. -/
theorem Graph.exists_of_leads {g : Graph} {id : NodeId} (h : g.expressions.Leads [] id) :
    ∃ n node, ReflTransGen g.Reads id n ∧ g.node? n = some node ∧ node.usesVirtualTexture := by
  induction h with
  | here _ he huses =>
    obtain ⟨node, hnode, rfl⟩ := exists_node he
    exact ⟨_, node, .refl, hnode, huses⟩
  | step _ he hi _ ih =>
    obtain ⟨node, hnode, rfl⟩ := exists_node he
    obtain ⟨n, found, hreads, hfound, huses⟩ := ih
    exact ⟨n, found, .head ⟨node, hnode, _, hi, rfl⟩ hreads, hfound, huses⟩

/-- With a step for each connection, the search is not cut off. -/
theorem ExpressionGraph.findsVirtualTexture_of_le (g : ExpressionGraph) (root : Input) {steps : Nat}
    (h : (g.expressions.flatMap (·.inputs)).length + 1 ≤ steps) :
    g.findsVirtualTexture steps [] [root] = g.reachesVirtualTexture root := by
  rw [Bool.eq_iff_iff, reachesVirtualTexture_iff,
    findsVirtualTexture_iff (by rwa [unseen_nil, Nat.add_comm])]
  simp

/-! ### Within reach -/

namespace Graph

/-- Looks out for nodes that cannot be reached from the given one. -/
def reach (g : Graph) (root : NodeId) : Watch where
  asked _ _ := True
  answered _ _ _ _ := True
  before ctx _ := ReflTransGen g.Reads root ctx.node
  after _ _ _ _ := True

/-- The graph, made to break off where a node is compiled that cannot be reached from the given
one. -/
noncomputable def within (g : Graph) (root : NodeId) (alarm : Fault) : ExpressionGraph :=
  g.expressions.map (Expression.watched (g.reach root) alarm)

open Classical in
/-- The keys of the nodes that are reached from a connection. -/
noncomputable def reachedKeys (g : Graph) (previousFrame : Bool) (root : Input) : Finset Key :=
  (g.keys previousFrame root).filter fun κ => ReflTransGen g.Reads root.node κ.node

section Reach

variable {g : Graph} {previousFrame : Bool} {root : Input}

theorem mem_reachedKeys {κ : Key} : κ ∈ g.reachedKeys previousFrame root ↔
    κ ∈ g.keys previousFrame root ∧ ReflTransGen g.Reads root.node κ.node := by
  classical exact Finset.mem_filter

theorem hasKeys_reached :
    g.expressions.HasKeys (g.reachedKeys previousFrame root) previousFrame := by
  intro κ e e' i ctx hκ he hi he' hprevious
  obtain ⟨hkey, hreads⟩ := mem_reachedKeys.1 hκ
  refine mem_reachedKeys.2 ⟨hasKeys hkey he hi he' hprevious, hreads.tail ?_⟩
  obtain ⟨node, hnode, rfl⟩ := exists_node he
  exact ⟨node, hnode, i, hi, rfl⟩

/-- A node with a key that is reached is compiled as before. -/
theorem within_renders (alarm : Fault) :
    (g.within root.node alarm).Renders g.expressions (g.reachedKeys previousFrame root) id := by
  intro n
  rw [within, ExpressionGraph.node?_map]
  cases g.expressions.node? n with
  | none => exact .inl ⟨rfl, rfl⟩
  | some e =>
    refine .inr ⟨e, _, rfl, rfl, fun {κ ctx c output} hκ hnode hctx => ?_⟩
    have hreads : ReflTransGen g.Reads root.node ctx.node :=
      hctx.trans hnode.symm ▸ (mem_reachedKeys.1 hκ).2
    have hask : (g.reach root.node).ask alarm c = c := by
      funext ctx input p
      exact guarded_eq trivial (fun _ _ _ => trivial) alarm
    funext p
    show guarded _ _ alarm (e.compile ((g.reach root.node).ask alarm c) ctx output) p = _
    rw [hask]
    exact guarded_eq hreads (fun _ _ _ => trivial) alarm

/-- **Nothing out of reach is compiled** from a connection on. -/
theorem compile_within (ctx : Context) (root : Input) (alarm : Fault) :
    Couples (SameFault none) (RestTwin g.expressions none) (RestTwin g.expressions none)
      (g.expressions.compile ctx root) ((g.within root.node alarm).compile ctx root) := by
  have hcard : (g.reachedKeys ctx.previousFrame root).card ≤
      (g.keys ctx.previousFrame root).card :=
    Finset.card_le_card fun _ hκ => (mem_reachedKeys.1 hκ).1
  have hdepth : ((g.reachedKeys ctx.previousFrame root).card + 1) ^
      ((g.reachedKeys ctx.previousFrame root).card + 1) ≤ g.expressions.depth :=
    ((Nat.pow_le_pow_left (Nat.succ_le_succ hcard) _).trans
      (Nat.pow_le_pow_right (Nat.succ_pos _) (Nat.succ_le_succ hcard))).trans pow_le_depth
  refine compileAt_rest (w := id) (fun _ h => by cases h) (fun _ _ _ _ _ => rfl) hasKeys_reached
    (fun e he => ?_) (within_renders alarm) hdepth hdepth
  exact mem_reachedKeys.2 ⟨keyOf_mem_keys (List.mem_cons_self ..) he rfl, .refl⟩

/-- The compiler of a graph, made to break off where a node is compiled for a property that cannot
be reached from the input of the property. -/
noncomputable def compileWithin (g : Graph) (env : Environment) (alarm : Fault) : Compiler :=
  fun ctx input => ctx.property.elim (g.expressions.compile ctx input) fun property =>
    (g.within (env.material.inputs.get property).node alarm).compile ctx input

theorem compileWithin_apart {env : Environment} {ctx : Context} (h : ctx.property = none)
    (alarm : Fault) (input : Input) :
    g.compileWithin env alarm ctx input = g.expressions.compile ctx input := by
  unfold compileWithin
  rw [h]
  rfl

end Reach

/-- All that a material asks for is compiled alike. -/
theorem graphsAgree_within (g : Graph) (env : Environment) (alarm : Fault) :
    GraphsAgree (SameFault none) (RestTwin g.expressions none)
      (fun _ => RestTwin g.expressions none) (fun _ => RestTwin g.expressions none) env
      g.expressions g.expressions g.expressions.compile (g.compileWithin env alarm) := by
  have hsame := graphsAgree (g := g) (w := id) (fun _ h => by cases (h : _ ∈ none))
    (fun _ _ _ _ _ => rfl) (Nat.le_refl _) env
  rw [ExpressionGraph.wrap_id] at hsame
  refine ⟨fun property p q _ hpq => ?_, fun id => ?_, fun id => ?_, fun _ => rfl⟩
  · exact compile_within _ _ alarm p q hpq
  · refine (hsame.interpolator id).imp_right fun ⟨i, i', hi, hi', h⟩ => ⟨i, i', hi, hi', ?_⟩
    intro ctx hctx hstage
    rw [compileWithin_apart hctx.property]
    exact h ctx hctx hstage
  · refine (hsame.customOutput id).imp_right fun ⟨e, e', out, he, he', hout, hout', h⟩ =>
      ⟨e, e', out, he, he', hout, hout', fun ctx output hctx hid => ?_⟩
    rw [compileOutput_congr he' hout' (compileWithin_apart hctx.property alarm)]
    exact h ctx output hctx hid

/-- **The search for virtual textures** says whether a node that uses one is reached, and covers all
that is compiled: a compilation does not change if it is made to break off where, for a property, a
node is compiled that cannot be reached from the input of the property. -/
theorem search_covers (g : Graph) (env : Environment) :
    (∀ root : Input,
      (g.expressions.reachesVirtualTexture root ↔ ∃ n node, ReflTransGen g.Reads root.node n ∧
        g.node? n = some node ∧ node.usesVirtualTexture) ∧
      ∀ steps, (g.expressions.expressions.flatMap (·.inputs)).length + 1 ≤ steps →
        g.expressions.findsVirtualTexture steps [] [root] =
          g.expressions.reachesVirtualTexture root) ∧
    ∀ alarm, runBy env g.expressions (g.compileWithin env alarm) {} =
      run env (some g.expressions) {} := by
  refine ⟨fun root => ⟨?_, fun steps => g.expressions.findsVirtualTexture_of_le root⟩,
    fun alarm => ?_⟩
  · rw [ExpressionGraph.reachesVirtualTexture_iff]
    exact ⟨exists_of_leads, fun ⟨_, _, hreads, hnode, huses⟩ => leads_of_reads hreads hnode huses⟩
  · obtain ⟨hall, -⟩ := RestTwin.settled (compileAll_couples RestTwin.hosts
      (g.graphsAgree_within env alarm) opened opened ⟨rfl, atRest_opened, nofun⟩)
    rw [runBy_eq, run_eq]
    exact bind_congr_run hall.symm _

end Graph

end ShaderGraph
