import ShaderGraph.Proofs.EqualCompilations

/-!
# Compilation with enough depth

Two compilers of a graph that start in the same state, with depth enough for both, do the same
(`Graph.compileAt_couples`): the keys in progress keep them from meeting the depth. If the nodes
have ranks that decrease along connections, they also never meet a key that is in progress.
-/

namespace ShaderGraph

open Pass

namespace ExpressionGraph

/-- Ranks of the nodes that decrease along connections. -/
def Ranks (g : ExpressionGraph) (r : NodeId → Nat) : Prop :=
  ∀ {n : NodeId} {e : Expression}, g.node? n = some e → ∀ i ∈ e.inputs, (g.node? i.node).isSome →
    r i.node < r n

/-- A set of keys that is closed under connections. -/
def HasKeys (g : ExpressionGraph) (keys : Finset Key) (previousFrame : Bool) : Prop :=
  ∀ {κ : Key} {e e' : Expression} {i : Input} {ctx : Context}, κ ∈ keys →
    g.node? κ.node = some e → i ∈ e.inputs → g.node? i.node = some e' →
    ctx.previousFrame = previousFrame → ctx.keyOf e' i ∈ keys

/-- A graph with other ways to compile the nodes of another one, which come to the same with a
change to compilers where a node has a key in a set. -/
def Renders (g' g : ExpressionGraph) (keys : Finset Key) (w : Compiler → Compiler) : Prop :=
  ∀ id, (g.node? id = none ∧ g'.node? id = none) ∨ ∃ e body, g.node? id = some e ∧
    g'.node? id = some { e with compile := body } ∧ ∀ {κ : Key} {ctx : Context} {c : Compiler}
      {output : Int}, κ ∈ keys → κ.node = id → ctx.node = id →
        body c ctx output = e.compile (w c) ctx output

/-- Whether compiling an input would meet a key in progress that has no result yet. -/
def reenters (g : ExpressionGraph) (ctx : Context) (input : Input) (p : Pass) : Bool :=
  (g.node? input.node).any fun e =>
    ((p.openFrames.get ctx.stage).head?.bind p.frame?).any (fun frame =>
        (frame.memo.lookup (ctx.keyOf e input)).isNone) &&
      ctx.inProgress p (ctx.keyOf e input)

/-- The graph with a change to the compiler that its expressions are given for their inputs. -/
def wrap (g : ExpressionGraph) (w : Compiler → Compiler) : ExpressionGraph :=
  { g with
    expressions := g.expressions.map fun e => { e with compile := fun c => e.compile (w c) } }

theorem node?_wrap (g : ExpressionGraph) (w : Compiler → Compiler) (id : NodeId) :
    (g.wrap w).node? id =
      (g.node? id).map fun e => { e with compile := fun c => e.compile (w c) } := by
  unfold node? wrap
  split
  · rfl
  · rw [List.getElem?_map]

theorem renders_wrap (g : ExpressionGraph) (keys : Finset Key) (w : Compiler → Compiler) :
    (g.wrap w).Renders g keys w := by
  intro id
  rw [node?_wrap]
  cases g.node? id with
  | none => exact .inl ⟨rfl, rfl⟩
  | some e => exact .inr ⟨e, _, rfl, rfl, fun _ _ _ => rfl⟩

end ExpressionGraph

/-- What may be compiled in a nesting: its key is one of the set and ranks below all in progress. -/
def Admits (g : ExpressionGraph) (rank : Option (NodeId → Nat)) (keys : Finset Key) (N : Nesting)
    (stack : List Nat) (ctx : Context) (input : Input) : Prop :=
  ∀ e : Expression, g.node? input.node = some e →
    ctx.keyOf e input ∈ keys ∧ Over rank N stack input.node

/-- Two compilers do the same on all that may be compiled, if their depths suffice. -/
def DescendAlike (g : ExpressionGraph) (rank : Option (NodeId → Nat)) (keys : Finset Key)
    (previousFrame : Bool) (n m : Nat) (c d : Compiler) : Prop :=
  ∀ {ctx : Context} {input : Input} {N : Nesting} {old : List Ties} {stack : List Nat}
    {links : List Key}, ctx.previousFrame = previousFrame →
    Poised g rank keys ctx.stage N old stack links → Admits g rank keys N stack ctx input →
    Enough keys N stack n → Enough keys N stack m →
    Twinned g rank N old (c ctx input) (d ctx input)

namespace Graph

variable {g : Graph} {n : NodeId} {e : Expression}

theorem node?_expressions (n : NodeId) :
    g.expressions.node? n = (g.node? n).map (Node.expression g) := by
  unfold ExpressionGraph.node? node? expressions
  split
  · rfl
  · rw [List.getElem?_map]

theorem mem_of_node? {node : Node} (h : g.node? n = some node) : node ∈ g.nodes := by
  unfold node? at h
  split at h
  · cases h
  · exact List.mem_of_getElem? h

theorem exists_node (h : g.expressions.node? n = some e) :
    ∃ node, g.node? n = some node ∧ node.expression g = e :=
  Option.map_eq_some_iff.1 (node?_expressions n ▸ h)

/-- The arguments of a call are among the inputs of its node. -/
theorem argument_mem_inputs {call : Call} {index : Int} (h : g.expressions.node? n = some e)
    (hcall : e.call? = some call) (hconnected : (call.argument index).isConnected) :
    call.argument index ∈ e.inputs := by
  obtain ⟨node, -, rfl⟩ := exists_node h
  cases node with
  | functionCall f arguments =>
    cases hcall
    exact List.mem_append_left _ (Call.argument_mem hconnected)
  | _ => cases hcall

end Graph

/-! ### What may be compiled next -/

variable {rank : Option (NodeId → Nat)} {keys : Finset Key} {previousFrame : Bool} {ctx : Context}
variable {N : Nesting} {old : List Ties} {home : Nat} {stack : List Nat} {links : List Key}
variable {κ : Key}

section Admits

variable {g : ExpressionGraph} {stage : Stage} {b : Nat} {e : Expression} {i : Input}

/-- What ranks below all that is in progress is not in progress. -/
theorem Pass.Over.not_mem_active {n : NodeId} (hover : Over rank N stack n) (hκ : κ.node = n)
    (hrank : rank.isSome) : ∀ f ∈ stack, κ ∉ N.active f := by
  obtain ⟨r, rfl⟩ := Option.isSome_iff_exists.1 hrank
  subst hκ
  intro f hf hactive
  exact Nat.lt_irrefl _ (hover r rfl f hf κ hactive)

/-- What is in progress once a key is ranks at least as high. -/
theorem le_of_over (hover : Over rank N (home :: stack) κ.node) :
    ∀ r ∈ rank, ∀ f ∈ home :: stack, ∀ κ' ∈ (N.enter home κ).active f, r κ.node ≤ r κ'.node := by
  intro r hr f hf κ' hκ'
  rcases Nesting.mem_enter.1 hκ' with ⟨-, rfl⟩ | hκ'
  · exact Nat.le_refl _
  · exact Nat.le_of_lt (hover r hr f hf κ' hκ')

section

variable (hrank : ∀ r ∈ rank, g.Ranks r) (hkeys : g.HasKeys keys previousFrame)
  (hprevious : ctx.previousFrame = previousFrame)

include hrank hkeys hprevious

/-- An input of a node in progress. -/
theorem Admits.input (hκ : κ ∈ keys) (he : g.node? κ.node = some e)
    (hi : i ∈ e.inputs) (hover : Over rank N (home :: stack) κ.node) :
    Admits g rank keys (N.enter home κ) (home :: stack) ctx i := by
  intro e' he'
  refine ⟨hkeys hκ he hi he' hprevious, fun r hr f hf κ' hκ' => ?_⟩
  exact Nat.lt_of_lt_of_le (hrank r hr he i hi (by rw [he']; rfl))
    (le_of_over hover r hr f hf κ' hκ')

/-- An argument of the innermost call, in the frame of the caller: nothing in progress there is of
lower rank than the call. -/
theorem Admits.argument (he : g.node? κ.node = some e)
    (hi : i ∈ e.inputs)
    (hpoised : Poised g rank keys stage N old (b :: home :: stack) (κ :: links)) :
    Admits g rank keys (N.reopen stage (home :: stack)) (home :: stack) ctx i := by
  intro e' he'
  cases hpoised.linked with
  | call _ _ _ _ hκ _ hshelter =>
    refine ⟨hkeys (hpoised.subset _ _ hκ) he hi he' hprevious, fun r hr f hf κ' hκ' => ?_⟩
    exact Nat.lt_of_lt_of_le (hrank r hr he i hi (by rw [he']; rfl)) (hshelter r hr f hf κ' hκ')

/-- The body that a call goes on with, in the frame of the call. -/
theorem Admits.body (hκ : κ ∈ keys) (he : g.node? κ.node = some e)
    (hi : i ∈ e.inputs) (hover : Over rank N (home :: stack) κ.node)
    (hpoised : Poised g rank keys stage N old (home :: stack) links) {t : Ties}
    (ht : old[home]? = some t) (hb : (κ.ofCall, b) ∈ t.shared) :
    Admits g rank keys ((N.enter home κ).reopen stage (b :: home :: stack)) (b :: home :: stack) ctx
      i := by
  intro e' he'
  refine ⟨hkeys hκ he hi he' hprevious, fun r hr f hf κ' hκ' => ?_⟩
  rcases List.mem_cons.1 hf with rfl | hf
  · -- The frame of the call is idle: no other key of its node is in progress below it.
    have hne : f ≠ home := Nat.ne_of_gt (hpoised.ties.child ht hb).1
    rw [Nesting.reopen_active, Nesting.enter_active_of_ne hne] at hκ'
    obtain ⟨κ'', hκ'', hsame⟩ := hpoised.busy.called ht hb (List.ne_nil_of_mem hκ')
    have hlower := hover r hr home (by simp) κ'' hκ''
    rw [hsame] at hlower
    exact absurd hlower (Nat.lt_irrefl _)
  · exact Nat.lt_of_lt_of_le (hrank r hr he i hi (by rw [he']; rfl))
      (le_of_over hover r hr f hf κ' hκ')

end

/-- A call whose key comes into progress is not among those that opened the frames. -/
theorem not_mem_links (hpoised : Poised g rank keys stage N old stack links)
    (hnew : ∀ f ∈ stack, κ ∉ N.active f) : κ ∉ links := by
  intro hlink
  obtain ⟨f, hf, hactive⟩ := hpoised.linked.exists_of_mem_links hlink
  exact hnew f hf hactive

end Admits

section Body

variable {g : Graph} {n m : Nat} {c d : Compiler}

/-- **Nodes are compiled alike** once their keys are in progress. -/
theorem Node.compile_couples {node : Node} (hrank : ∀ r ∈ rank, g.expressions.Ranks r)
    (hkeys : g.expressions.HasKeys keys previousFrame)
    (hdescend : DescendAlike g.expressions rank keys previousFrame n m c d)
    (hnode : g.expressions.node? κ.node = some (node.expression g))
    (hprevious : ctx.previousFrame = previousFrame)
    (hpoised : Poised g.expressions rank keys ctx.stage N old (home :: stack) links)
    (hκ : κ ∈ keys) (hnew : ∀ f ∈ home :: stack, κ ∉ N.active f)
    (hover : Over rank N (home :: stack) κ.node)
    (hn : Enough keys N (home :: stack) (n + 1)) (hm : Enough keys N (home :: stack) (m + 1))
    (hshared : (node.expression g).call?.isSome → GivesFrame old home κ ctx.shared)
    (output : Int) :
    Twinned g.expressions rank (N.enter home κ) old (node.compile g c ctx output)
      (node.compile g d ctx output) := by
  have hentered := hpoised.enter hκ hnew
  have hn' := hpoised.enoughWithin_enter hn κ
  have hm' := hpoised.enoughWithin_enter hm κ
  have hinput : ∀ i ∈ node.inputs g, Twinned g.expressions rank (N.enter home κ) old
      (c ctx i) (d ctx i) := fun i hi =>
    hdescend hprevious hentered (.input hrank hkeys hprevious hκ hnode hi hover)
      (Poised.enough_of_within hn') (Poised.enough_of_within hm')
  by_cases hstays : node.staysInFrame
  · exact (node.compile_built g hstays output).couples Twin.absorbs (Twin.readInterpolator ctx)
      hinput
  cases node with
  | functionInput f index name type preview =>
    refine functionArgument_couples hentered (hinput preview (by simp [inputs])) ?_
    rintro top below rest κ' links' e call hstack rfl he hcall hconnected
    obtain ⟨rfl, rfl⟩ := List.cons.inj hstack
    have hmem := Graph.argument_mem_inputs he hcall hconnected
    exact hdescend hprevious hentered.pop (.argument hrank hkeys hprevious he hmem hentered)
      (hentered.enough_pop hn') (hentered.enough_pop hm')
  | functionCall f arguments =>
    obtain ⟨b, t, hctx, ht, hb⟩ := hshared rfl
    obtain ⟨hlt, e, call, he, hcall, hframe⟩ := hpoised.ties.child ht hb
    cases hnode.symm.trans he
    cases hcall
    obtain ⟨t', ht', heq⟩ := Option.map_eq_some_iff.1 hframe
    show Couples _ _ _ (compileCall g c ctx f arguments output)
      (compileCall g d ctx f arguments output)
    unfold compileCall
    dsimp only
    split
    · exact Twin.report _ fun _ => rfl
    split
    · exact Twin.report _ fun _ => rfl
    rename_i id hid
    have hmem : ({ node := id } : Input) ∈ (functionCall f arguments).inputs g := by
      refine List.mem_append_right _ (List.mem_map_of_mem ?_)
      split at hid
      · cases hid
      · exact List.mem_of_getElem? hid
    refine callFunction_couples hctx ht' (congrArg Prod.fst heq) ?_
    have hopened : (N.enter home κ).opened ctx.stage = home :: stack := hpoised.opened
    rw [hopened]
    have hpushed := hentered.push ht hb hlt (by simp) (not_mem_links hpoised hnew)
      (le_of_over hover)
    exact hdescend hprevious hpushed (.body hrank hkeys hprevious hκ hnode hmem hover hpoised ht hb)
      (Poised.enough_push hn') (Poised.enough_push hm')
  | _ => exact absurd rfl hstays

end Body

/-! ### Graphs -/

/-- A change to compilers that matters only where a key in progress is met again. -/
def Harmless (g : ExpressionGraph) (rank : Option (NodeId → Nat)) (w : Compiler → Compiler) :
    Prop :=
  ∀ (c : Compiler) (ctx : Context) (input : Input) (p : Pass),
    (rank.isSome → g.reenters ctx input p = false) → w c ctx input p = c ctx input p

section Graphs

variable {g : ExpressionGraph} {w : Compiler → Compiler}

/-- So it is not met again. -/
theorem not_reenters {ctx : Context} {input : Input} {N : Nesting} {p : Pass}
    (hnesting : p.nesting = N) (hadmits : Admits g rank keys N (N.opened ctx.stage) ctx input)
    (hrank : rank.isSome) : g.reenters ctx input p = false := by
  unfold ExpressionGraph.reenters
  cases he : g.node? input.node with
  | none => rfl
  | some e =>
    have hprogress : ctx.inProgress p (ctx.keyOf e input) = false := by
      by_contra h
      obtain ⟨f, hf, hκ⟩ := Context.inProgress_iff.1 (Bool.eq_true_of_not_eq_false h)
      rw [hnesting] at hf hκ
      exact (hadmits e he).2.not_mem_active rfl hrank f hf hκ
    simp [hprogress]

theorem DescendAlike.wrap {n m : Nat} {c d : Compiler}
    (h : DescendAlike g rank keys previousFrame n m c d) (hw : Harmless g rank w) :
    DescendAlike g rank keys previousFrame n m c (w d) := by
  intro ctx input N old stack links hprevious hpoised hadmits hn hm p q hpq
  obtain rfl := hpq.1
  rw [hw d ctx input p (not_reenters hpq.2.1.nesting (hpoised.opened ▸ hadmits))]
  exact h hprevious hpoised hadmits hn hm p p hpq

/-- **Depth that suffices**: with it, two compilers of a graph do the same, whatever is done where a
key in progress would be met, and whatever nodes without keys in the set are compiled to. -/
theorem Graph.compileAt_couples {g : Graph} (hrank : ∀ r ∈ rank, g.expressions.Ranks r)
    (hkeys : g.expressions.HasKeys keys previousFrame) (hw : Harmless g.expressions rank w)
    {g' : ExpressionGraph} (hg' : g'.Renders g.expressions keys w) :
    ∀ n m : Nat, DescendAlike g.expressions rank keys previousFrame n m (g.expressions.compileAt n)
      (g'.compileAt m) := by
  intro n
  induction n with
  | zero =>
    intro m ctx input N old stack links _ hpoised _ hn _
    exact absurd (hpoised.pos_of_enough hn) (Nat.lt_irrefl _)
  | succ n ih =>
    intro m ctx input N old stack links hprevious hpoised hadmits hn hm
    obtain ⟨m, rfl⟩ := Nat.exists_eq_add_one.2 (hpoised.pos_of_enough hm)
    unfold ExpressionGraph.compileAt
    split
    · exact .pure _
    rcases hg' input.node with ⟨he, he'⟩ | ⟨e, body, he, he', hbody⟩ <;> simp only [he, he']
    · exact Twin.report ctx fun _ => rfl
    · obtain ⟨hκ, hover⟩ := hadmits e he
      obtain ⟨node, -, rfl⟩ := exists_node he
      obtain ⟨home, stack, rfl⟩ : ∃ home rest, stack = home :: rest := by
        cases hpoised.linked with
        | root => exact ⟨_, _, rfl⟩
        | call => exact ⟨_, _, rfl⟩
      refine compileExpression_couples hpoised (hover.not_mem_active rfl) fun hnew => ?_
      refine compileFresh_couples hpoised he fun old₁ shared hgrows hties hgives => ?_
      have hprevious' : Context.previousFrame { ctx with node := input.node, shared } =
        previousFrame := hprevious
      rw [hbody hκ rfl rfl]
      exact Node.compile_couples hrank hkeys (DescendAlike.wrap (ih m) hw) he hprevious'
        (hpoised.mono hgrows hties) hκ hnew hover hn hm hgives _

end Graphs

end ShaderGraph
