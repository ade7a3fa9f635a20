import Mathlib.Data.List.Perm.Subperm
import ShaderGraph.Proofs.Cycles
import ShaderGraph.Proofs.Reachability

/-!
# Inlining

The inlined graph has a copy of every node for every chain of calls that may lead to it. The copy of
a call passes on the copy of the output it calls, and the copy of a function input brings the
argument of its call, or else its preview, to the type of the input. So it has no calls left.

The copies outside of all calls keep the numbers of their nodes. If the graph has no cycles, every
chain of calls that a compilation meets has its copies (`Graph.Nested.mem_copies`), and both graphs
lead to the same virtual textures (`Graph.virtualTextureProblems_inlined`).
-/

namespace ShaderGraph

open Pass

/-- An expression without code. -/
def Expression.blank : Expression where
  kind := ""
  inputs := []
  compile _ _ _ := return none

namespace Graph

/-! ### Copies -/

/-- The numbers of the nodes. -/
def ids (g : Graph) : List NodeId := List.range' 1 g.nodes.length

/-- The numbers of the calls. -/
def calls (g : Graph) : List NodeId :=
  g.ids.filter fun n => ((g.expressions.node? n).bind (·.call?)).isSome

/-- The chains of so many calls, the innermost first. -/
def chains (g : Graph) : Nat → List (List NodeId)
  | 0 => [[]]
  | k + 1 => (g.chains k).flatMap fun chain => g.calls.map (· :: chain)

/-- The copies of the nodes, one for each chain of calls. -/
def copies (g : Graph) : List (List NodeId × NodeId) :=
  ((List.range (g.nodes.length + 1)).flatMap g.chains).flatMap fun chain => g.ids.map (chain, ·)

/-- The number of a copy, beyond all copies if there is none. -/
def copyNumber (g : Graph) (chain : List NodeId) (n : NodeId) : NodeId :=
  g.copies.idxOf (chain, n) + 1

/-- The copy of what an input is connected to. -/
def copyInput (g : Graph) (chain : List NodeId) (i : Input) : Input :=
  if i.isConnected then { i with node := g.copyNumber chain i.node } else i

/-- A compiler of copies as a compiler of what they are copies of. -/
def onCopies (g : Graph) (chain : List NodeId) (compile : Compiler) : Compiler :=
  fun ctx i => compile ctx (g.copyInput chain i)

/-- The argument that the innermost call gives to a function input, a copy for the other calls. -/
def argumentOf (g : Graph) (index : Int) : List NodeId → Input
  | [] => .none
  | n :: chain =>
    ((g.expressions.node? n).bind (·.call?)).elim .none fun call =>
      g.copyInput chain (call.argument index)

end Graph

namespace Node

/-- The inputs of a copy. -/
def copyInputs (g : Graph) (chain : List NodeId) (n : NodeId) : Node → List Input
  | functionInput _ index _ _ preview => [g.argumentOf index chain, g.copyInput chain preview]
  | functionCall f arguments =>
    arguments.map (g.copyInput chain) ++
      (g.function f).outputs.map fun id => g.copyInput (n :: chain) { node := id }
  | node => (node.inputs g).map (g.copyInput chain)

/-- Goes on with the output of a function that is called. -/
def selectOutput (g : Graph) (ctx : Context) (f : FunctionId) (arguments : List Input)
    (output : Int) (select : Input → PassM Code) : PassM Code :=
  let function := g.function f
  if function.inputs.length < arguments.length then
    ctx.report (.argumentCount function.name arguments.length function.inputs.length)
  else
    match if output < 0 then none else function.outputs[output.toNat]? with
    | none => ctx.report (.noFunctionOutput function.name output)
    | some id => select { node := id }

/-- Compiles an output of a copy. What it reports is put down to the node. -/
def compileCopy (g : Graph) (chain : List NodeId) (n : NodeId) (node : Node) (compile : Compiler)
    (ctx : Context) (output : Int) : PassM Code :=
  let ctx := { ctx with node := n }
  match node with
  | functionInput _ index _ type preview => do
    let argument := g.argumentOf index chain
    if argument.isConnected then ctx.convert (← compile ctx argument) type
    else if preview.isConnected then
      ctx.convert (← g.onCopies chain compile ctx preview) type
    else ctx.report (.missingFunctionInput index)
  | functionCall f arguments =>
    selectOutput g ctx f arguments output (ctx.compileBody (g.onCopies (n :: chain) compile))
  | node => node.compile g (g.onCopies chain compile) ctx output

/-- A copy of a node. Interpolators and custom outputs are those outside of all calls. -/
def copy (g : Graph) (chain : List NodeId) (n : NodeId) (node : Node) : Expression :=
  { node.expression g with
    inputs := node.copyInputs g chain n
    call? := none
    vertexInput? :=
      if chain.isEmpty then (node.expression g).vertexInput?.map (g.copyInput chain) else none
    customOutput? := if chain.isEmpty then (node.expression g).customOutput? else none
    compile := node.compileCopy g chain n }

section Stays

variable {g : Graph} {chain : List NodeId} {n : NodeId} {node : Node}

theorem copyInputs_of_stays (h : node.staysInFrame) :
    node.copyInputs g chain n = (node.inputs g).map (g.copyInput chain) := by
  cases node <;> first | rfl | cases h

theorem compileCopy_of_stays (h : node.staysInFrame) (compile : Compiler) (ctx : Context)
    (output : Int) :
    node.compileCopy g chain n compile ctx output =
      node.compile g (g.onCopies chain compile) { ctx with node := n } output := by
  cases node <;> first | rfl | cases h

end Stays

end Node

namespace Graph

/-- **The inlined graph**, with every call replaced by copies of what it calls. -/
def inlined (g : Graph) : ExpressionGraph where
  expressions := g.copies.map fun c => (g.node? c.2).elim .blank (Node.copy g c.1 c.2)
  depth := g.expressions.depth

variable {g : Graph} {chain : List NodeId} {n m : NodeId} {node : Node} {e : Expression} {i : Input}

theorem mem_ids_iff_le : n ∈ g.ids ↔ n ≠ 0 ∧ n ≤ g.nodes.length := by
  unfold ids
  rw [List.mem_range'_1, Nat.one_le_iff_ne_zero, Nat.add_comm, Nat.lt_succ_iff]

theorem mem_ids : n ∈ g.ids ↔ (g.node? n).isSome := by
  rw [mem_ids_iff_le]
  unfold node?
  split
  case isTrue h => simp [h]
  case isFalse h =>
    rw [isSome_getElem?]
    exact ⟨fun hn => Nat.sub_one_lt_of_le (Nat.pos_of_ne_zero h) hn.2,
      fun hn => ⟨h, Nat.le_of_pred_lt hn⟩⟩

theorem mem_ids_of_node? (h : g.node? n = some node) : n ∈ g.ids := mem_ids.2 (by rw [h]; rfl)

theorem mem_calls : n ∈ g.calls ↔ ∃ f arguments, g.node? n = some (.functionCall f arguments) := by
  unfold calls
  rw [List.mem_filter, mem_ids, node?_expressions]
  cases g.node? n with
  | none => simp
  | some node => cases node <;> simp [Node.expression]

theorem mem_chains {k : Nat} :
    chain ∈ g.chains k ↔ chain.length = k ∧ ∀ c ∈ chain, c ∈ g.calls := by
  induction k generalizing chain with
  | zero =>
    rw [chains, List.mem_singleton, List.length_eq_zero_iff]
    constructor
    · rintro rfl
      simp
    · exact And.left
  | succ k ih =>
    rw [chains, List.mem_flatMap]
    constructor
    · rintro ⟨rest, hrest, hmem⟩
      obtain ⟨c, hc, rfl⟩ := List.mem_map.1 hmem
      obtain ⟨hlength, hcalls⟩ := ih.1 hrest
      exact ⟨by rw [List.length_cons, hlength], List.forall_mem_cons.2 ⟨hc, hcalls⟩⟩
    · rintro ⟨hlength, hcalls⟩
      cases chain with
      | nil => cases hlength
      | cons c rest =>
        obtain ⟨hc, hrest⟩ := List.forall_mem_cons.1 hcalls
        exact ⟨rest, ih.2 ⟨Nat.succ.inj hlength, hrest⟩, List.mem_map_of_mem hc⟩

theorem mem_copies : (chain, n) ∈ g.copies ↔
    chain.length ≤ g.nodes.length ∧ (∀ c ∈ chain, c ∈ g.calls) ∧ n ∈ g.ids := by
  unfold copies
  simp only [List.mem_flatMap, List.mem_range, List.mem_map, Prod.mk.injEq, mem_chains]
  constructor
  · rintro ⟨chain', ⟨k, hk, rfl, hcalls⟩, n', hn, rfl, rfl⟩
    exact ⟨Nat.le_of_lt_succ hk, hcalls, hn⟩
  · rintro ⟨hlength, hcalls, hn⟩
    exact ⟨chain, ⟨_, Nat.lt_succ_of_le hlength, rfl, hcalls⟩, n, hn, rfl, rfl⟩

theorem copyNumber_inj {chain' : List NodeId} {n' : NodeId} (h : (chain, n) ∈ g.copies)
    (heq : g.copyNumber chain n = g.copyNumber chain' n') : chain = chain' ∧ n = n' := by
  have hsame := (List.idxOf_inj h).1 (Nat.succ.inj heq)
  exact Prod.mk.inj hsame

theorem node?_copyNumber (h : (chain, n) ∈ g.copies) (hnode : g.node? n = some node) :
    g.inlined.node? (g.copyNumber chain n) = some (node.copy g chain n) := by
  unfold ExpressionGraph.node? copyNumber inlined
  rw [if_neg (Nat.succ_ne_zero _), Nat.add_sub_cancel, List.getElem?_map, List.getElem?_idxOf h]
  simp [hnode]

theorem mem_copies_of_node? (h : g.inlined.node? (g.copyNumber chain n) = some e) :
    (chain, n) ∈ g.copies := by
  unfold ExpressionGraph.node? copyNumber inlined at h
  rw [if_neg (Nat.succ_ne_zero _), Nat.add_sub_cancel, List.getElem?_map] at h
  obtain ⟨c, hc, -⟩ := Option.map_eq_some_iff.1 h
  exact List.idxOf_lt_length_iff.1 (List.getElem?_eq_some_iff.1 hc).1

/-- The inlined graph has no calls. -/
theorem call?_inlined (h : g.inlined.node? n = some e) : e.call? = none := by
  unfold ExpressionGraph.node? inlined at h
  split at h
  · cases h
  · rw [List.getElem?_map] at h
    obtain ⟨c, -, rfl⟩ := Option.map_eq_some_iff.1 h
    cases g.node? c.2 <;> rfl

/-! ### Copies outside of all calls -/

theorem copies_eq : ∃ rest, g.copies = g.ids.map ([], ·) ++ rest ∧ ∀ c ∈ rest, c.1 ≠ [] := by
  have heq : g.copies = g.ids.map ([], ·) ++
      (((List.range g.nodes.length).map Nat.succ).flatMap g.chains).flatMap fun chain =>
        g.ids.map (chain, ·) := by
    unfold copies
    rw [List.range_succ_eq_map, List.flatMap_cons, List.flatMap_append]
    simp only [chains, List.flatMap_cons, List.flatMap_nil, List.append_nil]
  refine ⟨_, heq, fun c hc => ?_⟩
  simp only [List.mem_flatMap, List.mem_map, List.mem_range] at hc
  obtain ⟨chain, ⟨_, ⟨k, -, rfl⟩, hchain⟩, n, -, rfl⟩ := hc
  have hlength := (mem_chains.1 hchain).1
  rintro (rfl : chain = [])
  cases hlength

theorem copyNumber_nil (h : n ∈ g.ids) : g.copyNumber [] n = n := by
  obtain ⟨rest, heq, -⟩ := g.copies_eq
  have hmem : ([], n) ∈ g.ids.map (([], ·) : NodeId → List NodeId × NodeId) := List.mem_map_of_mem h
  unfold copyNumber
  rw [heq, List.idxOf_append_of_mem hmem]
  have hget := List.getElem?_idxOf hmem
  rw [List.getElem?_map] at hget
  obtain ⟨n', hn', hpair⟩ := Option.map_eq_some_iff.1 hget
  obtain rfl := (Prod.mk.inj hpair).2
  unfold ids at hn'
  obtain ⟨hlt, hsame⟩ := List.getElem?_eq_some_iff.1 hn'
  rw [List.getElem_range', Nat.one_mul, Nat.add_comm] at hsame
  exact hsame

theorem copyInput_nil (h : i.node ≤ g.nodes.length) : g.copyInput [] i = i := by
  unfold copyInput
  split
  case isTrue hconnected =>
    have hzero : i.node ≠ 0 := by simpa [Input.isConnected] using hconnected
    rw [copyNumber_nil (mem_ids_iff_le.2 ⟨hzero, h⟩)]
  case isFalse => rfl

/-- Outside of all calls, the copies are numbered as their nodes. -/
theorem node?_inlined (h : n ≤ g.nodes.length) :
    g.inlined.node? n = (g.node? n).map (Node.copy g [] n) := by
  by_cases hzero : n = 0
  · subst hzero
    rfl
  · have hid : n ∈ g.ids := mem_ids_iff_le.2 ⟨hzero, h⟩
    obtain ⟨node, hnode⟩ := Option.isSome_iff_exists.1 (mem_ids.1 hid)
    have hmem : (([] : List NodeId), n) ∈ g.copies := mem_copies.2 ⟨Nat.zero_le _, nofun, hid⟩
    have hcopy := node?_copyNumber hmem hnode
    rw [copyNumber_nil hid] at hcopy
    rw [hcopy, hnode]
    rfl

/-- Beyond them, the copies are neither interpolators nor custom outputs. -/
theorem inlined_beyond (h : g.nodes.length < n) (he : g.inlined.node? n = some e) :
    e.vertexInput? = none ∧ e.customOutput? = none := by
  unfold ExpressionGraph.node? inlined at he
  rw [if_neg (Nat.ne_of_gt (Nat.zero_lt_of_lt h)), List.getElem?_map] at he
  obtain ⟨⟨chain, n'⟩, hc, rfl⟩ := Option.map_eq_some_iff.1 he
  obtain ⟨rest, heq, hrest⟩ := g.copies_eq
  have hle : (g.ids.map (([], ·) : NodeId → List NodeId × NodeId)).length ≤ n - 1 := by
    rw [List.length_map, ids, List.length_range']
    exact Nat.le_sub_one_of_lt h
  rw [heq, List.getElem?_append_right hle] at hc
  have hne : chain ≠ [] := hrest _ (List.mem_of_getElem? hc)
  cases g.node? n' with
  | none => exact ⟨rfl, rfl⟩
  | some node => simp [Node.copy, hne]

theorem node?_expression (h : g.node? n = some node) :
    g.expressions.node? n = some (node.expression g) := by
  rw [node?_expressions, h]
  rfl

/-- A number is that of a node and its copy, or it is neither an interpolator nor a custom output on
either side. -/
theorem inlined_cases (n : NodeId) :
    (∃ node : Node, g.expressions.node? n = some (node.expression g) ∧
      g.inlined.node? n = some (node.copy g [] n)) ∨
    g.expressions.node? n = none ∧
      ∀ e, g.inlined.node? n = some e → e.vertexInput? = none ∧ e.customOutput? = none := by
  by_cases hle : n ≤ g.nodes.length
  · cases hnode : g.node? n with
    | none =>
      refine .inr ⟨by rw [node?_expressions, hnode]; rfl, fun e he => ?_⟩
      rw [node?_inlined hle, hnode] at he
      cases he
    | some node => exact .inl ⟨node, node?_expression hnode, by rw [node?_inlined hle, hnode]; rfl⟩
  · refine .inr ⟨?_, fun e he => inlined_beyond (Nat.lt_of_not_le hle) he⟩
    rw [node?_expressions]
    cases hnode : g.node? n with
    | none => rfl
    | some node => exact absurd (le_length_of_node? hnode) hle

theorem vertexInput?_inlined (n : NodeId) : (g.inlined.node? n).bind (·.vertexInput?) =
    ((g.expressions.node? n).bind (·.vertexInput?)).map (g.copyInput []) := by
  rcases inlined_cases n with ⟨node, he, he'⟩ | ⟨he, he'⟩
  · rw [he, he']
    rfl
  · rw [he]
    cases hcopy : g.inlined.node? n with
    | none => rfl
    | some e => exact (he' e hcopy).1

theorem customOutput?_inlined (n : NodeId) : (g.inlined.node? n).bind (·.customOutput?) =
    (g.expressions.node? n).bind (·.customOutput?) := by
  rcases inlined_cases n with ⟨node, he, he'⟩ | ⟨he, he'⟩
  · rw [he, he']
    rfl
  · rw [he]
    cases hcopy : g.inlined.node? n with
    | none => rfl
    | some e => exact (he' e hcopy).2

/-! ### Chains of calls -/

/-- A chain of calls that may lead to a node: what is called ranks below the call. -/
structure Nested (g : Graph) (chain : List NodeId) (n : NodeId) : Prop where
  calls : ∀ c ∈ chain, c ∈ g.calls
  descends : (n :: chain).Pairwise fun a b => g.height a < g.height b

namespace Nested

theorem root : g.Nested [] n := ⟨nofun, List.pairwise_singleton ..⟩

/-- Without cycles, the calls of a chain are different, so there is a copy for it. -/
theorem mem_copies (h : g.Nested chain n) (hn : n ∈ g.ids) : (chain, n) ∈ g.copies := by
  refine Graph.mem_copies.2 ⟨?_, h.calls, hn⟩
  have hnodup : chain.Nodup := (List.pairwise_cons.1 h.descends).2.imp fun hlt heq => by
    rw [heq] at hlt
    exact Nat.lt_irrefl _ hlt
  have hsubset : chain ⊆ g.ids := fun c hc => (List.mem_filter.1 (h.calls c hc)).1
  have hle := (hnodup.subperm hsubset).length_le
  rwa [ids, List.length_range'] at hle

theorem below (h : g.Nested chain n) (hlt : g.height m < g.height n) : g.Nested chain m := by
  obtain ⟨hn, hchain⟩ := List.pairwise_cons.1 h.descends
  exact ⟨h.calls, List.pairwise_cons.2 ⟨fun c hc => Nat.lt_trans hlt (hn c hc), hchain⟩⟩

theorem called (h : g.Nested chain n) (hn : n ∈ g.calls) (hlt : g.height m < g.height n) :
    g.Nested (n :: chain) m where
  calls := List.forall_mem_cons.2 ⟨hn, h.calls⟩
  descends := List.pairwise_cons.2 ⟨List.forall_mem_cons.2 ⟨hlt, fun c hc =>
    Nat.lt_trans hlt ((List.pairwise_cons.1 h.descends).1 c hc)⟩, h.descends⟩

theorem caller {c : NodeId} (h : g.Nested (c :: chain) n) : g.Nested chain c :=
  ⟨(List.forall_mem_cons.1 h.calls).2, (List.pairwise_cons.1 h.descends).2⟩

end Nested

/-! ### Virtual textures -/

theorem isConnected_of_node? {G : ExpressionGraph} (h : G.node? i.node = some e) :
    i.isConnected := by
  by_contra hconnected
  have hzero : i.node = 0 := by simpa [Input.isConnected] using hconnected
  rw [hzero] at h
  cases h

theorem copyInput_node (h : i.isConnected) (chain : List NodeId) :
    (g.copyInput chain i).node = g.copyNumber chain i.node := by
  rw [copyInput, if_pos h]

theorem isConnected_copyInput (chain : List NodeId) (i : Input) :
    (g.copyInput chain i).isConnected = i.isConnected := by
  unfold copyInput
  split
  case isTrue h =>
    rw [h]
    exact bne_iff_ne.2 (Nat.succ_ne_zero _)
  case isFalse => rfl

/-- What an input of a copy leads to is a copy. -/
theorem mem_copies_of_leads {visited : List NodeId}
    (h : g.inlined.Leads visited (g.copyInput chain i).node) :
    (g.copyInput chain i).node = g.copyNumber chain i.node ∧ (chain, i.node) ∈ g.copies := by
  obtain ⟨e, he⟩ := h.exists_node
  have hconnected := isConnected_of_node? he
  rw [isConnected_copyInput] at hconnected
  rw [copyInput_node hconnected] at he ⊢
  exact ⟨rfl, mem_copies_of_node? he⟩

theorem argumentOf_cons {call : Call} (he : g.expressions.node? n = some e)
    (hcall : e.call? = some call) (index : Int) (chain : List NodeId) :
    g.argumentOf index (n :: chain) = g.copyInput chain (call.argument index) := by
  simp [argumentOf, he, hcall]

/-- An argument is an input of the innermost call. -/
theorem exists_call_of_argumentOf {index : Int} (h : (g.argumentOf index chain).isConnected) :
    ∃ c caller e call, chain = c :: caller ∧ g.expressions.node? c = some e ∧
      e.call? = some call ∧ call.argument index ∈ e.inputs := by
  cases chain with
  | nil => cases h
  | cons c caller =>
    cases he : g.expressions.node? c with
    | none => simp [argumentOf, he, Input.none, Input.isConnected] at h
    | some e =>
      cases hcall : e.call? with
      | none => simp [argumentOf, he, hcall, Input.none, Input.isConnected] at h
      | some call =>
        rw [argumentOf_cons he hcall, isConnected_copyInput] at h
        exact ⟨c, caller, e, call, rfl, he, hcall, argument_mem_inputs he hcall h⟩

theorem node?_of_mem_copies (h : (chain, n) ∈ g.copies) : ∃ node, g.node? n = some node :=
  Option.isSome_iff_exists.1 (mem_ids.1 (Graph.mem_copies.1 h).2.2)

/-- If a copy leads to a virtual texture, its node or one of the calls does. -/
theorem leads_of_inlined {k : NodeId} (h : g.inlined.Leads [] k) :
    ∀ {chain n}, (chain, n) ∈ g.copies → k = g.copyNumber chain n →
      ∃ m ∈ n :: chain, g.expressions.Leads [] m := by
  induction h with
  | here _ he huses =>
    rintro chain n hcopy rfl
    obtain ⟨node, hnode⟩ := node?_of_mem_copies hcopy
    obtain rfl := Option.some.inj ((node?_copyNumber hcopy hnode).symm.trans he)
    exact ⟨n, by simp, .here (e := node.expression g) (by simp) (node?_expression hnode) huses⟩
  | @step k e i _ he hi hleads ih =>
    rintro chain n hcopy rfl
    obtain ⟨node, hnode⟩ := node?_of_mem_copies hcopy
    obtain rfl := Option.some.inj ((node?_copyNumber hcopy hnode).symm.trans he)
    have hexpression : g.expressions.node? n = some (node.expression g) := node?_expression hnode
    have hvia : ∀ {chain' : List NodeId} {j : Input}, i = g.copyInput chain' j →
        ∃ m ∈ j.node :: chain', g.expressions.Leads [] m := by
      rintro chain' j rfl
      obtain ⟨hnumber, hmem⟩ := mem_copies_of_leads hleads
      exact ih hmem hnumber
    -- What an input of the node leads to, the node leads to as well.
    have hinput : ∀ {chain' : List NodeId} {j : Input}, chain' ⊆ n :: chain → j ∈ node.inputs g →
        i = g.copyInput chain' j → ∃ m ∈ n :: chain, g.expressions.Leads [] m := by
      intro chain' j hsubset hj hcopied
      obtain ⟨m, hm, hleads⟩ := hvia hcopied
      rcases List.mem_cons.1 hm with rfl | hm
      · exact ⟨n, by simp, .step (by simp) hexpression hj hleads⟩
      · exact ⟨m, hsubset hm, hleads⟩
    change i ∈ node.copyInputs g chain n at hi
    by_cases hstays : node.staysInFrame
    · rw [Node.copyInputs_of_stays hstays] at hi
      obtain ⟨j, hj, rfl⟩ := List.mem_map.1 hi
      exact hinput (by simp) hj rfl
    cases node with
    | functionInput f index name type preview =>
      rcases List.mem_cons.1 hi with hi | hi
      · obtain ⟨e', he'⟩ := hleads.exists_node
        obtain ⟨c, caller, e, call, rfl, he, hcall, hmem⟩ :=
          exists_call_of_argumentOf (hi ▸ isConnected_of_node? he')
        obtain ⟨m, hm, hleads⟩ := hvia (hi.trans (argumentOf_cons he hcall _ _))
        rcases List.mem_cons.1 hm with rfl | hm
        · exact ⟨c, by simp, .step (by simp) he hmem hleads⟩
        · exact ⟨m, by simp [hm], hleads⟩
      · exact hinput (by simp) (by simp [Node.inputs]) (List.mem_singleton.1 hi)
    | functionCall f arguments =>
      rcases List.mem_append.1 hi with hi | hi
      · obtain ⟨j, hj, rfl⟩ := List.mem_map.1 hi
        exact hinput (by simp) (List.mem_append_left _ hj) rfl
      · obtain ⟨id, hid, rfl⟩ := List.mem_map.1 hi
        exact hinput (by simp) (List.mem_append_right _ (List.mem_map_of_mem hid)) rfl
    | _ => exact absurd rfl hstays

/-- If a node leads to a virtual texture, its copies do. -/
theorem leads_inlined (hacyclic : g.Acyclic) (h : g.expressions.Leads [] n) :
    ∀ {chain}, g.Nested chain n → g.inlined.Leads [] (g.copyNumber chain n) := by
  induction h with
  | @here n e _ he huses =>
    intro chain hnested
    obtain ⟨node, hnode, rfl⟩ := exists_node he
    have hcopy := node?_copyNumber (hnested.mem_copies (mem_ids_of_node? hnode)) hnode
    exact .here (by simp) hcopy huses
  | @step n e i _ he hi hleads ih =>
    intro chain hnested
    obtain ⟨e', he'⟩ := hleads.exists_node
    have hlt := hacyclic.ranks he i hi (by rw [he']; rfl)
    have hconnected := isConnected_of_node? he'
    obtain ⟨node, hnode, rfl⟩ := exists_node he
    have hcopy := node?_copyNumber (hnested.mem_copies (mem_ids_of_node? hnode)) hnode
    have hfollow : ∀ {chain' : List NodeId}, g.copyInput chain' i ∈ node.copyInputs g chain n →
        g.Nested chain' i.node → g.inlined.Leads [] (g.copyNumber chain n) := by
      intro chain' hmem hnested'
      refine .step (by simp) hcopy hmem ?_
      rw [copyInput_node hconnected]
      exact ih hnested'
    change i ∈ node.inputs g at hi
    by_cases hstays : node.staysInFrame
    · refine hfollow ?_ (hnested.below hlt)
      rw [Node.copyInputs_of_stays hstays]
      exact List.mem_map_of_mem hi
    cases node with
    | functionInput f index name type preview =>
      obtain rfl := List.mem_singleton.1 hi
      exact hfollow (by simp [Node.copyInputs]) (hnested.below hlt)
    | functionCall f arguments =>
      rcases List.mem_append.1 hi with hi | hi
      · exact hfollow (List.mem_append_left _ (List.mem_map_of_mem hi)) (hnested.below hlt)
      · obtain ⟨id, hid, rfl⟩ := List.mem_map.1 hi
        refine hfollow (List.mem_append_right _ (List.mem_map_of_mem hid)) (hnested.called ?_ hlt)
        exact mem_calls.2 ⟨f, arguments, hnode⟩
    | _ => exact absurd rfl hstays

end Graph

/-- The connected properties of a material are connected to nodes of a graph. -/
def Material.IsOn (m : Material) (g : Graph) : Prop :=
  ∀ property, (m.inputs.get property).node ≤ g.nodes.length

/-- So they stay when another one is connected. -/
theorem Material.IsOn.connect {m m' : Material} {g : Graph} (h : m.IsOn g) {code : Nat}
    {input : Input} (hconnect : m.connect g code input = .ok m') : m'.IsOn g := by
  unfold Material.connect at hconnect
  split at hconnect
  · cases hconnect
  split at hconnect
  · cases hconnect
  rename_i connected _ hle
  cases hconnect
  intro property
  by_cases hproperty : property = connected
  · subst hproperty
    rw [PropertyTable.get_set_self]
    exact Nat.le_of_not_lt hle
  · rw [PropertyTable.get_set_of_ne _ hproperty]
    exact h property

namespace Graph

/-- **Virtual textures** are reached from the same properties. -/
theorem virtualTextureProblems_inlined {g : Graph} (hacyclic : g.Acyclic) {material : Material}
    (hinputs : material.IsOn g) :
    virtualTextureProblems material g.expressions = virtualTextureProblems material g.inlined := by
  have hsame : ∀ {i : Input}, i.node ≤ g.nodes.length →
      g.expressions.reachesVirtualTexture i = g.inlined.reachesVirtualTexture i := by
    intro i hi
    rw [Bool.eq_iff_iff, ExpressionGraph.reachesVirtualTexture_iff,
      ExpressionGraph.reachesVirtualTexture_iff]
    constructor
    · intro h
      obtain ⟨e, he⟩ := h.exists_node
      obtain ⟨node, hnode, -⟩ := exists_node he
      have hleads := leads_inlined hacyclic h .root
      rwa [copyNumber_nil (mem_ids_of_node? hnode)] at hleads
    · intro h
      obtain ⟨e, he⟩ := h.exists_node
      rw [node?_inlined hi] at he
      obtain ⟨node, hnode, -⟩ := Option.map_eq_some_iff.1 he
      have hid := mem_ids_of_node? hnode
      obtain ⟨m, hm, hleads⟩ :=
        leads_of_inlined h (Nested.root.mem_copies hid) (copyNumber_nil hid).symm
      rwa [List.mem_singleton.1 hm] at hleads
  unfold virtualTextureProblems
  simp only [hsame (hinputs _)]

end Graph

end ShaderGraph
