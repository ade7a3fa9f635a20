import ShaderGraph.Proofs.Phases
import ShaderGraph.Proofs.Termination

/-!
# Cycles are reported only where there are some

If no node of a graph is reached from itself along connections, then no compilation of a material
over it meets a key that is in progress, however functions are shared, nested or used as arguments
of their own calls (`Graph.reentry_unreachable`).
-/

namespace ShaderGraph

open Pass Relation

namespace Graph

variable {g : Graph}

/-! ### Graphs without cycles -/

/-- A connection of one node leads to another. -/
def Reads (g : Graph) (n m : NodeId) : Prop :=
  ∃ node, g.node? n = some node ∧ ∃ i ∈ node.inputs g, i.node = m

/-- No node is reached from itself along connections. A call leads to its arguments and to the
outputs of its function. -/
def Acyclic (g : Graph) : Prop := ∀ n, ¬TransGen g.Reads n n

open Classical in
/-- The number of nodes that are reached from a node. -/
noncomputable def height (g : Graph) (n : NodeId) : Nat :=
  ((Finset.range (g.nodes.length + 1)).filter (TransGen g.Reads n)).card

theorem le_length_of_node? {n : NodeId} {node : Node} (h : g.node? n = some node) :
    n ≤ g.nodes.length := by
  unfold node? at h
  split at h
  case isTrue => cases h
  case isFalse hn =>
    have hlt : n - 1 < g.nodes.length := (List.getElem?_eq_some_iff.1 h).1
    exact Nat.le_of_pred_lt hlt

open Classical in
theorem Acyclic.height_lt (h : g.Acyclic) {n m : NodeId} (hreads : g.Reads n m)
    (hm : m ≤ g.nodes.length) : g.height m < g.height n := by
  refine Finset.card_lt_card ((Finset.ssubset_iff_of_subset fun k hk => ?_).2 ⟨m, ?_, ?_⟩)
  · rw [Finset.mem_filter] at hk ⊢
    exact ⟨hk.1, .head hreads hk.2⟩
  · exact Finset.mem_filter.2 ⟨Finset.mem_range.2 (Nat.lt_succ_of_le hm), .single hreads⟩
  · exact fun hself => h m (Finset.mem_filter.1 hself).2

theorem Acyclic.ranks (h : g.Acyclic) : g.expressions.Ranks g.height := by
  intro n e he i hi hsome
  rw [node?_expressions] at he hsome
  obtain ⟨node, hnode, rfl⟩ := Option.map_eq_some_iff.1 he
  rw [Option.isSome_map] at hsome
  obtain ⟨node', hnode'⟩ := Option.isSome_iff_exists.1 hsome
  exact h.height_lt ⟨node, hnode, i, hi, rfl⟩ (le_length_of_node? hnode')

theorem Acyclic.forall_ranks (h : g.Acyclic) : ∀ r ∈ some g.height, g.expressions.Ranks r := by
  intro r hr
  obtain rfl := Option.mem_some_iff.1 hr
  exact h.ranks

/-- A graph has no cycle if its nodes read earlier nodes only. -/
theorem acyclic_of_ordered
    (h : ∀ k < g.nodes.length, ∀ node ∈ g.nodes[k]?, ∀ i ∈ node.inputs g, i.node ≤ k) :
    g.Acyclic := by
  have hlt : ∀ n m, g.Reads n m → m < n := by
    rintro n m ⟨node, hnode, i, hi, rfl⟩
    unfold node? at hnode
    split at hnode
    case isTrue => cases hnode
    case isFalse hn =>
      have hle := h (n - 1) (List.getElem?_eq_some_iff.1 hnode).1 node hnode i hi
      exact Nat.lt_of_le_of_lt hle (Nat.sub_one_lt hn)
  have hdescends : ∀ n m, TransGen g.Reads n m → m < n := by
    intro n m h
    induction h with
    | single h => exact hlt _ _ h
    | tail _ h ih => exact Nat.lt_trans (hlt _ _ h) ih
  exact fun n hcycle => Nat.lt_irrefl n (hdescends n n hcycle)

end Graph

/-! ### What is done where a key in progress is met -/

namespace ExpressionGraph

variable {g : ExpressionGraph} {ctx : Context} {input : Input} {p : Pass}

/-- A compiler with something else done where it would meet a key in progress. -/
def guard (g : ExpressionGraph) (reentry : Context → PassM Code) (c : Compiler) : Compiler :=
  fun ctx input => do if g.reenters ctx input (← get) then reentry ctx else c ctx input

/-- A graph with something else done where its compilation would meet a key in progress. -/
def withReentry (g : ExpressionGraph) (reentry : Context → PassM Code) : ExpressionGraph :=
  g.wrap (g.guard reentry)

theorem guard_of_not_reenters {reentry : Context → PassM Code} {c : Compiler}
    (h : g.reenters ctx input p = false) : g.guard reentry c ctx input p = c ctx input p := by
  unfold guard
  rw [get_bind_eq, h]
  rfl

theorem compileAt_of_reenters (h : g.reenters ctx input p) (n : Nat) :
    g.compileAt (n + 1) ctx input p = ctx.report .reentrant p := by
  unfold reenters at h
  cases he : g.node? input.node with
  | none => simp [he] at h
  | some e =>
    simp only [he, Option.any_some, Bool.and_eq_true] at h
    obtain ⟨hmemo, hprogress⟩ := h
    cases hopen : p.openFrames.get ctx.stage with
    | nil => simp [hopen] at hmemo
    | cons home stack =>
      simp only [hopen, List.head?_cons, Option.bind_some, frame?] at hmemo
      cases hframe : p.frames[home]? with
      | none => simp [hframe] at hmemo
      | some frame =>
        simp only [hframe, Option.any_some, Option.isNone_iff_eq_none] at hmemo
        have hconnected : input.isConnected := by
          by_contra h
          have hzero : input.node = 0 := by simpa [Input.isConnected] using h
          rw [hzero] at he
          cases he
        unfold compileAt
        simp only [he, hconnected]
        exact Context.compileExpression_of_progress hopen hframe hmemo hprogress

/-- What is done there is to report it. -/
theorem guard_report (n : Nat) :
    g.guard (fun ctx => ctx.report .reentrant) (g.compileAt (n + 1)) = g.compileAt (n + 1) := by
  funext ctx input p
  by_cases h : g.reenters ctx input p
  · rw [compileAt_of_reenters h]
    unfold guard
    rw [get_bind_eq, if_pos h]
  · exact guard_of_not_reenters (Bool.eq_false_of_not_eq_true h)

end ExpressionGraph

namespace Pass

/-- The diagnostics of an outcome are those of its pass. -/
theorem diagnostics_of_run {env : Environment} {g : ExpressionGraph} {o : Outcome} {p : Pass}
    (h : run env (some g) {} = .ok o p) : o.diagnostics = p.diagnostics := by
  rw [run_eq] at h
  obtain ⟨-, q, -, h⟩ := exists_of_bind h
  obtain ⟨t, r, -, h⟩ := exists_of_bind h
  cases h
  rfl

end Pass

namespace Graph

/-- **No false cycles**: in a graph without cycles, whatever is done where a key in progress is met,
compilations do the same, and nothing they report is a cycle. -/
theorem reentry_unreachable (g : Graph) (hacyclic : g.Acyclic) (reentry : Context → PassM Code) :
    (∀ n, g.expressions.guard (fun ctx => ctx.report .reentrant) (g.expressions.compileAt (n + 1)) =
      g.expressions.compileAt (n + 1)) ∧
    (∀ (ctx : Context) (input : Input) (p : Pass), AtRest g.expressions p → p.Clean →
      g.expressions.guard reentry (g.expressions.withReentry reentry).compile ctx input p =
        g.expressions.compile ctx input p ∧
      (final (g.expressions.compile ctx input p)).Clean) ∧
    ∀ env : Environment,
      run env (some (g.expressions.withReentry reentry)) {} = run env (some g.expressions) {} ∧
      (final (run env (some g.expressions) {})).Clean ∧
      ∀ o p, run env (some g.expressions) {} = .ok o p → ∀ d ∈ o.diagnostics, d.IsOrdinary := by
  have hrank := hacyclic.forall_ranks
  have hw : Harmless g.expressions (some g.height) (g.expressions.guard reentry) :=
    fun c ctx input p h => ExpressionGraph.guard_of_not_reenters (h rfl)
  refine ⟨ExpressionGraph.guard_report, fun ctx input p hrest hclean => ?_, fun env => ?_⟩
  · have hcouples : Couples (SameFault (some g.height))
        (RestTwin g.expressions (some g.height)) (RestTwin g.expressions (some g.height))
        (g.expressions.compile ctx input)
        ((g.expressions.withReentry reentry).compile ctx input) :=
      compileAt_wrap_rest hrank hw pow_le_depth pow_le_depth
    obtain ⟨hsame, -, hclean⟩ :=
      RestTwin.settled (wrap_rest hw hcouples p p ⟨rfl, hrest, fun _ => hclean⟩)
    exact ⟨hsame.symm, hclean rfl⟩
  · obtain ⟨hsame, -, hclean⟩ := run_twin hrank hw (Nat.le_refl _) env
    refine ⟨hsame.symm, hclean rfl, fun o p hrun d hd => ?_⟩
    rw [diagnostics_of_run hrun] at hd
    rw [hrun] at hclean
    exact (hclean rfl).diagnostics d hd

/-- A function that doubles its input, applied to what it gives for a parameter. -/
def doubledTwice : Graph where
  nodes :=
    [.functionInput 0 0 "x" .float .none, .binary .add ⟨1, 0⟩ ⟨1, 0⟩ .zero .zero,
     .functionOutput 0 "y" ⟨2, 0⟩, .scalarParameter "Gain" .one, .functionCall 0 [⟨4, 0⟩],
     .functionCall 0 [⟨5, 0⟩]]
  functions := [{ name := "Double", inputs := [1], outputs := [3] }]

/-- The material that has it as its roughness. -/
def doubledRoughness : Environment where
  material := { inputs := (PropertyTable.const Input.none).set .roughness ⟨6, 0⟩ }

/-- The calls of the function share its nodes, and its argument calls it again; still breaking off
where a key in progress is met changes nothing. -/
theorem reentry_unreachable_doubledTwice :
    doubledTwice.Acyclic ∧ AtRest doubledTwice.expressions opened ∧ opened.Clean ∧
      (final (doubledTwice.expressions.compile
        { env := doubledRoughness, stage := .pixel, scope := 3 } ⟨6, 0⟩ opened)).Clean ∧
      ∃ o p, run doubledRoughness (some doubledTwice.expressions) {} = .ok o p ∧
        run doubledRoughness (some (doubledTwice.expressions.withReentry fun _ => throw .tooDeep))
          {} = .ok o p ∧ o.success ∧ ∀ d ∈ o.diagnostics, d.IsOrdinary := by
  have hacyclic : doubledTwice.Acyclic := acyclic_of_ordered (by decide)
  obtain ⟨-, hcompile, hrun⟩ :=
    reentry_unreachable doubledTwice hacyclic fun _ => throw .tooDeep
  obtain ⟨hsame, -, hreports⟩ := hrun doubledRoughness
  obtain ⟨o, p, hok, hsuccess⟩ : ∃ o p,
      run doubledRoughness (some doubledTwice.expressions) {} = .ok o p ∧ o.success := by
    decide +kernel
  exact ⟨hacyclic, atRest_opened, clean_opened, (hcompile _ _ _ atRest_opened clean_opened).2, o, p,
    hok, hsame.trans hok, hsuccess, hreports o p hok⟩

end Graph

end ShaderGraph
