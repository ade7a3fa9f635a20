import ShaderGraph.Proofs.StageFrames

/-!
# Branches that are not selected

A static switch compiles the branch that its value selects, and nothing of the other one. So what
the other one is connected to does not matter, if the value is known from the graph: it is not
connected, or connected to a static boolean or to a parameter for one
(`Material.unselected_irrelevant`).

The value is compiled once in a frame and found there later. It is a reserve of one node, of whose
code is pledged that it says the value (`Environment.pledging`).
-/

namespace ShaderGraph

open Pass

/-! ### Static values -/

/-- A chunk that says a static boolean. -/
def Chunk.Says (value : Bool) (d : Chunk) : Prop :=
  d.form = .inline ∧ d.text = if value then "true" else "false"

namespace Context

variable {ctx : Context} {p : Pass} {value : Bool} {c : Code}

theorem staticBool_says (hplaced : ctx.scope < p.scopes.length) (value : Bool) :
    p.Gives (ctx.staticBool value) fun c q => q.Refers ctx.scope (Chunk.Says value) c := by
  refine (checkOpen_plain.licensed (L := .full)).remains.bind fun _ q hq => ?_
  have hplaced' : ctx.scope < q.scopes.length := Nat.lt_of_lt_of_le hplaced hq.length_scopes
  split
  · exact .pure .none
  · exact .get_bind (.set_bind (.pure (refers_append hplaced' ⟨rfl, rfl⟩)))

/-- What is read of a static boolean, if anything, is what it says. -/
theorem staticBoolValue_says (h : p.Refers ctx.scope (Chunk.Says value) c) :
    p.Gives (ctx.staticBoolValue c) fun read _ => ∀ v, read = some v → v = value := by
  unfold staticBoolValue
  cases c with
  | none => exact .pure nofun
  | some i =>
    obtain ⟨d, hd, hform, htext⟩ := h i rfl
    have hchunk : ctx.chunk i p = .ok d p := chunk_eq hd
    have hsaid : ctx.textOf (some i) p = .ok d.text p := by
      have hdeferred : d.deferred? = none := by simp [Chunk.deferred?, Chunk.uniform?, hform]
      have hplain : plainText d = d.text := by simp [plainText, hform]
      unfold textOf
      dsimp only
      rw [bind_of_ok hchunk, hdeferred, hplain]
      rfl
    refine .read (a := d.type) (q := p) (bind_of_ok hchunk) ?_
    split
    · exact Gives.bind (Q := fun _ _ => True) (fun _ _ _ => trivial) fun _ _ _ => .pure nofun
    · refine .read hsaid (.pure fun v hv => ?_)
      rw [← Option.some.inj hv, htext]
      cases value <;> decide

end Context

/-! ### Switches -/

namespace Node

/-- The value of a node that is a static boolean. -/
def staticValue? (env : Environment) : Node → Option Bool
  | staticBool value => some value
  | staticBoolParameter name default =>
    let ofMaterial := (env.material.staticSwitches.lookup name).getD default
    some ((env.options.staticSwitches.lookup name).getD ofMaterial)
  | _ => none

/-- A static switch with another connection in place of the branch that is not selected. -/
def rewired (selected : Bool) (other : Input) : Node → Node
  | staticSwitch value default onTrue onFalse =>
    if selected then staticSwitch value default onTrue other
    else staticSwitch value default other onFalse
  | node => node

theorem outputMask?_of_staticValue? {env : Environment} {selected : Bool} (node : Node)
    (h : node.staticValue? env = some selected) (output : Int) :
    node.outputMask? output = none := by
  cases node with
  | staticBool | staticBoolParameter => rfl
  | _ => cases h

end Node

/-- The reserve of a node that is a static boolean. -/
def Environment.pledging (env : Environment) (node : NodeId) (selected : Bool) : Reserve where
  env := env
  nodes := (· = node)
  licence := .full
  reports := Licence.full_reports
  sure := false
  pledge := some (Chunk.Says selected)

namespace Node

section Switches

variable {env : Environment} {id : NodeId} {selected : Bool} {E : ExpressionGraph}
variable {ρ : Register} {ctx : Context} {p : Pass} {c d : Compiler} {value : Input} {default : Bool}

/-- A static boolean says its value. -/
theorem compile_says {quiet : Prop} (henv : ctx.env = env) {node : Node}
    (hnode : node.staticValue? env = some selected) (g : Graph) (output : Int) :
    (env.pledging id selected).Earns E quiet ρ ctx p (node.compile g c ctx output)
      (node.compile g d ctx output) := by
  have hsays : (env.pledging id selected).Earns E quiet ρ ctx p (ctx.staticBool selected)
      (ctx.staticBool selected) := by
    have hremains : Steps .full (ctx.staticBool selected) :=
      (Context.staticBool_plain selected).licensed
    refine .op hremains.remains (fun _ => hremains.remains) (fun _ => nofun) (fun _ => nofun)
      fun _ hplaced T hT => ?_
    cases hT
    exact Context.staticBool_says hplaced selected
  rw [← henv] at hnode
  cases node with
  | staticBool | staticBoolParameter =>
    cases hnode
    exact hsays
  | _ => cases hnode

section

variable (hc : (env.pledging id selected).Compiles E c d)

include hc

theorem compileBranch_course (input : Input)
    (kind name : String) :
    (env.pledging id selected).Course E False ρ ctx p (compileBranch c ctx input kind name)
      (compileBranch d ctx input kind name) fun _ _ _ => True := by
  unfold compileBranch
  split
  · exact (hc nofun).mono fun _ _ _ _ _ => trivial
  · exact (Reserve.report_earns _).mono fun _ _ _ _ _ => trivial

/-- What is read of the value of a switch, if anything, is known. -/
theorem switchValue_course
    (hconnected : value.isConnected → value.node = id)
    (hdefault : ¬value.isConnected → default = selected) :
    (env.pledging id selected).Course E False ρ ctx p (switchValue c ctx value default)
      (switchValue d ctx value default) fun read _ _ => ∀ v, read = some v → v = selected := by
  unfold switchValue
  split
  case isTrue =>
    refine (hc.pledged nofun hconnected).bind fun code ρ' q _ hcode => ?_
    have hsays : q.Refers ctx.scope (Chunk.Says selected) code :=
      (hcode.good nofun).pledged _ rfl
    have hremains : Steps .full (ctx.staticBoolValue code) :=
      (Context.staticBoolValue_plain code).licensed
    exact ((Reserve.Course.step (T := fun _ _ => True) hremains.remains
      (fun _ => hremains.remains) nofun).giving (Context.staticBoolValue_says hsays)).mono
        fun _ _ _ _ h => h.2
  case isFalse hvalue =>
    exact .pure fun v hv => (Option.some.inj hv).symm.trans (hdefault hvalue)

/-- **A switch** is compiled the same whatever the branch is that is not selected. -/
theorem compileSwitch_course
    (hconnected : value.isConnected → value.node = id)
    (hdefault : ¬value.isConnected → default = selected) (onTrue onFalse other : Input) (g : Graph)
    (output : Int) :
    (env.pledging id selected).Course E False ρ ctx p
      ((staticSwitch value default onTrue onFalse).compile g c ctx output)
      (((staticSwitch value default onTrue onFalse).rewired selected other).compile g d ctx output)
      fun _ _ _ => True := by
  have hbranches : ∀ {onTrue' onFalse' : Input}, (selected = true → onTrue' = onTrue) →
      (selected = false → onFalse' = onFalse) → (env.pledging id selected).Course E False ρ ctx p
        (compileSwitch c ctx value default onTrue onFalse)
        (compileSwitch d ctx value default onTrue' onFalse') fun _ _ _ => True := by
    intro onTrue' onFalse' htrue hfalse
    refine (switchValue_course hc hconnected hdefault).bind fun read ρ' q _ hread => ?_
    match read with
    | none => exact .pure trivial
    | some true =>
      dsimp only
      rw [htrue (hread true rfl).symm]
      exact compileBranch_course hc _ _ _
    | some false =>
      dsimp only
      rw [hfalse (hread false rfl).symm]
      exact compileBranch_course hc _ _ _
  cases selected with
  | true => exact hbranches (fun _ => rfl) nofun
  | false => exact hbranches nofun fun _ => rfl

end

end Switches

end Node

namespace Graph

/-- The branch that a switch with the given value selects, if that is known from the graph: the
value is not connected, or connected to a static boolean. -/
def selected? (g : Graph) (env : Environment) (value : Input) (default : Bool) : Option Bool :=
  if value.isConnected then (g.node? value.node).bind (Node.staticValue? env) else some default

/-- The graph with another connection in place of the branch of a switch that is not selected. -/
def rewired (g : Graph) (id : NodeId) (selected : Bool) (other : Input) : Graph :=
  { g with nodes := g.nodes.modify (id - 1) (Node.rewired selected other) }

variable {g : Graph} {env : Environment} {id : NodeId} {value onTrue onFalse : Input}
variable {default selected : Bool}

theorem node?_rewired (hid : id ≠ 0) (selected : Bool) (other : Input) (n : NodeId) :
    (g.rewired id selected other).node? n =
      if n = id then (g.node? n).map (Node.rewired selected other) else g.node? n := by
  unfold node? rewired
  by_cases hn : n = 0
  · simp [hn]
  · have hsame : id - 1 = n - 1 ↔ n = id :=
      ⟨fun h => (Nat.sub_one_cancel (Nat.pos_of_ne_zero hid) (Nat.pos_of_ne_zero hn) h).symm,
        fun h => h ▸ rfl⟩
    simp only [if_neg hn, List.getElem?_modify, hsame]
    split <;> simp

theorem expression_rewired (node : Node) (id : NodeId) (selected : Bool) (other : Input) :
    node.expression (g.rewired id selected other) = node.expression g := by
  cases node <;> rfl

theorem depth_rewired (id : NodeId) (selected : Bool) (other : Input) :
    (g.rewired id selected other).expressions.depth = g.expressions.depth := by
  have hlength : ∀ node : Node, ((node.rewired selected other).inputs g).length =
      (node.inputs g).length := by
    intro node
    cases node with
    | staticSwitch => cases selected <;> rfl
    | _ => rfl
  have hinputs : ∀ node : Node, node.inputs (g.rewired id selected other) = node.inputs g := by
    intro node
    cases node <;> rfl
  have hconnections : (g.rewired id selected other).connections = g.connections := by
    unfold connections
    simp only [hinputs, List.length_flatMap]
    congr 1
    refine List.ext_getElem? fun i => ?_
    simp only [rewired, List.getElem?_map, List.getElem?_modify]
    split
    · simp [Function.comp_def, hlength]
    · simp
  unfold expressions
  rw [hconnections]

/-- The value of a switch is not the switch itself. -/
theorem node_ne_of_selected?
    (hnode : g.node? id = some (.staticSwitch value default onTrue onFalse))
    (hselected : g.selected? env value default = some selected) : id ≠ value.node := by
  rintro rfl
  unfold selected? at hselected
  split at hselected
  · rw [hnode] at hselected
    cases hselected
  case isFalse hvalue =>
    have hzero : value.node = 0 := by simpa [Input.isConnected] using hvalue
    simp [node?, hzero] at hnode

theorem staticValue?_of_selected? (hselected : g.selected? env value default = some selected)
    {node : Node} (hnode : g.node? value.node = some node) :
    node.staticValue? env = some selected := by
  unfold selected? at hselected
  split at hselected
  · rwa [hnode] at hselected
  case isFalse hvalue =>
    have hzero : value.node = 0 := by simpa [Input.isConnected] using hvalue
    simp [node?, hzero] at hnode

section

variable (hnode : g.node? id = some (.staticSwitch value default onTrue onFalse))
  (hselected : g.selected? env value default = some selected)

include hnode hselected

/-- **The nodes are alike**: the value of the switch says what it selects, and the switch is
compiled the same. -/
theorem rewired_alike (other : Input) :
    (env.pledging value.node selected).Matches g.expressions
      (g.rewired id selected other).expressions := by
  have hid : id ≠ 0 := by
    rintro rfl
    cases hnode
  have hvalue : id ≠ value.node := node_ne_of_selected? hnode hselected
  intro n
  rw [node?_expressions, node?_expressions, node?_rewired hid]
  by_cases hn : n = id
  · subst hn
    simp only [hnode, if_pos, Option.map_some, expression_rewired]
    refine .inr ⟨_, _, rfl, rfl, ?_, fun h => absurd h hvalue, fun output hc hquiet _ => ?_⟩
    · cases selected <;> rfl
    · refine Reserve.Course.upgrade (fun h => hvalue (hquiet h)) False.elim False.elim <|
        (Node.compileSwitch_course hc (fun _ => rfl) (fun h => ?_) onTrue onFalse other g
          output).mono fun _ _ _ _ _ h => absurd (hquiet h) hvalue
      simpa [selected?, h] using hselected
  · rw [if_neg hn]
    cases hnode' : g.node? n with
    | none => exact .inl ⟨rfl, rfl⟩
    | some node =>
      simp only [Option.map_some, expression_rewired]
      refine .inr ⟨_, _, rfl, rfl, ?_⟩
      by_cases hn' : n = value.node
      · have hstatic : node.staticValue? env = some selected :=
          staticValue?_of_selected? hselected (hn' ▸ hnode')
        exact ⟨rfl, fun _ => .inr fun output => node.outputMask?_of_staticValue? hstatic output,
          fun output _ _ _ henv => Node.compile_says henv hstatic g output henv⟩
      · exact Reserve.alike_of_not node hn'

/-- **The pass** over a graph is the same whatever the branch is that is not selected. -/
theorem run_rewired
    (hvirtual : env.options.virtualTexturing = false) (other : Input) :
    run env (some (g.rewired id selected other).expressions) {} =
      run env (some g.expressions) {} := by
  have halike := rewired_alike hnode hselected other
  have hdepth := depth_rewired (g := g) id selected other
  rw [run_eq, run_eq]
  refine bind_congr_run (compileAll_housed (R := env.pledging value.node selected) nofun halike
    hdepth (fun _ _ => rfl) (fun property p _ hp ctx hctx => ?_) fun h => ?_) _
  · obtain ⟨hsame, hgives⟩ := hp.course (congrArg Context.env hctx) (hctx ▸ rfl) fun ρ =>
      Reserve.compile_course halike hdepth fun h : False => h.elim
    exact ⟨hsame, hgives.mono fun _ _ h => h.1⟩
  · cases h.symm.trans hvirtual

end

end Graph

/-- **Branches that are not selected** do not matter: without virtual textures, a material over a
graph compiles to the same outcome, or fails in the same way, whatever the branch of a switch is
connected to that its value does not select. -/
theorem Material.unselected_irrelevant (m : Material) (options : Options) {g : Graph} {id : NodeId}
    {value onTrue onFalse : Input} {default selected : Bool}
    (hnode : g.node? id = some (.staticSwitch value default onTrue onFalse))
    (hselected : g.selected? ⟨m, options⟩ value default = some selected)
    (hvirtual : options.virtualTexturing = false) (other : Input) :
    m.compileOver (g.rewired id selected other) options = m.compileOver g options := by
  have houtputs : m.withOutputsOf (g.rewired id selected other) = m.withOutputsOf g := rfl
  have hselected' : g.selected? ⟨m.withOutputsOf g, options⟩ value default = some selected :=
    hselected
  have hrun := Graph.run_rewired hnode hselected' hvirtual other
  simp only [compileOver, compile, EStateM.run, houtputs, hrun]

/-- A switch between two constants by a parameter. -/
def switchedConstants : Graph where
  nodes := [.staticBoolParameter "Bright" true, .constant .one, .constant .two,
    .staticSwitch ⟨1, 0⟩ true ⟨2, 0⟩ ⟨3, 0⟩]

/-- The material that has it as its roughness. -/
def switchedMaterial : Material where
  inputs := (PropertyTable.const Input.none).set .roughness ⟨4, 0⟩

/-- Options that turn the parameter off. -/
def dimOptions : Options where
  staticSwitches := [("Bright", false)]

/-- With the parameter turned off, the other branch may even lead back to the switch. -/
theorem Material.unselected_irrelevant_switchedConstants :
    (switchedMaterial.compileOver switchedConstants dimOptions).toOption.map (·.success) =
        some true ∧
      switchedMaterial.compileOver (switchedConstants.rewired 4 false ⟨4, 0⟩) dimOptions =
        switchedMaterial.compileOver switchedConstants dimOptions :=
  ⟨by decide +kernel, switchedMaterial.unselected_irrelevant dimOptions rfl rfl rfl ⟨4, 0⟩⟩

end ShaderGraph
