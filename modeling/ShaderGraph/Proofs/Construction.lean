import ShaderGraph.Graph.Builder
import ShaderGraph.Proofs.NodeLogic

/-!
# Graphs in the making

Whatever a strict builder is asked for, and however often it refuses, its graph stays in order: a
request is refused and leaves the builder as it was, or it adds one node, whose number is the number
of nodes from then on, and that node is connected to earlier nodes only
(`Builder.attemptAll_wellFormed`). The one exception are calls, which read the outputs of their
function: those may be added later than the call.

A request gives a builder back whether it is granted or refused, so that a change made before a
check would show. What it gives back is described once for both (`Builder.Answers`). All requests
but the declaration of a function make their checks and then add one node, and share one lemma about
that (`Builder.add_answers`).
-/

namespace ShaderGraph

/-! ### Connections -/

namespace Node

/-- The connections that a node is made with. -/
def connections : Node → List Input
  | functionCall _ arguments => arguments
  | node => node.inputs {}

/-- The outputs of the function that a node calls. -/
def calledOutputs (g : Graph) : Node → List Input
  | functionCall f _ => (g.function f).outputs.map fun id => { node := id }
  | _ => []

/-- Only calls read what they were not made with. -/
theorem inputs_eq (g : Graph) (node : Node) :
    node.inputs g = node.connections ++ node.calledOutputs g := by
  cases node with
  | functionCall f arguments => rfl
  | _ => exact (List.append_nil _).symm

end Node

/-- A connection to an output of one of the first nodes, or to nothing. -/
def Input.Within (count : Nat) (input : Input) : Prop := input.node ≤ count ∧ 0 ≤ input.output

/-- Every node is connected to earlier nodes only. -/
def Graph.LooksBack (g : Graph) : Prop :=
  ∀ k node, g.node? k = some node → ∀ input ∈ node.connections,
    input.isConnected → input.node < k ∧ 0 ≤ input.output

/-- A node that is added after all those that it is connected to. -/
theorem Graph.LooksBack.push {g g' : Graph} {node : Node} (h : g.LooksBack)
    (hnodes : g'.nodes = g.nodes ++ [node])
    (hnode : ∀ input ∈ node.connections, input.Within g.nodes.length) : g'.LooksBack := by
  intro k node' hk input hinput hconnected
  unfold node? at hk
  split at hk
  · cases hk
  case isFalse hzero =>
    rw [hnodes, List.getElem?_append] at hk
    split at hk
    · exact h k node' (by rw [node?, if_neg hzero, hk]) input hinput hconnected
    case isFalse hlt =>
      obtain rfl := List.mem_singleton.1 (List.mem_of_getElem? hk)
      obtain ⟨hle, houtput⟩ := hnode input hinput
      have hk : g.nodes.length < k :=
        Nat.lt_of_le_of_lt (Nat.le_of_not_lt hlt) (Nat.sub_one_lt hzero)
      exact ⟨Nat.lt_of_le_of_lt hle hk, houtput⟩

namespace Builder

/-! ### Requests -/

/-- What a builder can be asked for. -/
inductive Request : BuildM Nat → Prop where
  | constant (x : Single) : Request (Builder.constant x)
  | constant2 (x y : Single) : Request (Builder.constant2 x y)
  | constant3 (x y z : Single) : Request (Builder.constant3 x y z)
  | constant4 (v : Value) : Request (Builder.constant4 v)
  | scalarParameter (name : String) (default : Single) :
    Request (Builder.scalarParameter name default)
  | vectorParameter (name : String) (default : Value) :
    Request (Builder.vectorParameter name default)
  | staticBool (value : Bool) : Request (Builder.staticBool value)
  | staticBoolParameter (name : String) (default : Bool) :
    Request (Builder.staticBoolParameter name default)
  | unary (kind : UnaryKind) (x : Input) : Request (Builder.unary kind x)
  | binary (kind : BinaryKind) (x y : Input) : Request (Builder.binary kind x y)
  | scalarAdd (x : Input) (k : Single) : Request (Builder.scalarAdd x k)
  | scalarMultiply (x : Input) (k : Single) : Request (Builder.scalarMultiply x k)
  | lerp (x y alpha : Input) : Request (Builder.lerp x y alpha)
  | clamp (x lo hi : Input) : Request (Builder.clamp x lo hi)
  | compare (c : Comparison) : Request (Builder.compare c)
  | componentMask (x : Input) (mask : Mask) : Request (Builder.componentMask x mask)
  | staticComponentMask (x : Input) (name : String) (default : Mask) :
    Request (Builder.staticComponentMask x name default)
  | staticSwitch (value : Input) (default : Bool) (onTrue onFalse : Input) :
    Request (Builder.staticSwitch value default onTrue onFalse)
  | previousFrameSwitch (current previous : Input) :
    Request (Builder.previousFrameSwitch current previous)
  | textureCoordinate (index : Int) (mirror : Mirror) (tilingU tilingV : Single) :
    Request (Builder.textureCoordinate index mirror tilingU tilingV)
  | vertexColor : Request Builder.vertexColor
  | worldPosition (kind : WorldPosition) : Request (Builder.worldPosition kind)
  | time (ignoresPause : Bool) (period : Single) : Request (Builder.time ignoresPause period)
  | pixelDepth : Request Builder.pixelDepth
  | shadingModel (model : ShadingModel) : Request (Builder.shadingModel model)
  | textureObject (index : Int) (sampler : SamplerType) :
    Request (Builder.textureObject index sampler)
  | textureObjectParameter (name : String) (index : Int) (sampler : SamplerType) :
    Request (Builder.textureObjectParameter name index sampler)
  | textureSample (s : SampleSettings) : Request (Builder.textureSample s)
  | virtualTextureSample (s : SampleSettings) (layer pageTableLayer : Int) :
    Request (Builder.virtualTextureSample s layer pageTableLayer)
  | vertexInterpolator (x : Input) : Request (Builder.vertexInterpolator x)
  | customOutput (settings : OutputSettings) (inputs : List Input) :
    Request (Builder.customOutput settings inputs)
  | newFunction (name : String) : Request (Builder.newFunction name)
  | functionInput (f : FunctionId) (name : String) (type : ValueType) (preview : Input) :
    Request (Builder.functionInput f name type preview)
  | functionOutput (f : FunctionId) (name : String) (value : Input) :
    Request (Builder.functionOutput f name value)
  | functionCall (f : FunctionId) (arguments : List Input) :
    Request (Builder.functionCall f arguments)

/-- A builder that was never refused anything. -/
inductive Built (strict : Bool) : Builder → Prop where
  | start : Built strict { strict }
  | step {b b' : Builder} {request : BuildM Nat} {id : Nat} :
    Built strict b → Request request → request b = .ok id b' → Built strict b'

/-- What a request to `b` gives back: if it is granted, an answer and a builder with `P`; if a
strict builder refuses it, the builder as it was. -/
def Answers {α : Type} (b : Builder) (P : α → Builder → Prop) :
    EStateM.Result BuildFault Builder α → Prop
  | .ok a b' => P a b'
  | .error _ b' => b.strict → b' = b

section Answers

variable {α β : Type} {b b' : Builder} {m : BuildM α} {f : α → BuildM β}
variable {P : α → Builder → Prop} {Q : β → Builder → Prop}

theorem Answers.bind (h : Answers b P (m b')) (hf : ∀ a b₁, P a b₁ → Answers b Q (f a b₁)) :
    Answers b Q ((m >>= f) b') := by
  change Answers b Q (EStateM.bind m f b')
  unfold EStateM.bind
  cases hm : m b' with
  | ok a b₁ =>
    rw [hm] at h
    exact hf a b₁ h
  | error fault b₁ =>
    rw [hm] at h
    exact h

theorem Answers.mono {P' : α → Builder → Prop} {r : EStateM.Result BuildFault Builder α}
    (h : Answers b P r) (hP : ∀ a b₁, P a b₁ → P' a b₁) : Answers b P' r := by
  cases r with
  | ok a b₁ => exact hP a b₁ h
  | error fault b₁ => exact h

/-- A request that looks a function up is refused if there is none. -/
theorem Answers.function {f : FunctionId} {subject : String} {rest : GraphFunction → BuildM α}
    (h : ∀ function, Answers b P (rest function b)) :
    Answers b P ((function? f subject >>= rest) b) := by
  have hfunction : Answers b (fun _ b₁ => b₁ = b) (function? f subject b) := by
    refine Answers.bind (P := fun found b₁ => found = b ∧ b₁ = b) ⟨rfl, rfl⟩ fun found b₁ h => ?_
    rw [h.1, h.2]
    cases b.graph.functions[f]? with
    | some function => exact rfl
    | none => exact fun _ => rfl
  exact hfunction.bind fun function b₁ hb₁ => hb₁ ▸ h function

end Answers

/-! ### Additions -/

/-- A list of numbers to which the given one may have been added. -/
def Gains (id : NodeId) (ids ids' : List NodeId) : Prop := ids' = ids ∨ ids' = ids ++ [id]

/-- What a strict builder sees to: a node is connected to nodes of the graph that it is added to,
and an interpolator is connected. -/
structure FitsBehind (node : Node) (g : Graph) : Prop where
  within : ∀ input ∈ node.connections, input.Within g.nodes.length
  fed : node.isUnfed = false

/-- The second builder has one node more, and lists it where it lists what the first one does not
list. If the builder is strict, the node fits behind those of the first one. -/
structure Extends (b b' : Builder) : Prop where
  strict : b'.strict = b.strict
  node : ∃ node, b'.graph.nodes = b.graph.nodes ++ [node] ∧ (b.strict → FitsBehind node b.graph)
  interpolators : Gains b'.graph.nodes.length b.graph.interpolators b'.graph.interpolators
  customOutputs : Gains b'.graph.nodes.length b.graph.customOutputs b'.graph.customOutputs
  functions : b'.graph.functions.length = b.graph.functions.length
  functionInputs : ∀ f,
    Gains b'.graph.nodes.length (b.graph.function f).inputs (b'.graph.function f).inputs
  functionOutputs : ∀ f,
    Gains b'.graph.nodes.length (b.graph.function f).outputs (b'.graph.function f).outputs

/-- One node was added, which is all that changed in the graph, and its number given. -/
structure Adds (node : Node) (b : Builder) (id : Nat) (b' : Builder) : Prop where
  graph : b'.graph = { b.graph with nodes := b.graph.nodes ++ [node] }
  extended : b.Extends b'
  id_eq : id = b'.graph.nodes.length

/-- A node was added. Its number is the answer, unless an output of a function was asked for. -/
structure Grants (request : BuildM Nat) (b : Builder) (id : Nat) (b' : Builder) : Prop where
  extended : b.Extends b'
  id_eq : (∀ f name value, request ≠ functionOutput f name value) → id = b'.graph.nodes.length

section Requests

variable {b b' : Builder} {errors : List BuildError} {node : Node} {subject : String} {id : Nat}
variable {inputs : List Input} {request : BuildM Nat}

/-- What connections in which no mistake is found refer to. -/
theorem within_of_inputErrors {g : Graph} (h : inputErrors g subject inputs = []) :
    ∀ input ∈ inputs, input.Within g.nodes.length := by
  intro input hinput
  obtain ⟨i, hi⟩ := List.mem_iff_getElem?.1 hinput
  have hnone := List.filterMap_eq_nil_iff.1 h (input, i) (List.mk_mem_zipIdx_iff_getElem?.2 hi)
  simp only at hnone
  split at hnone
  · cases hnone
  case isFalse hnode =>
    split at hnone
    · cases hnone
    case isFalse houtput => exact ⟨Nat.le_of_not_lt hnode, Int.not_lt.1 houtput⟩

/-- A builder that has let mistakes pass. A strict one lets none pass. -/
structure Passed (b b' : Builder) : Prop where
  graph : b'.graph = b.graph
  strict : b'.strict = b.strict
  same : b.strict → b' = b

theorem mistake_answers {e : BuildError} (hb : b.Passed b') :
    Answers b (fun _ b₁ => b.Passed b₁ ∧ ¬b.strict) (mistake e b') := by
  change Answers b _ ((if b'.strict then throw (.rejected e)
    else set { b' with errors := b'.errors ++ [e] } : BuildM Unit) b')
  split
  case isTrue => exact hb.same
  case isFalse hlax =>
    rw [hb.strict] at hlax
    exact ⟨⟨hb.graph, hb.strict, fun h => absurd h hlax⟩, hlax⟩

/-- A strict builder goes on only if there is no mistake. -/
theorem allow_answers (hb : b.Passed b') :
    Answers b (fun _ b₁ => b.Passed b₁ ∧ (b.strict → errors = [])) (allow errors b') := by
  induction errors generalizing b' with
  | nil => exact ⟨hb, fun _ => rfl⟩
  | cons e rest ih =>
    refine (mistake_answers hb).bind fun _ b₁ hb₁ => ?_
    exact (ih hb₁.1).mono fun _ b₂ hb₂ => ⟨hb₂.1, fun h => absurd h hb₁.2⟩

/-- **A node is added** after the checks. -/
theorem add_answers (h : errors = [] → FitsBehind node b.graph) :
    Answers b (Adds node b) (add errors node b) := by
  refine (allow_answers ⟨rfl, rfl, fun _ => rfl⟩).bind fun _ b₁ ⟨hb₁, herrors⟩ => ?_
  have hgraph : { b₁.graph with nodes := b₁.graph.nodes ++ [node] } =
      { b.graph with nodes := b.graph.nodes ++ [node] } := by rw [hb₁.graph]
  refine ⟨hgraph, ⟨hb₁.strict, ⟨node, ?_, fun hb => h (herrors hb)⟩, .inl ?_, .inl ?_, ?_,
    fun f => .inl ?_, fun f => .inl ?_⟩, rfl⟩
  all_goals exact hb₁.graph ▸ rfl

theorem addChecked_answers (h : errors = [] → node.isUnfed = false) :
    Answers b (Adds node b) (addChecked node errors b) := by
  refine add_answers fun hnone => ?_
  obtain ⟨hinputs, herrors⟩ := List.append_eq_nil_iff.1 hnone
  refine ⟨fun input hinput => within_of_inputErrors hinputs input ?_, h herrors⟩
  rw [node.inputs_eq]
  exact List.mem_append_left _ hinput

/-- A function is declared, and no node is added. -/
theorem newFunction_answers (name : String) :
    Answers b (fun _ b' => b'.strict = b.strict ∧
      b'.graph = { b.graph with functions := b.graph.functions ++ [{ name := name }] })
      (newFunction name b) := by
  refine (allow_answers ⟨rfl, rfl, fun _ => rfl⟩).bind fun _ b₁ ⟨hb₁, _⟩ => ⟨hb₁.strict, ?_⟩
  exact hb₁.graph ▸ rfl

/-- A change to one function, by which it gains the new node. -/
theorem Extends.updateFunction (h : b.Extends b') (f : FunctionId)
    {update : GraphFunction → GraphFunction}
    (hinputs : ∀ function, Gains b'.graph.nodes.length function.inputs (update function).inputs)
    (houtputs : ∀ function, Gains b'.graph.nodes.length function.outputs (update function).outputs)
    (hsame : b'.graph.functions = b.graph.functions) :
    b.Extends { b' with
      graph := { b'.graph with functions := b'.graph.functions.modify f update } } := by
  have hfunction : ∀ k,
      (b'.graph.functions.modify f update).getD k { name := "" } = b.graph.function k ∨
        (b'.graph.functions.modify f update).getD k { name := "" } =
          update (b.graph.function k) := by
    intro k
    simp only [Graph.function, hsame, List.getD_eq_getElem?_getD, List.getElem?_modify]
    by_cases hk : f = k
    · cases hget : b.graph.functions[k]? with
      | none => simp
      | some function => simp [hk]
    · simp [hk]
  refine { h with functions := ?_, functionInputs := fun k => ?_, functionOutputs := fun k => ?_ }
  · simpa using h.functions
  · rcases hfunction k with hk | hk
    · exact .inl (congrArg GraphFunction.inputs hk)
    · have hgains := hinputs (b.graph.function k)
      rwa [← hk] at hgains
  · rcases hfunction k with hk | hk
    · exact .inl (congrArg GraphFunction.outputs hk)
    · have hgains := houtputs (b.graph.function k)
      rwa [← hk] at hgains

/-- **A request** that is granted adds one node, unless it declares a function. -/
theorem Request.answers (hrequest : Request request)
    (hnode : ∀ name, request ≠ Builder.newFunction name) :
    Answers b (Grants request b) (request b) := by
  have hadd {node : Node} {r : EStateM.Result BuildFault Builder Nat}
      (h : Answers b (Adds node b) r) : Answers b (Grants request b) r :=
    h.mono fun id b' hb' => ⟨hb'.extended, fun _ => hb'.id_eq⟩
  have hsource {node : Node} (hnone : node.connections = []) (hfed : node.isUnfed = false)
      (errors : List BuildError) : errors = [] → FitsBehind node b.graph := fun _ =>
    ⟨by rw [hnone]; exact fun _ => List.not_mem_nil.elim, hfed⟩
  cases hrequest with
  | staticBoolParameter name default =>
    exact hadd (add_answers (hsource (by split <;> rfl) (by split <;> rfl) _))
  | textureObjectParameter name index sampler =>
    refine @hadd (if name = "" then .textureObject index sampler
      else .textureObjectParameter name index sampler) _ ?_
    unfold Builder.textureObjectParameter
    split <;> exact add_answers (hsource rfl rfl _)
  | unary | binary | scalarAdd | scalarMultiply | lerp | clamp | compare | componentMask
  | staticComponentMask | staticSwitch | previousFrameSwitch | textureSample =>
    exact hadd (addChecked_answers fun _ => rfl)
  | virtualTextureSample s layer pageTableLayer =>
    refine hadd (add_answers fun hnone => ⟨?_, rfl⟩)
    exact within_of_inputErrors (List.append_eq_nil_iff.1 hnone).1
  | vertexInterpolator x =>
    refine (addChecked_answers fun hnone => ?_).bind fun id b' h => ?_
    · cases hx : x.isConnected with
      | true => simp [Node.isUnfed, hx]
      | false => simp [hx] at hnone
    · have hlisted := congrArg (·.interpolators ++ [id]) h.graph
      exact ⟨{ h.extended with interpolators := .inr (h.id_eq ▸ hlisted) }, fun _ => h.id_eq⟩
  | customOutput settings inputs =>
    refine (addChecked_answers fun _ => rfl).bind fun id b' h => ?_
    have hlisted := congrArg (·.customOutputs ++ [id]) h.graph
    exact ⟨{ h.extended with customOutputs := .inr (h.id_eq ▸ hlisted) }, fun _ => h.id_eq⟩
  | newFunction name => exact absurd rfl (hnode name)
  | functionInput f name type preview =>
    refine .function fun function => (addChecked_answers fun _ => rfl).bind
      fun id b' h => ⟨?_, fun _ => h.id_eq⟩
    exact h.extended.updateFunction f (fun _ => .inr (h.id_eq ▸ rfl)) (fun _ => .inl rfl)
      (by rw [h.graph])
  | functionOutput f name value =>
    refine .function fun function => (addChecked_answers fun _ => rfl).bind
      fun id b' h => ⟨?_, fun hplace => absurd rfl (hplace f name value)⟩
    exact h.extended.updateFunction f (fun _ => .inl rfl) (fun _ => .inr (h.id_eq ▸ rfl))
      (by rw [h.graph])
  | functionCall f arguments =>
    exact .function fun function => hadd (add_answers fun hnone =>
      ⟨within_of_inputErrors hnone, rfl⟩)
  | _ => exact hadd (add_answers (hsource rfl rfl _))

/-- A request that is granted adds a node at most. -/
theorem Request.granted (hrequest : Request request) (h : request b = .ok id b') :
    b'.strict = b.strict ∧ ∃ added : Option Node,
      b'.graph.nodes = b.graph.nodes ++ added.toList ∧
      (b.strict → ∀ node ∈ added, FitsBehind node b.graph) := by
  by_cases hnode : ∀ name, request ≠ Builder.newFunction name
  · have hanswers := hrequest.answers hnode (b := b)
    rw [h] at hanswers
    obtain ⟨node, hnodes, hfits⟩ := hanswers.extended.node
    exact ⟨hanswers.extended.strict, some node, hnodes,
      fun hb _ hmem => Option.mem_some.1 hmem ▸ hfits hb⟩
  · obtain ⟨name, rfl⟩ := not_forall_not.1 hnode
    have hanswers := newFunction_answers name (b := b)
    rw [h] at hanswers
    obtain ⟨hstrict, hgraph⟩ := hanswers
    exact ⟨hstrict, none, by rw [hgraph]; exact (List.append_nil _).symm, fun _ _ => nofun⟩

/-- **A strict builder that refuses a request** stays as it was. -/
theorem Request.refused (hrequest : Request request) (hb : b.strict) {fault : BuildFault}
    (h : request b = .error fault b') : b' = b := by
  by_cases hnode : ∀ name, request ≠ Builder.newFunction name
  · have hanswers := hrequest.answers hnode (b := b)
    rw [h] at hanswers
    exact hanswers hb
  · obtain ⟨name, rfl⟩ := not_forall_not.1 hnode
    have hanswers := newFunction_answers name (b := b)
    rw [h] at hanswers
    exact hanswers hb

theorem Built.strict_eq {strict : Bool} (h : Built strict b) : b.strict = strict := by
  induction h with
  | start => rfl
  | step _ hrequest hok ih => exact (hrequest.granted hok).1.trans ih

/-- **What a strict builder makes** is connected to earlier nodes only, and has no interpolator of
nothing. -/
theorem Built.inOrder (h : Built true b) :
    b.graph.LooksBack ∧ ∀ node ∈ b.graph.nodes, node.isUnfed = false := by
  induction h with
  | start =>
    refine ⟨fun k node hk => ?_, fun _ => List.not_mem_nil.elim⟩
    unfold Graph.node? at hk
    split at hk <;> cases hk
  | step hb hrequest hok ih =>
    obtain ⟨-, added, hnodes, hfits⟩ := hrequest.granted hok
    cases added with
    | none =>
      rw [Option.toList_none, List.append_nil] at hnodes
      refine ⟨fun k node hk => ih.1 k node ?_, hnodes ▸ ih.2⟩
      rwa [Graph.node?, ← hnodes]
    | some node =>
      have hnode := hfits hb.strict_eq node rfl
      refine ⟨ih.1.push hnodes hnode.within, fun node' hmem => ?_⟩
      rcases List.mem_append.1 (hnodes ▸ hmem) with hold | hnew
      · exact ih.2 node' hold
      · exact List.mem_singleton.1 hnew ▸ hnode.fed

/-! ### Requests one after the other -/

/-- The builder after a request, whether it is granted or refused. -/
def attempt (b : Builder) (request : BuildM Nat) : Builder :=
  match request b with
  | .ok _ b' => b'
  | .error _ b' => b'

/-- The builder after several requests, whether they are granted or refused. -/
def attemptAll (b : Builder) (requests : List (BuildM Nat)) : Builder := requests.foldl attempt b

/-- Whatever it is asked for, a strict builder is one that was never refused anything. -/
theorem Built.attemptAll {requests : List (BuildM Nat)}
    (hrequests : ∀ request ∈ requests, Request request) (hb : Built true b) :
    Built true (b.attemptAll requests) := by
  induction requests generalizing b with
  | nil => exact hb
  | cons request requests ih =>
    have hrequest := hrequests request List.mem_cons_self
    refine ih (fun r hr => hrequests r (List.mem_cons_of_mem _ hr)) ?_
    unfold attempt
    cases h : request b with
    | ok id b' => exact .step hb hrequest h
    | error fault b' => exact hrequest.refused hb.strict_eq h ▸ hb

end Requests

/-- **Graphs in the making are in order.** Take a strict builder after any requests, granted or
refused. Each of its nodes is connected to earlier nodes only. A further request is refused, and
leaves the builder exactly as it was, or it is granted. One that is granted, other than the
declaration of a function, adds exactly one node, which is listed where anything new is listed, and
whose number is the new number of nodes. That is also the answer, unless an output of a function was
asked for. -/
theorem attemptAll_wellFormed {requests : List (BuildM Nat)}
    (hrequests : ∀ request ∈ requests, Request request)
    {b : Builder} (hb : b = attemptAll { strict := true } requests) :
    b.graph.LooksBack ∧
    ∀ request, Request request →
      (∃ fault, request b = .error fault b) ∨
      ∃ b' id, request b = .ok id b' ∧
        ((∀ name, request ≠ newFunction name) → Grants request b id b') := by
  have hbuilt : Built true b := hb ▸ Built.start.attemptAll hrequests
  refine ⟨hbuilt.inOrder.1, fun request hrequest => ?_⟩
  cases h : request b with
  | error fault b' => exact .inl ⟨fault, by rw [hrequest.refused hbuilt.strict_eq h]⟩
  | ok id b' =>
    refine .inr ⟨b', id, rfl, fun hnode => ?_⟩
    have hanswers := hrequest.answers hnode (b := b)
    rwa [h] at hanswers

/-- A sum, after a request for the absolute value of a node that does not exist. -/
def mistaken : List (BuildM Nat) :=
  [vertexColor, unary .abs ⟨5, 0⟩, binary .add ⟨1, 0⟩ ⟨1, 0⟩]

/-- The second request is refused and the others are granted. Asked for once more it is refused
again, and the builder stays as it was. A request for an interpolator is granted, and its node is
listed. -/
theorem attemptAll_wellFormed_mistaken :
    (attemptAll { strict := true } mistaken).graph.nodes =
      [.vertexColor, .binary .add ⟨1, 0⟩ ⟨1, 0⟩ .zero .one] ∧
    (attemptAll { strict := true } mistaken).graph.LooksBack ∧
    (∃ fault, unary .abs ⟨5, 0⟩ (attemptAll { strict := true } mistaken) =
      .error fault (attemptAll { strict := true } mistaken)) ∧
    ∃ b', vertexInterpolator ⟨2, 0⟩ (attemptAll { strict := true } mistaken) = .ok 3 b' ∧
      (attemptAll { strict := true } mistaken).Extends b' ∧ b'.graph.interpolators = [3] := by
  have hrequests : ∀ request ∈ mistaken, Request request := by
    intro request hrequest
    simp only [mistaken, List.mem_cons, List.not_mem_nil, or_false] at hrequest
    rcases hrequest with rfl | rfl | rfl
    · exact .vertexColor
    · exact .unary .abs ⟨5, 0⟩
    · exact .binary .add ⟨1, 0⟩ ⟨1, 0⟩
  have hnode : ∀ name, vertexInterpolator ⟨2, 0⟩ ≠ newFunction name := by
    intro name h
    have hanswers := newFunction_answers name (b := { strict := false })
    rw [← h] at hanswers
    cases congrArg (·.nodes.length) hanswers.2
  obtain ⟨hback, hrequest⟩ := attemptAll_wellFormed hrequests rfl
  refine ⟨rfl, hback, ?_, _, rfl, ?_, rfl⟩
  · rcases hrequest _ (.unary .abs ⟨5, 0⟩) with hrefused | ⟨b', id, hok, -⟩
    · exact hrefused
    · cases hok
  · rcases hrequest _ (.vertexInterpolator ⟨2, 0⟩) with ⟨fault, hfault⟩ | ⟨b', id, hok, hgrants⟩
    · cases hfault
    · obtain ⟨-, rfl⟩ := EStateM.Result.ok.inj hok
      exact (hgrants hnode).extended

end Builder

end ShaderGraph
