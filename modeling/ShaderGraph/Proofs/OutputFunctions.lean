import ShaderGraph.Proofs.Congruences
import ShaderGraph.Proofs.Failures
import ShaderGraph.Proofs.OutputNames
import ShaderGraph.Proofs.ReservedNodes

/-!
# The functions of custom outputs

Each input of a custom output is compiled into a function. Where a custom output is read by another
one, or by an interpolator, it is compiled there again, and what reads it gets no code. Apart from
that, a compilation that succeeds generates one function for each input of each custom output, in
the order in which they are compiled, and otherwise only those of the interpolators
(`Pass.run_outputFunctions`).

The nodes that custom outputs and interpolators read are a reserve: they generate nothing, and code
of theirs that is missing was reported. So a function is missing only where the compilation has
failed.
-/

namespace ShaderGraph

variable {g : ExpressionGraph} {id : NodeId} {out : CustomOutput}

open Pass Relation

namespace Pass

/-! ### What is generated -/

/-- From a state as `I` says, a step leads to one as `J` says. If the compilation has not failed
then, functions as `W` says were generated. -/
def Writes (I J : Pass → Prop) {α : Type} (s : PassM α) (W : List String → Prop) : Prop :=
  ∀ p, I p → p.Gives s fun _ q => J q ∧ (q.success = true → p.success = true ∧
    ∃ texts, q.implementations = p.implementations ++ texts ∧ W texts)

namespace Writes

variable {I J K : Pass → Prop} {α β : Type} {s : PassM α} {f : α → PassM β}
variable {W W' W'' : List String → Prop}

theorem bind (hs : Writes I J s W) (hf : ∀ a, Writes J K (f a) W')
    (hW : ∀ {x y}, W x → W' y → W'' (x ++ y)) : Writes I K (s >>= f) W'' := by
  intro p hp
  refine (hs p hp).bind fun a q ⟨hq, hfirst⟩ => ((hf a) q hq).mono fun b r ⟨hr, hsecond⟩ => ?_
  refine ⟨hr, fun hsuccess => ?_⟩
  obtain ⟨hsuccess', y, hy, hW'⟩ := hsecond hsuccess
  obtain ⟨hsuccess'', x, hx, hWx⟩ := hfirst hsuccess'
  exact ⟨hsuccess'', x ++ y, by rw [hy, hx, List.append_assoc], hW hWx hW'⟩

/-- What is done first generates nothing. -/
theorem after (hs : Writes I J s (· = [])) (hf : ∀ a, Writes J K (f a) W) :
    Writes I K (s >>= f) W := hs.bind hf fun hx hy => hx ▸ hy

/-- What is done last generates nothing. -/
theorem before (hs : Writes I J s W) (hf : ∀ a, Writes J K (f a) (· = [])) :
    Writes I K (s >>= f) W :=
  hs.bind hf fun hx hy => by rwa [hy, List.append_nil]

theorem pure (a : α) : Writes I I (pure a) (· = []) := fun _ hp =>
  .pure ⟨hp, fun hsuccess => ⟨hsuccess, [], (List.append_nil _).symm, rfl⟩⟩

theorem get_bind {g : Pass → PassM β} (h : ∀ p, Writes I J (g p) W) : Writes I J (get >>= g) W :=
  fun p hp => h p p hp

theorem ite {b : Prop} [Decidable b] {s' : PassM α} (hs : b → Writes I J s W)
    (hs' : ¬b → Writes I J s' W) : Writes I J (if b then s else s') W := by
  split
  · exact hs ‹_›
  · exact hs' ‹_›

/-- A step that is taken or not, and generates nothing. -/
theorem optional {b : Prop} [Decidable b] {s : PassM Unit} {f : Unit → PassM β}
    (hs : Writes I I s (· = [])) (hf : Writes I J (f ()) W) :
    Writes I J (if b then s >>= f else f ()) W :=
  .ite (fun _ => hs.after fun _ => hf) fun _ => hf

/-- A loop generates what its rounds do. -/
theorem forM {V : List α → List String → Prop} (hnil : V [] [])
    (hcons : ∀ {a as x y}, V [a] x → V as y → V (a :: as) (x ++ y)) {xs : List α}
    {f : α → PassM PUnit} (h : ∀ a ∈ xs, Writes I I (f a) (V [a])) :
    Writes I I (xs.forM f) (V xs) := by
  induction xs with
  | nil => exact fun p hp => .pure ⟨hp, fun hs => ⟨hs, [], (List.append_nil _).symm, hnil⟩⟩
  | cons a xs ih =>
    exact (h a List.mem_cons_self).bind (fun _ => ih fun b hb => h b (List.mem_cons_of_mem _ hb))
      hcons

/-- A step without a licence to generate functions. -/
theorem of_minds {L : Licence} (hL : L.implements = false) (hs : Minds L s)
    (h : ∀ p, I p → p.Gives s fun _ q => J q) : Writes I J s (· = []) := by
  intro p hp a q hq
  have habides := hs p a q hq
  refine ⟨h p hp a q hq, fun hsuccess => ⟨?_, [], ?_, rfl⟩⟩
  · by_contra hfailed
    rw [habides.failed (Bool.not_eq_true _ ▸ hfailed)] at hsuccess
    cases hsuccess
  · rw [habides.implementations hL, List.append_nil]

end Writes

/-! ### States between compilations -/

/-- Nothing is in progress, and nothing is held back. -/
def Calm (env : Environment) (busy : Option Stage) (p : Pass) : Prop :=
  ∃ l, p.Idle .outspoken env busy l ∧ p.sink = none

section Calm

variable {env : Environment} {α : Type} {s : PassM α} {n : Ledger → Probe → PassM α}

theorem Idles.calm (hs : Idles .outspoken env s n) {p : Pass} (hp : p.Calm env none) :
    p.Gives s fun _ q => q.Calm env none := by
  obtain ⟨l, hp, hsink⟩ := hp
  obtain ⟨l', -, -, hok, -⟩ := hs l p hp hsink
  exact fun a q hq => ⟨l', hok a q hq⟩

theorem Idles.writes (hs : Idles .outspoken env s n)
    (hminds : Minds { samples := true, reports := true } s) :
    Writes (Calm env none) (Calm env none) s (· = []) := .of_minds rfl hminds fun _ hp => hs.calm hp

/-- What is reported fails the compilation. -/
theorem reportGlobally_writes (problem : Problem) (W : List String → Prop) :
    Writes (Calm env none) (Calm env none) (reportGlobally problem) W := by
  intro p hp a q hq
  refine ⟨(reportGlobally_idles problem).calm hp a q hq, fun hsuccess => ?_⟩
  rw [reportGlobally_fails hq] at hsuccess
  cases hsuccess

end Calm

end Pass

/-! ### Custom outputs -/

/-- The function of an input of a custom output: it computes what was compiled for that input, in a
scope of its own. -/
def Graph.Implements (g : Graph) (env : Environment) (job : NodeId × Nat) (text : String) : Prop :=
  ∃ settings inputs input stage, g.node? job.1 = some (.customOutput settings inputs) ∧
    inputs[job.2]? = some input ∧ Stage.ofCode? settings.stageCode = some stage ∧
    ∃ (ctx : Context) (p q r : Pass) (c : Nat) (type : ValueType) (body : Body),
      (ctx.env = env ∧ ctx.stage = stage ∧ ctx.property = none ∧ p.scope ctx.scope = []) ∧
      g.expressions.compile ctx input p = .ok (some c) q ∧
      ctx.typeOf (some c) q = .ok type q ∧ ctx.functionBody (some c) q = .ok body r ∧
      text = functionText type (settings.name ++ toString (Int.ofNat job.2))
        ("FMaterial" ++ (if stage = .vertex then "Vertex" else "Pixel") ++ "Parameters") body

/-- The functions that the custom outputs among the given nodes have before the properties, or after
them. -/
def ExpressionGraph.outputJobs (g : ExpressionGraph) (ids : List NodeId) (before : Bool) :
    List (NodeId × Nat) :=
  ids.flatMap fun id => (g.customOutput? id).elim [] fun out =>
    if out.beforeProperties = before then (List.range out.outputs).map (Prod.mk id) else []

/-- The functions of the custom outputs of a material, in the order in which they are generated. -/
def Material.outputJobs (m : Material) (g : ExpressionGraph) : List (NodeId × Nat) :=
  g.outputJobs m.customOutputs true ++ g.outputJobs m.customOutputs false

/-- The functions of a custom output are those of the round that it is compiled in. -/
theorem ExpressionGraph.count_outputJobs (hout : g.customOutput? id = some out) {i : Nat}
    (hi : i < out.outputs) (ids : List NodeId) (before : Bool) :
    (g.outputJobs ids before).count (id, i) =
      if out.beforeProperties = before then ids.count id else 0 := by
  have hmine : ((List.range out.outputs).map (Prod.mk id)).count (id, i) = 1 := by
    rw [List.count_map_of_injective _ _ (Prod.mk_right_injective id)]
    exact List.count_eq_one_of_mem List.nodup_range (List.mem_range.2 hi)
  have hother : ∀ {a : NodeId} {n : Nat}, a ≠ id →
      ((List.range n).map (Prod.mk a)).count (id, i) = 0 := by
    intro a n hne
    refine List.count_eq_zero.2 fun hmem => ?_
    obtain ⟨j, -, hj⟩ := List.mem_map.1 hmem
    exact hne (Prod.mk.inj hj).1
  induction ids with
  | nil => simp [outputJobs]
  | cons a ids ih =>
    have hcons : g.outputJobs (a :: ids) before =
        ((g.customOutput? a).elim [] fun out => if out.beforeProperties = before then
          (List.range out.outputs).map (Prod.mk a) else []) ++ g.outputJobs ids before := by
      simp [outputJobs]
    rw [hcons, List.count_append, ih]
    by_cases ha : a = id
    · subst ha
      rw [hout, Option.elim_some, List.count_cons_self]
      split
      · rw [hmine, Nat.add_comm]
      · rfl
    · rw [List.count_cons_of_ne ha]
      cases g.customOutput? a with
      | none => simp
      | some other =>
        rw [Option.elim_some]
        split
        · rw [hother ha, Nat.zero_add]
        · simp

/-- Every input of a custom output that is listed once has one function. -/
theorem Material.count_outputJobs {m : Material} (hnodup : m.customOutputs.Nodup)
    (hid : id ∈ m.customOutputs) (hout : g.customOutput? id = some out) {i : Nat}
    (hi : i < out.outputs) : (m.outputJobs g).count (id, i) = 1 := by
  rw [outputJobs, List.count_append, g.count_outputJobs hout hi, g.count_outputJobs hout hi,
    List.count_eq_one_of_mem hnodup hid]
  cases out.beforeProperties <;> rfl

/-- The nodes that are read to compile the custom outputs and interpolators of a material. -/
def Material.Feeds (m : Material) (g : Graph) (id : NodeId) : Prop :=
  ∃ root ∈ m.customOutputs ++ m.interpolators, TransGen g.Reads root id

/-- The reserve of those nodes. -/
def Environment.feeding (env : Environment) (g : Graph) (sure : Bool) : Reserve where
  env := env
  nodes := env.material.Feeds g
  licence := { samples := true, reports := true }
  reports := rfl
  sure := sure

section Feeding

variable {env : Environment} {g : Graph} {sure : Bool}

/-- The inputs of what is listed are those of nodes of the reserve. -/
theorem Environment.feeding_asks {id : NodeId}
    (hid : id ∈ env.material.customOutputs ++ env.material.interpolators) {node : Node}
    (hnode : g.node? id = some node) : ∀ input ∈ node.inputs g, (env.feeding g sure).Asks input :=
  fun input hinput _ => ⟨id, hid, .single ⟨node, hnode, input, hinput, rfl⟩⟩

theorem Environment.feeding_closed (hfed : ∀ node ∈ g.nodes, node.isUnfed = false)
    (hread : ∀ id, env.material.Feeds g id → g.expressions.customOutput? id = none) :
    (env.feeding g sure).Closed g where
  pledge := rfl
  suits {id node} hid hnode := by
    refine ⟨nofun, fun _ => ?_, fun _ => hfed node (Graph.mem_of_node? hnode)⟩
    have hnone := hread id hid
    rwa [ExpressionGraph.customOutput?, Graph.node?_expressions, hnode] at hnone
  inputs {id node} hid hnode input hinput _ := by
    obtain ⟨root, hroot, hreads⟩ := hid
    exact ⟨root, hroot, hreads.tail ⟨node, hnode, input, hinput, rfl⟩⟩

end Feeding

namespace Pass

section Functions

variable {R : Reserve} {g : Graph} {env : Environment} {settings : OutputSettings}
variable {inputs : List Input} {id : NodeId} {stage : Stage} {ctx : Context} {index : Nat}

/-- The code of an input is made into a function, unless that fails. -/
theorem implementOutput_adds {name : String} {index : Int} {c : Code} {p : Pass}
    (hproperty : ctx.property = none) (hpoints : ctx.Points c p)
    (hreported : c = none → p.success = false) (hsink : p.sink = none) :
    p.Gives (ctx.implementOutput name index c) fun _ q => q.success = true → p.success = true ∧
      ∃ (i : Nat) (type : ValueType) (body : Body) (r : Pass), c = some i ∧
        ctx.typeOf (some i) p = .ok type p ∧ ctx.functionBody (some i) p = .ok body r ∧
        q.implementations = p.implementations ++ [functionText type (name ++ toString index)
          ("FMaterial" ++ (if ctx.stage = .vertex then "Vertex" else "Pixel") ++ "Parameters")
          body] := by
  have hfails : ∀ {q : Pass} {T : Prop}, q.success = false → q.success = true → T := by
    intro q T hfalse htrue
    rw [hfalse] at htrue
    cases htrue
  unfold Context.implementOutput
  rw [hproperty]
  dsimp only
  cases c with
  | none => exact .pure (hfails (hreported rfl))
  | some i =>
    obtain ⟨type, htype⟩ := Context.exists_typeOf hpoints
    refine .read htype ?_
    split
    · exact (report_remains (L := {}) ctx _).mono fun _ q h => hfails (h.2.2 hsink)
    · intro a q hq
      obtain ⟨body, r, hbody, hq⟩ := exists_of_bind hq
      have hremains := (Context.functionBody_plain (some i)).remains body r hbody
      cases hq
      refine fun hsuccess => ⟨?_, i, type, body, r, rfl, htype, hbody, ?_⟩
      · by_contra hfailed
        exact hfails (hremains.failed (Bool.not_eq_true _ ▸ hfailed)) hsuccess
      · exact congrArg (· ++ _) (hremains.implementations rfl)

/-- Every input of a custom output gives one function, unless that fails. -/
theorem compileOutput_adds (hR : R.Closed g)
    (hlicence : R.licence = { samples := true, reports := true }) (hsure : R.sure)
    (hnode : g.node? id = some (.customOutput settings inputs))
    (hinputs : ∀ input ∈ inputs, R.Asks input)
    (hstage : Stage.ofCode? settings.stageCode = some stage) (hindex : index < inputs.length)
    (henv : ctx.env = R.env) (hctx : ctx.stage = stage) (hproperty : ctx.property = none) {p : Pass}
    (hfit : p.Fit .outspoken R.env ctx.scope) (hscope : p.scope ctx.scope = []) {root : Nat}
    (hroot : p.openFrames.get ctx.stage = [root]) (hframe : p.frames[root]? = some {}) :
    p.Gives (Node.compileOutput g.expressions.compile ctx settings inputs (Int.ofNat index))
      fun _ q => q.success = true → p.success = true ∧
        ∃ text, q.implementations = p.implementations ++ [text] ∧
          g.Implements R.env (id, index) text := by
  have hinput : (if Int.ofNat index < 0 then none else inputs[(Int.ofNat index).toNat]?) =
      some inputs[index] := by
    rw [if_neg (by simp), show (Int.ofNat index).toNat = index from rfl,
      List.getElem?_eq_getElem hindex]
  have hready : R.Ready g.expressions True (.only root ctx.scope) ctx.stage ctx.scope p := by
    refine .fresh ⟨fun h => ?_, fun _ => hfit⟩ hfit.placed hroot hframe fun _ => trivial
    rw [hlicence] at h
    cases h
  unfold Node.compileOutput
  rw [hinput]
  dsimp only
  split
  case isFalse =>
    refine (report_remains (L := {}) ctx _).mono fun _ q h hsuccess => ?_
    rw [h.2.2 (hfit.audible trivial)] at hsuccess
    cases hsuccess
  case isTrue hconnected =>
    intro a r hr
    obtain ⟨c, q, hcompile, hr⟩ := exists_of_bind hr
    obtain ⟨ρ, hmoves, hready', hanswers⟩ := (hR.compiles g.expressions.depth
      (fun _ => hinputs _ (List.getElem_mem hindex)) henv hready).2 c q hcompile
    have hgood := (hanswers trivial).good fun _ => hconnected
    have hq : q.implementations = p.implementations :=
      (hmoves.licensed trivial).implementations (by rw [hlicence])
    refine fun hsuccess => ?_
    obtain ⟨hsuccess', i, type, body, s, rfl, htype, hbody, htext⟩ := implementOutput_adds hproperty
      (hgood.points hsure) (hgood.reported hsure) ((hready'.neat.fit hsure).audible trivial) a r hr
      hsuccess
    refine ⟨?_, _, hq ▸ htext, settings, inputs, _, stage, hnode, List.getElem?_eq_getElem hindex,
      hstage, ctx, p, q, s, i, type, body, ⟨henv, hctx, hproperty, hscope⟩, hcompile, htype, hbody,
      by rw [hctx]⟩
    by_contra hfailed
    rw [hmoves.full.failed (Bool.not_eq_true _ ▸ hfailed)] at hsuccess'
    cases hsuccess'

/-- Nothing is in progress, and the frame of a stage may still be that of a function. -/
def Resting (env : Environment) (stage : Stage) (p : Pass) : Prop :=
  ∃ busy, (busy = none ∨ busy = some stage) ∧ p.Calm env busy

theorem scope_length (p : Pass) : p.scope p.scopes.length = [] := by
  simp [scope, List.getD_eq_getElem?_getD]

section

variable (htracked : g.expressions.Tracked .outspoken) (hclosed : (env.feeding g true).Closed g)
  (hlisted : id ∈ env.material.customOutputs)
  (hnode : g.node? id = some (.customOutput settings inputs))
  (hstage : Stage.ofCode? settings.stageCode = some stage)

include htracked hclosed hlisted hnode hstage

/-- A function is compiled in a fresh frame and a scope of its own. -/
theorem compileFunction_writes (hindex : index < inputs.length) :
    Writes (Resting env stage) (Resting env stage)
      (resetStack stage >>= fun _ => compileFunction env g.expressions.compile id
        ((Node.customOutput settings inputs).expression g) stage (Int.ofNat index))
      (List.Forall₂ (g.Implements env) [(id, index)]) := by
  rintro p ⟨busy, hbusy, l, hp, hsink⟩
  have he : g.expressions.node? id = some ((Node.customOutput settings inputs).expression g) := by
    rw [Graph.node?_expressions, hnode]
    rfl
  have hidle := hp.restarted hbusy
  refine .read (a := ()) (q := p.restarted stage) rfl fun a r hr => ⟨?_, fun hsuccess => ?_⟩
  · obtain ⟨l', -, -, hok, -⟩ := compileFunction_observed (Ledger.once_sound _)
      (htracked.asked (Ledger.once_sound _)) (htracked.nodes he) rfl hidle hsink
      (unused_restarted hp stage) (Int.ofNat index)
    exact ⟨some stage, .inr rfl, l', hok a r hr⟩
  · let ctx : Context := { env, stage, scope := (p.restarted stage).scopes.length, node := id }
    have hrun : (Node.compileOutput g.expressions.compile ctx settings inputs (Int.ofNat index) >>=
        fun _ => pure PUnit.unit) (p.restarted stage).withScope = .ok a r := hr
    obtain ⟨c, q, hq, hr⟩ := exists_of_bind hrun
    obtain ⟨-, rfl⟩ := EStateM.Result.ok.inj hr
    have hfit : (p.restarted stage).withScope.Fit .outspoken env ctx.scope :=
      ⟨hidle.withScope.sane, by simp [withScope, ctx], fun _ => hsink⟩
    obtain ⟨hsuccess', text, htext, himplements⟩ := compileOutput_adds hclosed rfl rfl hnode
      (Environment.feeding_asks (List.mem_append_left _ hlisted) hnode) hstage hindex rfl rfl rfl
      hfit ((scope_withScope _).trans (scope_length _))
      (StageTable.get_set_self ..) List.getElem?_concat_length c q hq hsuccess
    exact ⟨hsuccess', [text], htext, .cons himplements .nil⟩

theorem compileFunctions_writes :
    Writes (Calm env none) (Calm env none)
      (compileFunctions env g.expressions.compile id
        ((Node.customOutput settings inputs).expression g) inputs.length stage)
      (List.Forall₂ (g.Implements env) ((List.range inputs.length).map (Prod.mk id))) := by
  have hloop := Writes.forM (I := Resting env stage)
    (V := fun indices => List.Forall₂ (g.Implements env) (indices.map (Prod.mk id))) .nil
    (fun hx hy => List.rel_append hx hy) fun index hindex =>
      compileFunction_writes htracked hclosed hlisted hnode hstage (List.mem_range.1 hindex)
  have hreset : Writes (Resting env stage) (Calm env none) (resetStack stage) (· = []) := by
    refine .of_minds (L := {}) rfl (Minds.congruence.frames.resetStack stage) ?_
    rintro p ⟨busy, hbusy, l, hp, hsink⟩
    exact .of_run (q := p.restarted stage) (a := ()) rfl ⟨l, hp.restarted hbusy, hsink⟩
  exact fun p hp => hloop.before (fun _ => hreset) p ⟨none, .inl rfl, hp⟩

end

end Functions

section CustomOutputs

variable {g : Graph} {env : Environment} {id : NodeId}

theorem enter_writes (phase : Phase) :
    Writes (Calm env none) (Calm env none) (enter phase) (· = []) :=
  (enter_idles phase).writes (.of_plain (enter_plain phase))

theorem compileCustomOutput_writes (htracked : g.expressions.Tracked .outspoken)
    (hclosed : (env.feeding g true).Closed g) (hlisted : id ∈ env.material.customOutputs)
    {e : Expression} (he : g.expressions.node? id = some e) {out : CustomOutput}
    (hout : e.customOutput? = some out) :
    Writes (Calm env none) (Calm env none) (compileCustomOutput env g.expressions.compile id e out)
      (List.Forall₂ (g.Implements env) ((List.range out.outputs).map (Prod.mk id))) := by
  have hminds := Minds.congruence.phases (L := { samples := true, reports := true }) rfl
  obtain ⟨node, hnode, rfl⟩ := Graph.exists_node he
  cases node with
  | customOutput settings inputs =>
    cases hout
    refine .get_bind fun p => .ite (fun _ => reportGlobally_writes _ _) fun _ => ?_
    refine Writes.after (Idles.writes (idles_phases.named _) (hminds.named _)) fun _ => ?_
    unfold compileNamedOutput
    refine .optional (Idles.writes (idles_phases.defined _) (hminds.defined _)) ?_
    dsimp only
    cases hstage : Stage.ofCode? settings.stageCode with
    | none =>
      intro p hp a q hq
      obtain ⟨_, _, hthrow, -⟩ := exists_of_bind hq
      cases hthrow
    | some stage =>
      exact (compileFunctions_writes htracked hclosed hlisted hnode hstage).before fun _ =>
        Idles.writes (idles_phases.noted _) (hminds.noted _)
  | _ => cases hout

/-- **A round** generates the functions of its custom outputs in order. -/
theorem compileCustomOutputs_writes (htracked : g.expressions.Tracked .outspoken)
    (hclosed : (env.feeding g true).Closed g) (before : Bool) :
    Writes (Calm env none) (Calm env none)
      (compileCustomOutputs env g.expressions g.expressions.compile before)
      (List.Forall₂ (g.Implements env)
        (g.expressions.outputJobs env.material.customOutputs before)) := by
  refine .forM
    (V := fun ids => List.Forall₂ (g.Implements env) (g.expressions.outputJobs ids before))
    .nil (fun {id ids _ _} hx hy => ?_) fun id hid => ?_
  · have hjobs : g.expressions.outputJobs (id :: ids) before =
        g.expressions.outputJobs [id] before ++ g.expressions.outputJobs ids before := by
      simp [ExpressionGraph.outputJobs]
    rw [hjobs]
    exact List.rel_append hx hy
  unfold compileListed
  split
  case h_2 => exact reportGlobally_writes _ _
  case h_1 e he =>
    split
    case h_2 => exact reportGlobally_writes _ _
    case h_1 out hout =>
      have hcustom : g.expressions.customOutput? id = some out := by
        rw [ExpressionGraph.customOutput?, he]
        exact hout
      refine .ite (fun hround => ?_) fun hround => ?_
      · have hjobs : g.expressions.outputJobs [id] before =
            (List.range out.outputs).map (Prod.mk id) := by
          simp [ExpressionGraph.outputJobs, hcustom, hround]
        rw [hjobs]
        exact compileCustomOutput_writes htracked hclosed hid he hout
      · have hjobs : g.expressions.outputJobs [id] before = [] := by
          simp [ExpressionGraph.outputJobs, hcustom, hround]
        rw [hjobs]
        refine fun p hp => (Writes.pure () p hp).mono fun _ _ hq => ⟨hq.1, fun hsuccess => ?_⟩
        obtain ⟨hsuccess', texts, htexts, rfl⟩ := hq.2 hsuccess
        exact ⟨hsuccess', [], htexts, .nil⟩

end CustomOutputs

/-! ### Interpolators -/

/-- The function of an interpolator. -/
def IsInterpolated (text : String) : Prop :=
  ∃ (type : ValueType) (index : Nat) (body : Body),
    text = functionText type s!"VertexInterpolator{index}" "FMaterialVertexParameters" body

/-- Nothing is in progress, and nothing was compiled yet in the frame of the vertex stage. -/
def Vacant (env : Environment) (p : Pass) : Prop :=
  ∃ l, (p.Idle .outspoken env none l ∧ p.sink = none) ∧ Unused l .vertex p ∧
    ∃ root, p.openFrames.get .vertex = [root] ∧ p.frames[root]? = some {}

section Interpolators

variable {g : Graph} {env : Environment} {id : NodeId} {input : Input} {p : Pass}

theorem vacant_opened (env : Environment) : opened.Vacant env :=
  ⟨.empty, ⟨idle_opened _ env, rfl⟩, unused_opened .vertex, _, rfl, rfl⟩

/-- A step that compiles no expression. -/
theorem Vacant.step (hp : p.Vacant env) {s : PassM Unit} (hs : Oblivious s)
    (h : ∀ (ctx : Context) (p : Pass), ctx.Meets .outspoken p s fun _ _ => True) :
    p.Gives s fun _ q => q.Vacant env := by
  obtain ⟨l, ⟨hp, hsink⟩, hunused, root, hroot, hframe⟩ := hp
  obtain ⟨l', -, -, hok, -⟩ := hp.step hsink hs h
  intro a q hq
  obtain ⟨hidle, rfl, hlater⟩ := hok a q hq
  exact ⟨l', hidle, hunused.later hlater, root, hlater.openFrames ▸ hroot, hlater.frames ▸ hframe⟩

/-- What an interpolator reads generates nothing. -/
theorem compileInterpolated_abides (hclosed : (env.feeding g false).Closed g)
    (hask : (env.feeding g false).Asks input) {ctx : Context} (henv : ctx.env = env)
    (hplaced : ctx.scope < p.scopes.length) {root : Nat}
    (hroot : p.openFrames.get ctx.stage = [root]) (hframe : p.frames[root]? = some {}) :
    p.Gives (compileInterpolated g.expressions.compile ctx input) fun _ q =>
      Abides { samples := true, reports := true } p q := by
  have hready : (env.feeding g false).Ready g.expressions True (.only root ctx.scope) ctx.stage
      ctx.scope p :=
    .fresh ⟨nofun, nofun⟩ hplaced hroot hframe fun _ => trivial
  refine (hclosed.compiles g.expressions.depth (fun _ => hask) henv hready).2.bind
    fun code q ⟨_, hmoves, _, _⟩ => ?_
  have hq : Abides { samples := true, reports := true } p q := hmoves.licensed trivial
  refine (Context.typeOf_plain code).remains.bind fun type r hr => ?_
  have hr := hq.trans hr.toAbides.licensed
  split
  · exact (report_remains ctx _).bind fun _ _ h => .pure (hr.trans h.1.toAbides)
  · exact .pure hr

theorem storeInterpolator_adds (ctx : Context) (code : Code) (type : ValueType) :
    p.Gives (storeInterpolator ctx id code type) fun _ q =>
      (p.success = false → q.success = false) ∧
        ∃ texts, q.implementations = p.implementations ++ texts ∧
          ∀ text ∈ texts, IsInterpolated text := by
  unfold storeInterpolator
  split
  · refine .get_bind ((Context.functionBody_plain code).remains.bind fun body q hq => ?_)
    let index := p.interpolators.length
    let text := functionText type s!"VertexInterpolator{index}" "FMaterialVertexParameters" body
    refine .modify_bind (.modify ⟨hq.failed, [text], ?_, fun text' htext => ?_⟩)
    · exact congrArg (· ++ [text]) (hq.implementations rfl)
    · exact ⟨type, index, body, List.mem_singleton.1 htext⟩
  · exact .modify ⟨fun h => h, [], (List.append_nil _).symm, fun _ h => by cases h⟩

theorem closeInterpolator_gives (attributes : List (String × String)) :
    p.Gives (closeInterpolator attributes) fun _ q =>
      (q.implementations = p.implementations ∧ q.success = p.success) ∧
        ∃ root, q.openFrames.get .vertex = [root] ∧ q.frames[root]? = some {} := by
  have hrun : closeInterpolator attributes p = .ok () (restarted { p with
    sink := none,
    log := p.log ++ [⟨.debug, "compiled vertex interpolator", attributes⟩] } .vertex) := rfl
  exact .of_run hrun ⟨⟨rfl, rfl⟩, p.frames.length, rfl, List.getElem?_concat_length⟩

section

variable (htracked : g.expressions.Tracked .outspoken) (hclosed : (env.feeding g false).Closed g)

include htracked hclosed

/-- **An interpolator** generates its own function at most. -/
theorem compileInterpolator_writes (hask : (env.feeding g false).Asks input) :
    Writes (Vacant env) (Vacant env) (compileInterpolator env g.expressions.compile id input)
      fun texts => ∀ text ∈ texts, IsInterpolated text := by
  rintro p ⟨l, ⟨hp, hsink⟩, hunused, root, hroot, hframe⟩ a r hr
  obtain ⟨l', -, -, hok, -⟩ := compileInterpolator_observed
    (htracked.asked (Ledger.once_sound _)) hp hunused id input
  obtain ⟨hidle, hunused'⟩ := hok a r hr
  let ctx : Context := { env, stage := .vertex, scope := p.scopes.length, node := id }
  let p₁ : Pass := withScope { p with sink := some [] }
  have hrun : (compileInterpolated g.expressions.compile ctx input >>= fun x => do
      let type := if x.1.isSome && x.2 = .float then .float1 else x.2
      storeInterpolator ctx id x.1 type
      closeInterpolator
        [("node", toString id), ("ok", toString x.1.isSome), ("type", type.name)]) p₁ =
      .ok a r := hr
  obtain ⟨x, q, hcompiled, hrun⟩ := exists_of_bind hrun
  obtain ⟨_, s, hstored, hend⟩ := exists_of_bind hrun
  obtain ⟨⟨hsame, hsuccess_eq⟩, hfresh⟩ := closeInterpolator_gives _ _ r hend
  have hq := compileInterpolated_abides hclosed hask (show ctx.env = env from rfl)
    (show ctx.scope < p₁.scopes.length by simp [p₁, withScope, ctx]) hroot hframe x q hcompiled
  obtain ⟨hfailed, texts, htexts, hall⟩ := storeInterpolator_adds ctx _ _ _ s hstored
  refine ⟨⟨l', hidle, hunused', hfresh⟩, fun hsuccess => ⟨?_, texts, ?_, hall⟩⟩
  · by_contra hnot
    have hs : s.success = false := hfailed (hq.failed (Bool.not_eq_true _ ▸ hnot))
    rw [hsuccess_eq, hs] at hsuccess
    cases hsuccess
  · rw [hsame, htexts]
    exact congrArg (· ++ _) (hq.implementations rfl)

/-- **The interpolators** generate no functions but their own. -/
theorem compileInterpolators_writes :
    Writes (Vacant env) (Vacant env) (compileInterpolators env g.expressions g.expressions.compile)
      fun texts => ∀ text ∈ texts, IsInterpolated text := by
  refine .forM (V := fun _ texts => ∀ text ∈ texts, IsInterpolated text) (fun _ => nofun)
    (fun hx hy text h => (List.mem_append.1 h).elim (hx text) (hy text)) fun id hid => ?_
  cases hinput : (g.expressions.node? id).bind (·.vertexInput?) with
  | some input =>
    obtain ⟨e, he, hinput⟩ := Option.bind_eq_some_iff.1 hinput
    obtain ⟨node, hnode, rfl⟩ := Graph.exists_node he
    cases node with
    | vertexInterpolator x =>
      obtain rfl := Option.some.inj hinput
      exact compileInterpolator_writes htracked hclosed <|
        Environment.feeding_asks (List.mem_append_right _ hid) hnode x List.mem_cons_self
    | _ => cases hinput
  | none =>
    intro p hp a q hq
    refine ⟨hp.step (addDiagnostic_oblivious _) (fun _ _ =>
      (Context.addDiagnostic_meets _).mono fun _ _ _ _ => trivial) a q hq, fun hsuccess => ?_⟩
    rw [reportGlobally_fails hq] at hsuccess
    cases hsuccess

end

end Interpolators

/-! ### Whole compilations -/

section Runs

variable {g : Graph} {env : Environment}

/-- The functions that a compilation generates: those of interpolators, and one for each input of
each custom output. -/
def Generated (g : Graph) (env : Environment) (texts : List String) : Prop :=
  ∃ interpolated generated, texts = interpolated ++ generated ∧
    (∀ text ∈ interpolated, IsInterpolated text) ∧
    List.Forall₂ (g.Implements env) (env.material.outputJobs g.expressions) generated

/-- **All phases** generate the functions of interpolators and custom outputs. -/
theorem compileAll_writes (htracked : g.expressions.Tracked .outspoken)
    (hclosed : ∀ sure, (env.feeding g sure).Closed g) :
    Writes (Vacant env) (Calm env none) (compileAll env g.expressions g.expressions.compile)
      (Generated g env) := by
  have hcompiler : Compiler.Minds { samples := true, reports := true } g.expressions.compile :=
    Graph.compileAt_minds _
  have hc := htracked.asked (Ledger.once_sound .outspoken)
  have hidles := asksNormal_idles env hc
  have hminds := Minds.congruence.asksNormal env hcompiler rfl rfl
  have hfirst : Writes (Vacant env) (Vacant env) (enter .vertexInterpolators) (· = []) :=
    .of_minds (L := {}) rfl (.of_plain (enter_plain _)) fun p hp =>
      hp.step (enter_plain _).oblivious fun _ _ =>
        .modify_bind rfl (Context.note_meets _ (by decide) _)
  have hinterpolators : Writes (Vacant env) (Calm env none)
      (compileInterpolators env g.expressions g.expressions.compile)
      fun texts => ∀ text ∈ texts, IsInterpolated text := fun p hp =>
    (compileInterpolators_writes htracked (hclosed false) p hp).mono
      fun _ _ ⟨⟨l, hidle, _⟩, h⟩ => ⟨⟨l, hidle⟩, h⟩
  have hlimits : Writes (Calm env none) (Calm env none)
      ((virtualTextureProblems env.material g.expressions).forM reportGlobally) (· = []) :=
    .forM (V := fun _ texts => texts = []) rfl (fun hx hy => by rw [hx, hy]; rfl)
      fun problem _ => reportGlobally_writes problem _
  have hrounds : Writes (Calm env none) (Calm env none)
      (compileRounds env g.expressions g.expressions.compile)
      (List.Forall₂ (g.Implements env) (env.material.outputJobs g.expressions)) := by
    refine (compileCustomOutputs_writes htracked (hclosed true) true).bind (fun _ => ?_)
      fun hx hy => List.rel_append hx hy
    refine (Idles.writes (idles_phases.compileNormal hidles)
      ((Minds.congruence.phases rfl).compileNormal hminds)).after fun _ => ?_
    refine (enter_writes _).after fun _ =>
      (Idles.writes (idles_phases.compileRemaining hidles.toAsksProperties)
        ((Minds.congruence.phases rfl).compileRemaining hminds.toAsksProperties)).after fun _ => ?_
    refine (enter_writes _).after fun _ =>
      (compileCustomOutputs_writes htracked (hclosed true) false).before fun _ => ?_
    exact Idles.writes (idles_phases.compileCoordinates hidles.toAsksProperties)
      ((Minds.congruence.phases rfl).compileCoordinates hminds.toAsksProperties)
  have hjoin : ∀ {x y : List String}, (∀ text ∈ x, IsInterpolated text) →
      List.Forall₂ (g.Implements env) (env.material.outputJobs g.expressions) y →
      Generated g env (x ++ y) := fun hx hy => ⟨_, _, rfl, hx, hy⟩
  refine hfirst.after fun _ => hinterpolators.bind (fun _ => ?_) hjoin
  exact .ite (fun _ => (enter_writes _).after fun _ => hlimits.after fun _ => hrounds)
    fun _ => hrounds

/-- **The functions of custom outputs.** Take a graph that was built strictly, and a compilation of
a material over it that succeeds. If no custom output is read to compile the custom outputs and
interpolators of the material, then what is generated, besides functions of interpolators, is one
function for each input of each of its custom outputs. -/
theorem run_outputFunctions {b : Builder} (hb : Builder.Built true b) (env : Environment)
    {o : Outcome} {p : Pass} (h : run env (some b.graph.expressions) {} = .ok o p)
    (hsuccess : o.success = true)
    (hread : ∀ id, env.material.Feeds b.graph id → b.graph.expressions.customOutput? id = none) :
    Generated b.graph env p.implementations ∧
    ∀ id ∈ env.material.customOutputs, ∃ settings inputs,
      b.graph.node? id = some (.customOutput settings inputs) ∧
      (env.material.customOutputs.Nodup → ∀ i < inputs.length,
        (env.material.outputJobs b.graph.expressions).count (id, i) = 1) := by
  have ho := run_concluded (some b.graph) h
  have hp : p.success = true := ho.success ▸ hsuccess
  have hrun := h
  have hclosed : ∀ sure, (env.feeding b.graph sure).Closed b.graph := fun _ =>
    Environment.feeding_closed (hb.keeps.fed trivial) hread
  rw [run_eq] at h
  obtain ⟨_, q, hall, hfinish⟩ := exists_of_bind h
  obtain ⟨-, hgenerated⟩ :=
    compileAll_writes hb.keeps.tracked hclosed opened (vacant_opened env) _ q hall
  have hend := Minds.congruence.finish (L := { samples := true, reports := true }) rfl rfl q o p
    hfinish
  have hq : q.success = true := by
    by_contra hfailed
    rw [hend.failed (Bool.not_eq_true _ ▸ hfailed)] at hp
    cases hp
  obtain ⟨-, texts, htexts, hgenerated⟩ := hgenerated hq
  refine ⟨?_, fun id hid => ?_⟩
  · rw [hend.implementations rfl, htexts]
    exact hgenerated
  · obtain ⟨⟨-, hlisted⟩, -⟩ := run_named b.graph.expressions_safe hrun hp
    obtain ⟨out, hout⟩ := Option.isSome_iff_exists.1 (hlisted id hid)
    obtain ⟨e, he, hcustom⟩ := Option.bind_eq_some_iff.1 hout
    rw [Graph.node?_expressions] at he
    obtain ⟨node, hnode, rfl⟩ := Option.map_eq_some_iff.1 he
    cases node with
    | customOutput settings inputs =>
      obtain rfl := Option.some.inj hcustom
      exact ⟨settings, inputs, hnode, fun hnodup i hi =>
        Material.count_outputJobs hnodup hid hout hi⟩
    | _ => cases hcustom

end Runs

end Pass

/-- Two custom outputs of the vertex color, one of them through an interpolator as well. -/
def Builder.tinted : Builder where
  strict := true
  graph :=
    { nodes := [.vertexColor, .vertexInterpolator ⟨1, 0⟩,
        .customOutput { name := "Tint", stageCode := 3, beforeProperties := true } [⟨2, 0⟩, ⟨1, 0⟩],
        .customOutput { name := "Glow" } [⟨1, 0⟩]]
      interpolators := [2]
      customOutputs := [3, 4] }

theorem Builder.tinted_built : tinted.Built true :=
  .step (.step (.step (.step .start .vertexColor rfl) (.vertexInterpolator ⟨1, 0⟩) rfl)
    (.customOutput { name := "Tint", stageCode := 3, beforeProperties := true } [⟨2, 0⟩, ⟨1, 0⟩])
    rfl) (.customOutput { name := "Glow" } [⟨1, 0⟩]) rfl

/-- The material that lists them. -/
def tintedOutputs : Environment where
  material := { interpolators := [2], customOutputs := [3, 4] }

/-- They read no custom output. -/
theorem tintedOutputs_feeds (id : NodeId)
    (h : tintedOutputs.material.Feeds Builder.tinted.graph id) :
    Builder.tinted.graph.expressions.customOutput? id = none := by
  have hinputs : ∀ node ∈ Builder.tinted.graph.nodes, ∀ i ∈ node.inputs Builder.tinted.graph,
      i.node = 1 ∨ i.node = 2 := by decide
  have hreads : ∀ n m, Builder.tinted.graph.Reads n m → m = 1 ∨ m = 2 := by
    rintro n m ⟨node, hnode, i, hi, rfl⟩
    exact hinputs node (Graph.mem_of_node? hnode) i hi
  obtain ⟨root, -, hroot⟩ := h
  have hid : id = 1 ∨ id = 2 := by
    cases hroot with
    | single h => exact hreads _ _ h
    | tail _ h => exact hreads _ _ h
  rcases hid with rfl | rfl <;> rfl

namespace Pass

/-- Of the four functions that are generated, three are those of the custom outputs. -/
theorem run_outputFunctions_tinted :
    ∃ o p, run tintedOutputs (some Builder.tinted.graph.expressions) {} = .ok o p ∧
      o.success = true ∧ p.implementations.length = 4 ∧
      tintedOutputs.material.outputJobs Builder.tinted.graph.expressions =
        [(3, 0), (3, 1), (4, 0)] ∧
      Generated Builder.tinted.graph tintedOutputs p.implementations := by
  obtain ⟨o, p, h, hsuccess, hlength⟩ :
      ∃ o p, run tintedOutputs (some Builder.tinted.graph.expressions) {} = .ok o p ∧
        o.success = true ∧ p.implementations.length = 4 := by decide +kernel
  exact ⟨o, p, h, hsuccess, hlength, by decide, (run_outputFunctions Builder.tinted_built
    tintedOutputs h hsuccess tintedOutputs_feeds).1⟩

end Pass

/-- A custom output whose texture is sampled at the level that another custom output gives. -/
def Builder.leveled : Builder where
  strict := true
  graph :=
    { nodes := [.constant .one, .customOutput { name := "Inner" } [⟨1, 0⟩],
        .textureSample { mipMode := .level, mip := ⟨2, 0⟩ },
        .customOutput { name := "Outer" } [⟨3, 0⟩]]
      customOutputs := [2, 4] }

theorem Builder.leveled_built : leveled.Built true :=
  .step (.step (.step (.step .start (.constant .one) rfl)
    (.customOutput { name := "Inner" } [⟨1, 0⟩]) rfl)
    (.textureSample { mipMode := .level, mip := ⟨2, 0⟩ }) rfl)
    (.customOutput { name := "Outer" } [⟨3, 0⟩]) rfl

/-- The material that lists both. -/
def leveledMaterial : Environment where
  material :=
    { textures := [{ name := "T", type := .texture2D, sizeX := 4, sizeY := 4 }]
      customOutputs := [2, 4] }

/-- The function of the first is generated once for itself, and once where it is read. -/
theorem Pass.run_leveled :
    Builder.leveled.Built true ∧
    leveledMaterial.material.outputJobs Builder.leveled.graph.expressions = [(2, 0), (4, 0)] ∧
    ∃ o p, run leveledMaterial (some Builder.leveled.graph.expressions) {} = .ok o p ∧
      o.success = true ∧ p.implementations.length = 3 ∧
      p.implementations.count
        (functionText .float "Inner0" "FMaterialVertexParameters" ⟨"", "1.0"⟩) = 2 :=
  ⟨Builder.leveled_built, by decide, by decide +kernel⟩

end ShaderGraph
