import ShaderGraph.Proofs.Cycles
import ShaderGraph.Proofs.ReservedFrames
import ShaderGraph.Proofs.TrackedNodes

/-!
# Nodes of a reserve

Compiled quietly, a node gives good code (`Reserve.compile_earns`), if the reserve may have it at
all (`Reserve.Suits`): that is a logic of nodes (`Reserve.earning`). So a reserve that is closed
under reading has a graph keep to it (`Reserve.Closed.compiles`).
-/

namespace ShaderGraph

open Pass

namespace Context

variable {ctx : Context} {p : Pass}

/-- An interpolator is read through a text. -/
theorem readInterpolator_ordinary : ctx.Ordinarily p ctx.readInterpolator := by
  unfold readInterpolator
  split
  · exact report_ordinary _
  refine fun htidy hplaced => .get_bind ?_
  split
  · split
    case h_1 i _ =>
      have htext : ∀ offset, i.readText offset ≠ "" := fun offset => by
        simp [Interpolator.readText]
      refine fun c r hr => ?_
      obtain ⟨offset, q, hq, hr⟩ := exists_of_bind hr
      have hremains := (interpolatorOffset_steps (L := .full) rfl _ _).remains offset q hq
      exact emitWith_ordinary _ (htext offset) (htidy.abides hremains.toAbides)
        (Nat.lt_of_lt_of_le hplaced hremains.length_scopes) c r hr
    case h_2 => exact report_ordinary _ htidy hplaced
  · refine fun c q hq => ?_
    obtain ⟨_, r, -, hq⟩ := exists_of_bind hq
    exact (report_remains (L := {}) ctx _ c q hq).2.1 ▸ .none

/-- The function of a custom output gives no code. -/
theorem implementOutput_ordinary (name : String) (index : Int) (c : Code) :
    ctx.Ordinarily p (ctx.implementOutput name index c) := by
  have hreport : ∀ {q : Pass} (problem : Problem), q.Gives (ctx.report problem) fun c r =>
      ctx.Ordinary c r := fun problem =>
    (report_remains (L := {}) ctx problem).mono fun _ _ h => h.2.1 ▸ .none
  have hafter : ∀ {α : Type} {m : PassM α} {q : Pass}, q.Gives m fun _ _ => True :=
    fun _ _ _ => trivial
  unfold implementOutput
  refine fun _ _ => ?_
  split
  · exact hreport _
  split
  · exact .pure .none
  refine Gives.bind hafter fun type q _ => ?_
  split
  · exact hreport _
  · exact Gives.bind hafter fun _ _ _ => Gives.bind hafter fun _ _ _ => .pure .none

end Context

namespace Reserve

variable {R : Reserve} {g : Graph}

/-- A node that may be in a reserve. -/
structure Suits (R : Reserve) (g : Graph) (node : Node) : Prop where
  /-- Without a licence to sample virtual textures, it refers to none. -/
  ordinary : R.licence.samples = false →
    node.usesVirtualTexture = false ∧ node.isDisguised R.env.material = false
  /-- Custom outputs generate functions, and give no code. -/
  read : R.licence.implements = false ∨ R.sure → (node.expression g).customOutput? = none
  fed : R.sure → node.isUnfed = false

section Nodes

variable {R : Reserve} {E : ExpressionGraph} {quiet : Prop} {ρ : Register} {ctx : Context}
variable {p : Pass} {c d : Compiler}

/-- A sample of good code is one of an ordinary texture, where it has to be. -/
theorem sample_earns (hpledge : quiet → R.pledge = none) {s : Sample}
    (htexture : quiet → R.Good ctx.scope s.texture p)
    (hcoordinate : quiet → R.Good ctx.scope s.coordinate p)
    (hmip : quiet → (R.licence.samples = false → ctx.Ordinary s.mip p) ∧
      (R.sure → ctx.Points s.mip p))
    (hmipY : quiet → (R.licence.samples = false → ctx.Ordinary s.mipY p) ∧
      (R.sure → ctx.Points s.mipY p)) :
    R.Earns E quiet ρ ctx p (ctx.sample s) (ctx.sample s) := by
  have havoids : quiet → R.licence.samples = false →
      ctx.Avoids p (ctx.sample s) ctx.avoiding.Good := fun hquiet hL =>
    Context.sample_avoids ((htexture hquiet).ordinary hL) ((hcoordinate hquiet).ordinary hL)
      ((hmip hquiet).1 hL) ((hmipY hquiet).1 hL)
  refine .of_ready fun hready => .op (Context.sample_steps (.inl rfl) s).remains (fun hquiet => ?_)
    (fun hquiet hs => ?_) (fun hquiet hL => .of_good (havoids hquiet hL))
    fun hquiet _ T hT => Course.unpledged hpledge hquiet hT
  · cases hL : R.licence.samples with
    | true => exact (Context.sample_steps (.inl hL) s).remains
    | false =>
      exact (havoids hquiet hL (hready.neat.tidy hL) (hready.placed (.inl hquiet))).mono
        fun _ _ h => ⟨h.1.toAbides.licensed, h.1.frames, h.1.openFrames⟩
  · exact Context.sample_holds trivial ((htexture hquiet).holds hs) ((hcoordinate hquiet).holds hs)
      ((hmip hquiet).2 hs) ((hmipY hquiet).2 hs)

/-- The logic of nodes that are compiled quietly. -/
def earning (hc : R.Compiles E c d) (quiet : Prop) (hpledge : quiet → R.pledge = none)
    (ctx : Context) {inputs : List Input}
    (hinputs : quiet → ∀ i ∈ inputs, R.Asks i) : ctx.NodeLogic inputs where
  virtual := ¬(quiet ∧ R.licence.samples = false)
  loud := quiet ∧ R.sure
  Ends p f Q := ∀ ρ, R.Course E quiet ρ ctx p (f c) (f d) fun a _ q => Q a q
  Later := Abides .full
  Good code p := quiet → R.Good ctx.scope code p
  Points code p := quiet → (R.licence.samples = false → ctx.Ordinary code p) ∧
    (R.sure → ctx.Points code p)
  trans := .trans
  lasts hq h hquiet := (h hquiet).mono hq
  stays hq h hquiet := ⟨fun hL => ((h hquiet).1 hL).mono hq, fun hs i hi =>
    Nat.lt_of_lt_of_le ((h hquiet).2 hs i hi) (length_scope_le hq)⟩
  points h hquiet := ⟨(h hquiet).ordinary, (h hquiet).points⟩
  nowhere _ := ⟨fun _ => .none, fun _ => .none⟩
  pure h _ := .pure h
  bind hf hk ρ := (hf ρ).bind fun a ρ' q hq ha => hk a q hq.full ha ρ'
  input hi hloud _ := (hc fun hquiet => hinputs hquiet _ hi).mono fun _ _ _ _ h hquiet =>
    (h hquiet).good fun hs => hloud ⟨hquiet, hs⟩
  peek hi _ := (hc fun hquiet => hinputs hquiet _ hi).mono fun _ _ _ _ h hquiet =>
    (h hquiet).elim (fun h => ⟨h.ordinary, h.points⟩)
      fun h => h.2 ▸ ⟨fun _ => .none, fun _ => .none⟩
  operation cs h hcs _ := .operates hpledge cs h hcs
  value {_ code} h _ := by
    have hplain : Plain (ctx.staticBoolValue code) := Context.staticBoolValue_plain code
    refine (Course.step hplain.licensed.remains (fun _ => hplain.licensed.remains)
      fun hquiet hs => (Context.meeting .outspoken ctx).staticBoolValue
        ((h hquiet).holds hs).good).mono fun value _ q _ hq hnone _ => ?_
    exact .of_none fun hs => hq.2 hs hnone trivial
  known _ := .pure nofun
  sample htexture hcoordinate hmip hmipY _ := sample_earns hpledge htexture hcoordinate hmip hmipY
  interpolator _ := .op (Context.readInterpolator_remains (.inl rfl))
    (fun _ => Context.readInterpolator_remains (.inl R.reports))
    (fun _ _ => Context.readInterpolator_holds) (fun _ _ => Context.readInterpolator_ordinary)
    fun hquiet _ T hT => Course.unpledged hpledge hquiet hT

theorem implementOutput_earns (hpledge : quiet → R.pledge = none)
    (hread : quiet → ¬(R.licence.implements = false ∨ R.sure))
    (name : String) (index : Int) (code : Code) :
    R.Earns E quiet ρ ctx p (ctx.implementOutput name index code)
      (ctx.implementOutput name index code) := by
  refine .op (Context.implementOutput_steps rfl _ _ _).remains (fun hquiet => ?_) (fun hquiet hs =>
    absurd (.inr hs) (hread hquiet)) (fun _ _ => Context.implementOutput_ordinary _ _ _)
    fun hquiet _ T hT => Course.unpledged hpledge hquiet hT
  refine (Context.implementOutput_steps ?_ _ _ _).remains
  exact Bool.not_eq_false _ ▸ fun h => hread hquiet (.inl h)

theorem compileCall_earns (g : Graph) (hc : R.Compiles E c d) {f : FunctionId}
    {arguments : List Input}
    (hinputs : quiet → ∀ i ∈ (Node.functionCall f arguments).inputs g, R.Asks i)
    (hseat : R.Seated ρ ctx p ⟨(g.function f).name, arguments⟩) (output : Int) :
    R.Earns E quiet ρ ctx p (Node.compileCall g c ctx f arguments output)
      (Node.compileCall g d ctx f arguments output) := by
  unfold Node.compileCall
  dsimp only
  split
  · exact report_earns _
  split
  · exact report_earns _
  rename_i id hid
  refine callFunction_earns hc hseat (fun hquiet => ?_) fun hquiet _ index hindex => ?_
  · have hmem : id ∈ (g.function f).outputs := by
      split at hid
      · cases hid
      · exact List.mem_of_getElem? hid
    exact hinputs hquiet _ (List.mem_append_right _ (List.mem_map_of_mem hmem))
  · exact hinputs hquiet _ (List.mem_append_left _ (Call.argument_mem hindex)) hindex

variable {g : Graph} {node : Node}

/-- **Every kind of node**: compiled quietly, it gives good code, if no more is asked of its code
than of that of any node. -/
theorem compile_earns (hpledge : quiet → R.pledge = none) (hc : R.Compiles E c d)
    (hsuits : quiet → R.Suits g node) (hinputs : quiet → ∀ input ∈ node.inputs g, R.Asks input)
    (hseat : ∀ call, (node.expression g).call? = some call → R.Seated ρ ctx p call)
    (output : Int) :
    R.Earns E quiet ρ ctx p (node.compile g c ctx output) (node.compile g d ctx output) := by
  by_cases hnode : node.staysInFrame
  · refine fun henv => (earning hc quiet hpledge ctx hinputs).node hnode ⟨fun _ => trivial,
      fun hloud => (hsuits hloud.1).fed hloud.2, fun _ _ => trivial, ?_, ?_⟩ output ρ henv
    · refine or_iff_not_imp_left.2 fun hvirtual => ?_
      obtain ⟨hquiet, hL⟩ := not_not.1 hvirtual
      have hmaterial : ctx.material = R.env.material := congrArg Environment.material henv
      rw [hmaterial]
      exact (hsuits hquiet).ordinary hL
    · intro settings inputs hsame p code name index _ ρ
      subst hsame
      refine implementOutput_earns hpledge (fun hquiet h => ?_) name index code
      cases (hsuits hquiet).read h
  · cases node with
    | functionInput f index name type preview =>
      exact functionArgument_earns hpledge hc _
        (fun hq => hinputs hq preview (by simp [Node.inputs])) _
    | functionCall f arguments => exact compileCall_earns g hc hinputs (hseat _ rfl) output
    | _ => exact absurd rfl hnode

/-- A node that is not in the reserve may be any. -/
theorem alike_of_not (node : Node) {id : NodeId} (h : ¬R.nodes id) :
    R.Alike E id (node.expression g) (node.expression g) where
  eq := rfl
  unmasked hid := absurd hid h
  compile output hc hnode hseat := compile_earns (fun hq => absurd (hnode hq) h) hc
    (fun hq => absurd (hnode hq) h) (fun hq => absurd (hnode hq) h) hseat output

end Nodes

/-- A reserve that is closed under reading. -/
structure Closed (R : Reserve) (g : Graph) : Prop where
  pledge : R.pledge = none
  suits : ∀ {id : NodeId} {node : Node}, R.nodes id → g.node? id = some node → R.Suits g node
  inputs : ∀ {id : NodeId} {node : Node}, R.nodes id → g.node? id = some node →
    ∀ input ∈ node.inputs g, R.Asks input

/-- **A graph keeps to a closed reserve.** -/
theorem Closed.alike (h : R.Closed g) : R.Matches g.expressions g.expressions := by
  intro id
  rw [Graph.node?_expressions]
  cases hfound : g.node? id with
  | none => exact .inl ⟨rfl, rfl⟩
  | some node =>
    refine .inr ⟨_, _, rfl, rfl, rfl, fun _ => .inl h.pledge, fun output hc hnode hseat => ?_⟩
    exact compile_earns (fun _ => h.pledge) hc (fun hquiet => h.suits (hnode hquiet) hfound)
      (fun hquiet => h.inputs (hnode hquiet) hfound) hseat output

theorem Closed.compiles (h : R.Closed g) (n : Nat) :
    R.Compiles g.expressions (g.expressions.compileAt n) (g.expressions.compileAt n) :=
  compileAt_course h.alike n

end Reserve

end ShaderGraph
