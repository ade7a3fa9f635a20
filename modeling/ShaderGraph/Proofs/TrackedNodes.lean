import ShaderGraph.Proofs.PageTables
import ShaderGraph.Proofs.TrackedExpressions

/-!
# Every kind of node is compiled as it has to be

A node does the same from the probed compilers of its inputs, its code points into the scope, and it
has none only if that was reported (`Node.expression_tracked`). That is a logic of nodes
(`Context.tracking`), so what it asks of a graph is what it asks of each kind of node
(`Graph.Keeps`).
-/

namespace ShaderGraph

open Pass

namespace Context

variable {t : Terms} {ctx : Context} {p : Pass} {c : Code}

/-- The function of a custom output gives no code, and need not report that: no property reads
it. -/
theorem implementOutput_holds (h : ctx.Points c p) (name : String) (index : Int) :
    ctx.Meets (t.within ctx) p (ctx.implementOutput name index c) (ctx.Holds (t.within ctx)) := by
  unfold implementOutput
  cases hproperty : ctx.property with
  | some property => exact report_holds _
  | none =>
    have hsilent : ∀ q : Pass, ctx.Holds (t.within ctx) none q := fun q =>
      .of_failed fun hloud => by simp [Terms.within, hproperty] at hloud
    dsimp only
    split
    · exact .pure (hsilent p)
    obtain ⟨type, htype⟩ := exists_typeOf h
    refine .read htype ?_
    split
    · exact report_holds _
    · refine (functionBody_meets h).bind fun body q _ _ => ?_
      exact .modify_bind rfl (.pure (hsilent _))

theorem interpolatorOffset_meets {index : Nat} {i : Interpolator}
    (hi : p.interpolators[index]? = some i) :
    ctx.Meets t p (interpolatorOffset index i) fun _ _ => True := by
  unfold interpolatorOffset
  split
  · exact .pure trivial
  · refine .get_bind (.set_bind (fun hp => ?_) ⟨.of_ground_eq (.refl p) rfl, rfl, rfl⟩
      (.pure trivial))
    refine { hp with interpolators := fun j hj => ?_, stacked := hp.stacked_of_eq rfl }
    rcases List.mem_or_eq_of_mem_set hj with hj | rfl
    · exact hp.interpolators j hj
    · exact hp.interpolators i (List.mem_of_getElem? hi)

/-- An interpolator that compiled has a type; any other is reported where it is read. -/
theorem readInterpolator_holds : ctx.Meets t p ctx.readInterpolator (ctx.Holds t) := by
  unfold readInterpolator
  split
  · exact report_holds _
  refine .of_fit fun hp => .get_bind ?_
  cases p.interpolators.findIdx? fun i => i.node == ctx.node with
  | none =>
    exact (Meets.forM fun d q => (addDiagnostic_meets d).mono fun _ _ _ _ => trivial).bind
      fun _ q _ _ => report_holds _
  | some index =>
    dsimp only
    cases hi : p.interpolators[index]? with
    | none => exact report_holds _
    | some i =>
      refine (interpolatorOffset_meets hi).bind fun offset q _ _ => ?_
      exact (emitWith_holds (fun htype => absurd htype
        (hp.interpolators i (List.mem_of_getElem? hi))) _ _).mono fun _ _ _ hc => hc.1

/-- The logic of nodes that are compiled from probed compilers. -/
def tracking {compile : Compiler} {d : Ledger → Probe → Compiler}
    (hcompile : Compiler.Tracked t compile d) (ht : t.ordered) (ctx : Context)
    (inputs : List Input) : ctx.NodeLogic inputs where
  lax := t.lax
  laid := t.laid
  loud := t.loud
  Ends p f Q := ∀ l, ctx.Tracked t l p (f compile) (fun last b => f (d last b)) Q
  Later := Since
  Good := ctx.Holds (t.within ctx)
  Points := ctx.Points
  trans := .trans
  lasts hq h := h.mono hq
  stays hq h := h.mono hq
  points h := h.1
  nowhere := .none
  pure h _ := .pure h
  bind hf hk l := (hf l).bind fun a l' q hq ha => hk a q hq ha l'
  input _ hi l := (hcompile _ _ l _).mono fun _ _ _ h => h.holds fun hloud => hi hloud.1
  peek _ l := (hcompile _ _ l _).mono fun _ _ _ h => h.1
  operation _ h hcs _ := .step h.plain.oblivious (.of_good (h (meeting (t.within ctx) ctx)
    ⟨id, fun _ => trivial, fun _ => id⟩ _ fun c hc => (hcs c hc).good))
  value h _ := .step (staticBoolValue_plain _).oblivious
    (Meets.mono ((meeting _ ctx).staticBoolValue h.good) fun _ _ _ hq hnone =>
      .of_failed (hq hnone))
  known _ := .pure nofun
  sample htexture hcoordinate hmip hmipY _ :=
    .step (sample_steps (L := .full) (.inl rfl) _).oblivious
      (sample_holds (show (t.within ctx).ordered from ht) htexture hcoordinate hmip hmipY)
  interpolator _ := .step ctx.readInterpolator_oblivious readInterpolator_holds

end Context

namespace Node

open Context

variable {t : Terms} {l : Ledger} {ctx : Context} {p : Pass} {compile : Compiler}
variable {d : Ledger → Probe → Compiler}

theorem report_tracked (problem : Problem) :
    ctx.Tracked t l p (ctx.report problem) (fun _ _ => ctx.report problem)
      (ctx.Holds (t.within ctx)) := .step (report_oblivious _ _) (report_holds _)

theorem compileCall_tracked (g : Graph) (hc : Compiler.Tracked t compile d) (f : FunctionId)
    (arguments : List Input) (output : Int) (hshared : ctx.shared.isSome) :
    ctx.Tracked t l p (compileCall g compile ctx f arguments output)
      (fun last b => compileCall g (d last b) ctx f arguments output)
      (ctx.Holds (t.within ctx)) := by
  refine .ite (fun _ => report_tracked _) fun _ => ?_
  cases if output < 0 then none else (g.function f).outputs[output.toNat]? with
  | none => exact report_tracked _
  | some id => exact callFunction_tracked hc hshared _ _

/-- **Every kind of node**: it does the same from the probed compilers of its inputs, and gives code
of the scope, or reports that there is none. -/
theorem expression_tracked (g : Graph) (node : Node) (hlax : node.isLax → t.lax)
    (hfed : t.loud → node.isUnfed = false) (hlaid : ∀ ref, node.laidOut? = some ref → t.laid ref)
    (ht : t.ordered) : (node.expression g).Tracked t := by
  intro compile d hc ctx output l p hcall
  change ctx.Tracked t l p (node.compile g compile ctx output)
    (fun last b => node.compile g (d last b) ctx output) (ctx.Holds (t.within ctx))
  by_cases hnode : node.staysInFrame
  · refine (tracking hc ht ctx (node.inputs g)).node hnode ⟨hlax, hfed, hlaid, .inl trivial, ?_⟩
      output l
    exact fun _ _ _ _ _ name index hcode _ =>
      .step (implementOutput_steps (L := .full) rfl _ _ _).oblivious
        (implementOutput_holds hcode.1 name index)
  · cases node with
    | functionInput f index name type preview => exact functionArgument_tracked hc _ _ _
    | functionCall f arguments => exact compileCall_tracked g hc f arguments output (hcall rfl)
    | _ => exact absurd rfl hnode

end Node

/-- What a graph has to be like for a compilation to keep to its terms. -/
structure Graph.Keeps (g : Graph) (t : Terms) : Prop where
  lax : ∀ node ∈ g.nodes, node.isLax → t.lax
  fed : t.loud → ∀ node ∈ g.nodes, node.isUnfed = false
  laid : ∀ node ∈ g.nodes, ∀ ref, node.laidOut? = some ref → t.laid ref
  ordered : t.ordered

end ShaderGraph
