import ShaderGraph.Proofs.NodeLogic
import ShaderGraph.Proofs.PhaseLogic

/-!
# What holds of every nesting

Whatever a compilation does with frames, it reads the open ones, changes them and compiles inputs in
between. A relation between computations that is kept when these are put together
(`Pass.FrameLogic`) holds of all compilations of two graphs as soon as it holds of those of their
nodes (`Pass.FrameLogic.compileAt`), and of what is compiled for custom outputs
(`Pass.FrameLogic.asksOutputs`).
-/

namespace ShaderGraph

open Pass

namespace ExpressionGraph

/-- Compiles an expression, unless that is too deep. -/
def compileWithin (g : ExpressionGraph) (ctx : Context) (e : Expression) (input : Input) :
    Nat → PassM Code
  | 0 => throw .tooDeep
  | n + 1 => ctx.compileExpression (g.compileAt n) e input

theorem compileAt_eq (g : ExpressionGraph) (n : Nat) (ctx : Context) (input : Input) :
    g.compileAt n ctx input =
      if input.isConnected then
        (g.node? input.node).elim (ctx.report (.missingNode input.node)) fun e =>
          g.compileWithin ctx e input n
      else pure none := by
  rw [compileAt.eq_def]
  dsimp only
  cases input.isConnected with
  | false => rfl
  | true => cases g.node? input.node <;> cases n <;> rfl

end ExpressionGraph

/-- A relation between computations that is kept when they are put together, and holds of reports of
whatever problem. -/
structure Pass.Composes (P : (α : Type) → PassM α → PassM α → Prop) : Prop where
  throw : ∀ {α : Type} (e : Fault), P α (throw e) (throw e)
  bind : ∀ {α β : Type} {m n : PassM α} {f k : α → PassM β}, P α m n → (∀ a, P β (f a) (k a)) →
    P β (m >>= f) (n >>= k)
  get_bind : ∀ {α : Type} {f k : Pass → PassM α}, (∀ p, P α (f p) (k p)) →
    P α (get >>= f) (get >>= k)
  report : ∀ (ctx : Context) (problem : Problem), P _ (ctx.report problem) (ctx.report problem)

/-- Such a relation in contexts, which holds of changes of frames. -/
structure Pass.FrameLogic (C : Context → Prop) (P : (α : Type) → PassM α → PassM α → Prop) :
    Prop extends Composes P where
  covers : ∀ {ctx : Context} {node : NodeId} {shared : Option Nat}, C ctx →
    C { ctx with node, shared }
  pure : ∀ {α : Type} (a : α), P α (pure a) (pure a)
  modify : ∀ (frames : Pass → List Frame) (opened : Pass → StageTable (List Nat)), P PUnit
    (modify fun p => { p with frames := frames p, openFrames := opened p })
    (modify fun p => { p with frames := frames p, openFrames := opened p })
  convert : ∀ (ctx : Context) (c : Code) (type : ValueType),
    P _ (ctx.convert c type) (ctx.convert c type)
  maskOutput : ∀ (ctx : Context) (e : Expression) (output : Int) (c : Code),
    P _ (ctx.maskOutput e output c) (ctx.maskOutput e output c)

/-- Two compilers that are related in the given contexts. -/
def Compiler.Related (C : Context → Prop) (P : (α : Type) → PassM α → PassM α → Prop)
    (c d : Compiler) : Prop :=
  ∀ (ctx : Context) (input : Input), C ctx → P _ (c ctx input) (d ctx input)

/-- Two expressions that differ in how they are compiled only, and are compiled in related ways. -/
structure Expression.Related (C : Context → Prop) (P : (α : Type) → PassM α → PassM α → Prop)
    (id : NodeId) (e e' : Expression) : Prop where
  eq : e' = { e with inputs := e'.inputs, compile := e'.compile }
  compile : ∀ {c d : Compiler} {ctx : Context} (output : Int), Compiler.Related C P c d →
    ctx.node = id → C ctx → P _ (e.compile c ctx output) (e'.compile d ctx output)

/-- Two graphs whose nodes are compiled in related ways. -/
def ExpressionGraph.Related (C : Context → Prop) (P : (α : Type) → PassM α → PassM α → Prop)
    (g g' : ExpressionGraph) : Prop :=
  ∀ id, (g.node? id = none ∧ g'.node? id = none) ∨
    ∃ e e', g.node? id = some e ∧ g'.node? id = some e' ∧ Expression.Related C P id e e'

namespace Pass.FrameLogic

variable {C : Context → Prop} {P : (α : Type) → PassM α → PassM α → Prop} {ctx : Context}
variable {c d : Compiler}

section Frames

variable (hP : FrameLogic C P)

include hP

theorem updateFrame (id : Nat) (u : Frame → Frame) :
    P _ (Pass.updateFrame id u) (Pass.updateFrame id u) :=
  hP.modify (·.frames.modify id u) (·.openFrames)

theorem setStack (stage : Stage) (stack : List Nat) :
    P _ (Pass.setStack stage stack) (Pass.setStack stage stack) :=
  hP.modify (·.frames) (·.openFrames.set stage stack)

theorem addFrame (frame : Frame) : P _ (Pass.addFrame frame) (Pass.addFrame frame) := by
  have heq : Pass.addFrame frame = get >>= fun p =>
      (MonadState.modifyGet fun p : Pass => ((), { p with frames := p.frames ++ [frame] })) >>=
        fun _ => Pure.pure p.frames.length := rfl
  rw [heq]
  exact hP.get_bind fun p => hP.bind (hP.modify (·.frames ++ [frame]) (·.openFrames)) fun _ =>
    hP.pure _

theorem resetStack (stage : Stage) : P _ (Pass.resetStack stage) (Pass.resetStack stage) :=
  hP.bind (hP.addFrame _) fun _ => hP.setStack _ _

theorem stack : P _ ctx.stack ctx.stack := hP.get_bind fun _ => hP.pure _

theorem innermost : P _ ctx.innermost ctx.innermost := by
  refine hP.bind hP.stack fun stack => ?_
  split
  · exact hP.throw _
  refine hP.get_bind fun p => ?_
  split
  · exact hP.pure _
  · exact hP.throw _

theorem closeFrame (id : Nat) (below : List Nat) :
    P _ (ctx.closeFrame id below) (ctx.closeFrame id below) := by
  refine hP.bind hP.stack fun stack => ?_
  split
  · split
    · exact hP.setStack _ _
    · exact hP.throw _
  · exact hP.throw _

theorem sharedFrame (home : Nat) (key : Key) (call : Call) :
    P _ (Context.sharedFrame home key call) (Context.sharedFrame home key call) := by
  refine hP.get_bind fun p => ?_
  split
  · exact hP.pure _
  · exact hP.bind (hP.addFrame _) fun _ => hP.bind (hP.updateFrame _ _) fun _ => hP.pure _

end Frames

/-! ### Calls -/

section Calls

variable (hP : FrameLogic C P) (hc : Compiler.Related C P c d) (hctx : C ctx)

include hP hc hctx

theorem callFunction (call : Call) (body : Input) :
    P _ (ctx.callFunction c call body) (ctx.callFunction d call body) := by
  have hbody : P _ (ctx.compileBody c body) (ctx.compileBody d body) := by
    unfold Context.compileBody
    split
    · exact hc _ _ (hP.covers hctx)
    · exact hP.report _ _
  unfold Context.callFunction
  dsimp only
  split
  case' h_1 => refine hP.bind (hP.pure _) fun id => ?_
  case' h_2 => refine hP.bind (hP.addFrame _) fun id => ?_
  -- Whichever frame the body is compiled in.
  all_goals
    refine hP.bind (hP.updateFrame _ _) fun _ => hP.bind hP.stack fun below => ?_
    exact hP.bind (hP.bind hP.stack fun _ => hP.setStack _ _) fun _ => hP.bind hbody fun _ =>
      hP.bind (hP.closeFrame _ _) fun _ => hP.pure _

theorem functionArgument (index : Int) (preview : Input) (type : ValueType) :
    P _ (ctx.functionArgument c index preview type)
      (ctx.functionArgument d index preview type) := by
  have hargument : P _ (ctx.callArgument index) (ctx.callArgument index) := by
    refine hP.bind hP.innermost fun found => hP.bind hP.stack fun stack => ?_
    split
    · exact hP.pure _
    · exact hP.pure _
  have hcaller : ∀ argument, P _ (ctx.inCaller (c ctx argument))
      (ctx.inCaller (d ctx argument)) := by
    intro argument
    refine hP.bind hP.stack fun stack => ?_
    split
    · exact hP.throw _
    · exact hP.bind (hP.setStack _ _) fun _ => hP.bind (hc _ _ hctx) fun _ =>
        hP.bind hP.stack fun _ => hP.bind (hP.setStack _ _) fun _ => hP.pure _
  refine hP.bind hargument fun argument => ?_
  unfold Context.compileArgument
  split
  · exact hP.bind (hcaller argument) fun _ => hP.convert _ _ _
  split
  · exact hP.bind (hc _ _ hctx) fun _ => hP.convert _ _ _
  · exact hP.report _ _

/-- A node that opens or leaves a frame. -/
theorem compileNode (g : Graph) {node : Node} (hleaves : ¬node.staysInFrame) (output : Int) :
    P _ (node.compile g c ctx output) (node.compile g d ctx output) := by
  cases node with
  | functionInput => exact hP.functionArgument hc hctx _ _ _
  | functionCall f arguments =>
    unfold Node.compile Node.compileCall
    dsimp only
    split
    · exact hP.report _ _
    split
    · exact hP.report _ _
    · exact hP.callFunction hc hctx _ _
  | _ => exact absurd rfl hleaves

end Calls

/-! ### Graphs -/

section Graphs

variable {g g' : ExpressionGraph} (hP : FrameLogic C P)

include hP

theorem compileExpression {e e' : Expression} {input : Input}
    (he : Expression.Related C P input.node e e') (hc : Compiler.Related C P c d) (hctx : C ctx) :
    P _ (ctx.compileExpression c e input) (ctx.compileExpression d e' input) := by
  have hnode : ∀ shared, P _
      (e.compile c { ctx with node := input.node, shared } input.output)
      (e'.compile d { ctx with node := input.node, shared } input.output) := fun shared =>
    he.compile _ hc rfl (hP.covers hctx)
  have hmask := fun code => hP.maskOutput ctx e input.output code
  rw [he.eq]
  refine hP.bind hP.innermost fun ⟨home, frame⟩ => ?_
  dsimp only
  have hkey : ctx.keyOf { e with inputs := e'.inputs, compile := e'.compile } input =
      ctx.keyOf e input := rfl
  rw [hkey]
  split
  · exact hmask _
  refine hP.get_bind fun p => ?_
  split
  · exact hP.report _ _
  refine hP.bind (hP.updateFrame _ _) fun _ => hP.bind ?_ fun shared => ?_
  · cases e.call? with
    | none => exact hP.pure _
    | some call => exact hP.bind (hP.sharedFrame _ _ _) fun _ => hP.pure _
  refine hP.bind (hnode shared) fun result => hP.bind hP.innermost fun ⟨top, _⟩ => ?_
  exact hP.bind (hP.updateFrame _ _) fun _ => hP.bind (hmask _) fun _ =>
    hP.bind (hP.updateFrame _ _) fun _ => hP.pure _

/-- **Compilations** are related if those of the nodes are. -/
theorem compileAt (hg : ExpressionGraph.Related C P g g') (n : Nat) :
    Compiler.Related C P (g.compileAt n) (g'.compileAt n) := by
  induction n using Nat.strongRecOn with
  | _ n ih =>
  intro ctx input hctx
  rw [ExpressionGraph.compileAt_eq, ExpressionGraph.compileAt_eq]
  split
  case isFalse => exact hP.pure _
  rcases hg input.node with ⟨h, h'⟩ | ⟨e, e', h, h', he⟩ <;> rw [h, h']
  · exact hP.report _ _
  · cases n with
    | zero => exact hP.throw _
    | succ n => exact hP.compileExpression he (ih n n.lt_succ_self) hctx

theorem forM {β : Type} {l : List β} {f k : β → PassM PUnit} (h : ∀ a ∈ l, P _ (f a) (k a)) :
    P _ (l.forM f) (l.forM k) := by
  induction l with
  | nil => exact hP.pure _
  | cons a l ih => exact hP.bind (h a (by simp)) fun _ => ih fun b hb => h b (by simp [hb])

/-- **Custom outputs** are compiled in related ways if the nodes are. -/
theorem asksOutputs {env : Environment} (hg : ExpressionGraph.Related C P g g')
    (hc : Compiler.Related C P c d) (hscope : P _ newScope newScope)
    (hC : ∀ stage scope node, C { env, stage, scope, node }) :
    PhaseLogic.AsksOutputs (fun α s (n : Unit → PassM α) => P α s (n ())) env g c (fun _ => g')
      fun _ => d where
  customOutput id := by
    rcases hg id with ⟨h, h'⟩ | ⟨e, e', h, h', he⟩
    · exact .inl ⟨by rw [h]; rfl, fun _ => by rw [h']; rfl⟩
    have hout : e'.customOutput? = e.customOutput? := by rw [he.eq]
    cases hnone : e.customOutput? with
    | none => exact .inl ⟨by rw [h]; exact hnone, fun _ => by rw [h']; exact hout.trans hnone⟩
    | some out =>
      refine .inr ⟨e, fun _ => e', out, ⟨h, hnone⟩, fun _ => ⟨h', hout.trans hnone⟩,
        fun stage => ?_⟩
      refine hP.bind (hP.forM fun i _ => ?_) fun _ => hP.resetStack stage
      refine hP.bind (hP.resetStack stage) fun _ => hP.bind hscope fun scope => ?_
      exact hP.bind (he.compile _ hc rfl (hC stage scope id)) fun _ => hP.pure _

end Graphs

end Pass.FrameLogic

end ShaderGraph
