import ShaderGraph.Proofs.Sampling

/-!
# Compiling a graph keeps the code sound

A node is compiled with the compiler of its inputs, so a node is sound if it keeps the code sound
whenever that compiler does (`Node.compile_safe`). The compiler of a graph then keeps the code
sound by induction on the depth (`ExpressionGraph.compile_safe`).
Functions generated apart, those of interpolators and of custom outputs, are closed.
-/

namespace ShaderGraph

open Pass

variable {p : Pass} {ctx : Context}

/-- A compiler that keeps the code sound. -/
def Compiler.IsSafe (compile : Compiler) : Prop := ∀ ctx input, Safe (compile ctx input)

/-- An expression that keeps the code sound if the compiler of its inputs does. -/
def Expression.IsSafe (e : Expression) : Prop :=
  ∀ compile : Compiler, compile.IsSafe → ∀ ctx output, Safe (e.compile compile ctx output)

/-- A graph of such expressions. -/
def ExpressionGraph.IsSafe (g : ExpressionGraph) : Prop := ∀ e ∈ g.expressions, e.IsSafe

variable {compile : Compiler}

/-! ### Frames -/

/-- Frames are changed without a change to the code. -/
theorem Pass.Safe.frames : FrameLogic (fun _ => True) fun _ m _ => Safe m where
  covers _ := trivial
  pure := .pure
  throw := .throw
  bind hm hf := hm.bind hf
  get_bind h := .get_bind h
  report _ _ := Context.report_safe _
  modify _ _ := .modify (fun _ => rfl) fun _ => rfl
  convert _ _ _ := Context.convert_safe _ _
  maskOutput ctx e output _ :=
    Context.safe_of_sounding fun _ => ctx.sounding.maskOutput Context.sounds e output

theorem Compiler.IsSafe.related (h : compile.IsSafe) :
    compile.Related (fun _ => True) (fun _ m _ => Safe m) compile := fun ctx input _ => h ctx input

theorem resetStack_safe (stage : Stage) : Safe (resetStack stage) := Safe.frames.resetStack stage

namespace ExpressionGraph

variable {g : ExpressionGraph}

theorem isSafe_of_node? (hg : g.IsSafe) {id : NodeId} {e : Expression}
    (he : g.node? id = some e) : e.IsSafe := by
  unfold node? at he
  split at he
  · simp at he
  · exact hg e (List.mem_of_getElem? he)

theorem IsSafe.related (hg : g.IsSafe) :
    ExpressionGraph.Related (fun _ => True) (fun _ m _ => Safe m) g g := by
  intro id
  cases he : g.node? id with
  | none => exact .inl ⟨rfl, rfl⟩
  | some e =>
    exact .inr ⟨e, e, rfl, rfl, rfl, fun output hc _ _ =>
      isSafe_of_node? hg he _ (fun ctx input => hc ctx input trivial) _ output⟩

/-- The compiler of a graph keeps the code sound. -/
theorem compile_safe (hg : g.IsSafe) : g.compile.IsSafe :=
  fun ctx input => Safe.frames.compileAt hg.related g.depth ctx input trivial

end ExpressionGraph

namespace Context

/-! ### Functions of their own -/

/-- The body of a function of its own is closed. -/
theorem functionBody_yields (c : Code) :
    p.Yields (ctx.functionBody c) fun body _ => body.Closed "" := by
  refine .of_sound fun hp => (isDeferred_yields c).bind fun deferred q _ hq => ?_
  obtain ⟨rfl, hfound⟩ := hq
  split
  case isTrue hdeferred =>
    have hliteral : q.CodeReads ctx.scope true c := by
      intro _ i hi
      obtain ⟨d, hd, hform⟩ := hfound i hi
      obtain ⟨u, hu⟩ := Option.isSome_iff_exists.mp (hform.symm.trans hdeferred)
      have huniform : d.uniform? = some u := (Option.filter_eq_some_iff.mp hu).1
      refine ⟨d, hd, plainText_of_uniform? huniform ▸ ?_⟩
      exact ((hp.ordered ctx.scope).follows hd).uniform (by simp [huniform])
    -- A text without temporaries needs no definitions.
    exact (textOf_yields hliteral).bind fun t r _ ht => .pure <|
      Scope.Ordered.nil.closed_of_isLines .empty (ht.literal.mono fun _ => False.elim)
  case isFalse =>
    refine .get_bind ?_
    split
    case h_1 body hbody =>
      have hclosed := (hp.ordered ctx.scope).closed_body hbody (Nat.zero_le _) fun i hi => by
        obtain ⟨d, hd, -⟩ := hfound i hi
        exact (List.getElem?_eq_some_iff.mp hd).1
      refine .pure ?_
      simpa [Scope.declarations] using hclosed
    case h_2 => exact .throw _

/-! ### Custom outputs -/

theorem implementOutput_safe (name : String) (index : Int) (c : Code) :
    Safe (ctx.implementOutput name index c) := by
  unfold implementOutput
  split
  · exact report_safe _
  split
  · exact .pure _
  refine (typeOf_safe c).bind fun type => ?_
  split
  · exact report_safe _
  · intro p
    refine (functionBody_yields c).bind fun body q _ hbody => ?_
    exact .modify_bind (.single (.implementation hbody)) (.pure trivial)

/-! ### Interpolators -/

theorem interpolatorOffset_yields {index : Nat} {i : Interpolator}
    (hi : p.interpolators[index]? = some i) :
    p.Yields (interpolatorOffset index i) fun _ _ => True := by
  unfold interpolatorOffset
  split
  case h_1 => exact .pure trivial
  case h_2 hunread =>
    exact .get_bind (.set_bind (.single (.readInterpolator hi hunread)) (.pure trivial))

theorem readInterpolator_safe : Safe ctx.readInterpolator := by
  unfold readInterpolator
  split
  · exact report_safe _
  intro p
  refine .get_bind ?_
  split
  · split
    case h_1 i hi =>
      exact (interpolatorOffset_yields hi).bind fun offset _ _ _ =>
        emitWith_yields (reads_readText _ offset)
    case h_2 => exact report_safe _ _
  · exact (Safe.forM fun d _ => addDiagnostic_safe d).bind (fun _ => report_safe _) _

end Context

/-! ### Nodes -/

namespace Context

/-- The logic of what compiling a node does to the code. -/
def growing (hcompile : compile.IsSafe) (ctx : Context) (inputs : List Input) :
    ctx.NodeLogic inputs where
  Ends p f Q := p.Yields (f compile) Q
  Later := Evolves
  Good _ _ := True
  Points _ _ := True
  trans := .trans
  lasts _ _ := trivial
  stays _ _ := trivial
  points _ := trivial
  nowhere := trivial
  pure _ := .pure trivial
  bind := .bind
  input _ _ := hcompile _ _ _
  peek _ := hcompile _ _ _
  operation _ h _ := safe_of_sounding (fun p => h ctx.sounding ⟨fun _ => trivial, fun _ => trivial,
    fun _ _ => trivial⟩ p fun _ _ => sounds) _
  value _ := Yields.mono (ctx.sounding.staticBoolValue sounds) fun _ _ _ _ _ => trivial
  known := .pure fun _ => trivial
  sample _ _ _ _ := sample_safe _ _
  interpolator := readInterpolator_safe _

end Context

namespace Node

open Context

/-- **Every node keeps the code sound** if the compiler of its inputs does. -/
theorem compile_safe (g : Graph) (node : Node) (hcompile : compile.IsSafe) (output : Int) :
    Safe (node.compile g compile ctx output) := by
  by_cases hnode : node.staysInFrame
  · refine fun p => (growing hcompile ctx (node.inputs g)).node hnode ?_ output
    exact ⟨fun _ => trivial, False.elim, fun _ _ => trivial, .inl trivial,
      fun _ _ _ _ c name index _ => implementOutput_safe name index c _⟩
  · exact Safe.frames.compileNode hcompile.related trivial g hnode output

end Node

/-- The expressions of a graph keep the code sound. -/
theorem Graph.expressions_safe (g : Graph) : g.expressions.IsSafe := by
  intro e he compile hcompile ctx output
  obtain ⟨node, -, rfl⟩ := List.mem_map.mp he
  exact node.compile_safe g hcompile output

end ShaderGraph
