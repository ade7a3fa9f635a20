import ShaderGraph.Proofs.Outcomes
import ShaderGraph.Proofs.TrackedRuns

/-!
# States that a compilation goes through

What is proved of states that are reached, and of states that are reached from them, is about a
compilation as far as it goes through such states. That is seen by making it break off. Where the
compilation itself ends without a fault, one that is made to break off does the same, or does break
off, in a state on the way to the last one (`Pass.Stops`). So wherever code is asked for or an
expression is compiled, the state is reached, and the last one is reached from it
(`Pass.run_endsIn`). A state in which the compilation is made to break off can be computed, and is
one that it goes through (`Graph.barred_waypoint`).
-/

namespace ShaderGraph

open Pass

variable {alarm : Fault} {V : Pass → Prop} {c d : Compiler} {env : Environment}

namespace Pass

variable {α β : Type} {p : Pass} {m n : PassM α} {f k : α → PassM β} {Q : α → Pass → Prop}
variable {R : β → Pass → Prop}

/-- From a state that is reached, the first computation leads on. The second does the same, or it
breaks off with the alarm on the way, where `V` holds. -/
def Stops (alarm : Fault) (V : Pass → Prop) (p : Pass) (m n : PassM α) (Q : α → Pass → Prop) :
    Prop :=
  Reaches {} p → ∀ a r, m p = .ok a r → p.Reaches r ∧ Q a r ∧
    (n p = .ok a r ∨ ∃ q, n p = .error alarm q ∧ p.Reaches q ∧ q.Reaches r ∧ V q)

/-- From every such state. -/
def Breaks (alarm : Fault) (V : Pass → Prop) (m n : PassM α) : Prop :=
  ∀ p : Pass, p.Stops alarm V m n fun _ _ => True

namespace Stops

theorem of_reaches (h : Reaches {} p → p.Gives m fun a r => p.Reaches r ∧ Q a r) :
    p.Stops alarm V m m Q := by
  intro hp a r hr
  obtain ⟨hpr, ha⟩ := h hp a r hr
  exact ⟨hpr, ha, .inl hr⟩

theorem of_yields (h : p.Yields m Q) : p.Stops alarm V m m Q := by
  refine of_reaches fun hp a r hr => ?_
  obtain ⟨hevolves, ha⟩ := h (hp.sound ready_init.sound) a r hr
  exact ⟨(Reaches.refl p).evolves hevolves, ha⟩

theorem bind (hm : p.Stops alarm V m n Q)
    (hf : ∀ a q, p.Reaches q → Q a q → q.Stops alarm V (f a) (k a) R) :
    p.Stops alarm V (m >>= f) (n >>= k) R := by
  intro hp b r h
  obtain ⟨a, s, hs, hr⟩ := exists_of_bind h
  obtain ⟨hps, ha, hn⟩ := hm hp a s hs
  obtain ⟨hsr, hb, hk⟩ := hf a s hps ha (hp.trans hps) b r hr
  refine ⟨hps.trans hsr, hb, ?_⟩
  rcases hn with hn | ⟨q, hn, hpq, hqs, hq⟩
  · rw [bind_of_ok hn]
    exact hk.imp_right fun ⟨q, hk, hsq, hrest⟩ => ⟨q, hk, hps.trans hsq, hrest⟩
  · exact .inr ⟨q, Observed.bind_of_error hn _, hpq, hqs.trans hsr, hq⟩

theorem get_bind {f k : Pass → PassM β} (h : p.Stops alarm V (f p) (k p) R) :
    p.Stops alarm V (get >>= f) (get >>= k) R := h

/-- The first computation makes the pass evolve, if it is safe. -/
theorem evolving (h : p.Stops alarm V m n Q) (hm : Safe m) :
    p.Stops alarm V m n fun _ q => p.Evolves q := by
  intro hp a r hr
  obtain ⟨hpr, -, hn⟩ := h hp a r hr
  exact ⟨hpr, hm.gives (hp.sound ready_init.sound) a r hr, hn⟩

/-- A computation may break off before it begins. -/
theorem throw (h : p.Stops alarm V m n Q) (hp : V p) :
    p.Stops alarm V m (throw alarm) Q := fun hreached a r hr =>
  have hr := h hreached a r hr
  ⟨hr.1, hr.2.1, .inr ⟨p, rfl, .refl p, hr.1, hp⟩⟩

/-- A computation may be guarded. -/
theorem guarded {before : Pass → Prop} {after : Pass → Code → Pass → Prop} {m n : PassM Code}
    {Q : Code → Pass → Prop} (h : p.Stops alarm V m n Q)
    (hbefore : Reaches {} p → ¬before p → V p)
    (hafter : ∀ c r, Reaches {} p → p.Reaches r → ¬after p c r → V r) :
    p.Stops alarm V m (guarded before after alarm n) Q := by
  intro hp c r hr
  obtain ⟨hpr, hc, hn⟩ := h hp c r hr
  refine ⟨hpr, hc, ?_⟩
  unfold ShaderGraph.guarded
  split
  case isFalse hb => exact .inr ⟨p, rfl, .refl p, hpr, hbefore hp hb⟩
  rcases hn with hn | ⟨q, hn, hq⟩
  · by_cases ha : after p c r
    · exact .inl ((bind_of_ok hn).trans (if_pos ha))
    · exact .inr ⟨r, (bind_of_ok hn).trans (if_neg ha), hpr, .refl r, hafter c r hp hpr ha⟩
  · exact .inr ⟨q, Observed.bind_of_error hn _, hq⟩

end Stops

theorem Safe.breaks (h : Safe m) : Breaks alarm V m m := fun p => .of_yields (h p)

/-- Frames are changed without breaking off. -/
theorem Breaks.frames : FrameLogic (fun _ => True) fun _ m n => Breaks alarm V m n where
  covers _ := trivial
  pure a := (Safe.pure a).breaks
  throw e := (Safe.throw e).breaks
  bind hm hf p := (hm p).bind fun a q _ _ => hf a q
  get_bind h p := h p p
  report _ _ := (Context.report_safe _).breaks
  modify _ _ := (Safe.frames.modify _ _).breaks
  convert _ _ _ := (Safe.frames.convert _ _ _).breaks
  maskOutput _ _ _ _ := (Safe.frames.maskOutput _ _ _ _).breaks

end Pass

/-! ### Nodes -/

/-- The second compiler breaks off where the first does not. -/
def Compiler.Breaks (alarm : Fault) (V : Pass → Prop) (c d : Compiler) : Prop :=
  c.Related (fun _ => True) (fun _ m n => Pass.Breaks alarm V m n) d

namespace Context

/-- The logic of nodes that are compiled from such compilers. What does not ask for an input does
not break off. -/
def stopping (hc : c.Breaks alarm V d) (ctx : Context) (inputs : List Input) :
    ctx.NodeLogic inputs :=
  let G := @growing (fun _ _ => pure none) (fun _ _ => .pure _) ctx inputs
  { Ends := fun p f Q => p.Stops alarm V (f c) (f d) Q
    Later := Reaches
    Good := fun _ _ => True
    Points := fun _ _ => True
    trans := .trans
    lasts := fun _ _ => trivial
    stays := fun _ _ => trivial
    points := fun _ => trivial
    nowhere := trivial
    pure := fun h => .of_yields (G.pure h)
    bind := .bind
    input := fun _ _ => hc _ _ trivial _
    peek := fun _ => hc _ _ trivial _
    operation := fun cs h hcs => .of_yields (G.operation cs h hcs)
    value := fun h => .of_yields (G.value h)
    known := .of_yields G.known
    sample := fun ht hc hm hy => .of_yields (G.sample ht hc hm hy)
    interpolator := .of_yields G.interpolator }

end Context

theorem Node.compile_breaks (hc : c.Breaks alarm V d) (g : Graph) (node : Node) (ctx : Context)
    (output : Int) :
    Pass.Breaks alarm V (node.compile g c ctx output) (node.compile g d ctx output) := by
  by_cases hnode : node.staysInFrame
  · refine fun p => (Context.stopping hc ctx (node.inputs g)).node hnode ?_ output
    exact ⟨fun _ => trivial, False.elim, fun _ _ => trivial, .inl trivial,
      fun _ _ _ _ c name index _ => .of_yields (Context.implementOutput_safe name index c _)⟩
  · exact Breaks.frames.compileNode hc trivial g hnode output

/-- A change to expressions makes them break off. -/
structure Expression.Breaks (alarm : Fault) (V : Pass → Prop) (h : Expression → Expression) :
    Prop where
  eq : ∀ e, h e = { e with compile := (h e).compile }
  compile : ∀ {e : Expression} {c d : Compiler} {ctx : Context} {output : Int},
    (∀ {d : Compiler}, c.Breaks alarm V d →
      Pass.Breaks alarm V (e.compile c ctx output) (e.compile d ctx output)) →
    c.Breaks alarm V d →
    Pass.Breaks alarm V (e.compile c ctx output) ((h e).compile d ctx output)

theorem Graph.related_map {h : Expression → Expression} (hh : Expression.Breaks alarm V h)
    (g : Graph) : ExpressionGraph.Related (fun _ => True)
      (fun _ m n => Pass.Breaks alarm V m n) g.expressions (g.expressions.map h) := by
  intro id
  rw [ExpressionGraph.node?_map]
  cases he : g.expressions.node? id with
  | none => exact .inl ⟨rfl, rfl⟩
  | some e =>
    obtain ⟨node, -, rfl⟩ := exists_node he
    refine .inr ⟨_, _, rfl, rfl, ?_, fun output hc _ _ =>
      hh.compile (fun hc => node.compile_breaks hc g _ _) hc⟩
    rw [hh.eq]

/-! ### Phases -/

namespace Pass

/-- What phases do besides compiling nodes does not break off. -/
theorem Breaks.phases : PhaseLogic fun α s (n : Unit → PassM α) => Breaks alarm V s (n ()) where
  pure := frames.pure
  bind hs hf := frames.bind hs hf
  read _ h := frames.get_bind h
  noSuchStage := frames.throw _
  enter phase := (enter_safe phase).breaks
  noted _ := (note_safe _ _ _).breaks
  report _ := (reportGlobally_safe _).breaks
  named name := Safe.breaks (Safe.phases.named name)
  defined define := Safe.breaks (Safe.phases.defined define)

section

variable (hsafe : c.IsSafe) (hc : c.Breaks alarm V d) {g g' : ExpressionGraph} {p : Pass}

include hc

theorem compileInterpolators_breaks
    (hg : ∀ id, ((g'.node? id).bind (·.vertexInput?)) = (g.node? id).bind (·.vertexInput?)) :
    Breaks alarm V (compileInterpolators env g c) (compileInterpolators env g' d) := by
  refine Breaks.frames.forM fun id _ => ?_
  rw [hg]
  split
  · refine Breaks.frames.bind (Safe.modify (u := fun p => { p with sink := some [] })
      (fun _ => rfl) fun _ => rfl).breaks fun _ => ?_
    refine Breaks.frames.bind Context.newScope_safe.breaks fun scope => ?_
    refine Breaks.frames.bind ?_ fun x => Breaks.frames.bind
      (storeInterpolator_safe _ _ _ _).breaks fun _ => (closeInterpolator_safe _).breaks
    refine Breaks.frames.bind (hc _ _ trivial) fun code =>
      Breaks.frames.bind (Context.typeOf_safe code).breaks fun type => ?_
    split
    · exact Breaks.frames.bind (Context.report_safe _).breaks fun _ => Breaks.frames.pure _
    · exact Breaks.frames.pure _
  · exact (reportGlobally_safe _).breaks

include hsafe

theorem compileSource_stops (property : Property) (ctx : Context) :
    p.Stops alarm V (compileSource env c property ctx) (compileSource env d property ctx)
      fun _ q => p.Evolves q := by
  refine Stops.evolving (Q := fun _ _ => True) ?_ (compileSource_safe hsafe property ctx)
  unfold compileSource
  split
  · exact (Context.compileDefault_safe _).breaks p
  · exact hc _ _ trivial p

theorem compileAppended_breaks {property : Property} {type : ValueType}
    {flags : Context.ResizeFlags} (happends : Appends property type flags) (name : String)
    (default : Single) : Breaks alarm V (compileAppended env c property type flags name default)
      (compileAppended env d property type flags name default) := by
  simp only [compileAppended, compileProperty, bind_assoc]
  refine fun p => Stops.get_bind ?_
  refine Stops.bind (compileSource_stops hsafe hc property _) fun code q _ hq => ?_
  refine .of_reaches fun hreached a r hr => ⟨(Reaches.refl q).evolves ?_, trivial⟩
  exact recordAppended_evolves happends (hreached.sound ready_init.sound)
    (by rw [hq.fixed.1]; rfl) hr

theorem compileProperty_breaks {property : Property}
    (htype : property.resultType = property.type) :
    Breaks alarm V (compileProperty env c property) (compileProperty env d property) := by
  refine fun p => Stops.get_bind ?_
  refine Stops.bind (compileSource_stops hsafe hc property _) fun code q _ hq => ?_
  refine .of_reaches fun hreached x r hr => ⟨?_, trivial⟩
  exact recordProperty_reaches (hreached.sound ready_init.sound) (by rw [hq.fixed.1]; rfl) htype hr

theorem asksNormal_breaks :
    PhaseLogic.AsksNormal (fun α s (n : Unit → PassM α) => Breaks alarm V s (n ())) env c
      fun _ => d where
  property _ h := Breaks.frames.bind (compileProperty_breaks hsafe hc h.resultType_eq) fun _ =>
    Breaks.frames.pure _
  subsurface := compileAppended_breaks hsafe hc appends_subsurface _ _
  refraction := compileAppended_breaks hsafe hc appends_refraction _ _
  normal := Breaks.frames.bind (compileProperty_breaks hsafe hc rfl) fun _ => Breaks.frames.pure _
  normalEnd p := .of_reaches fun _ _ _ hr => by
    cases hr
    exact ⟨(Reaches.refl p).step (.normalEnd _), trivial⟩

variable (hg : g.Related (fun _ => True) (fun _ m n => Breaks alarm V m n) g')
  (hproblems : virtualTextureProblems env.material g' = virtualTextureProblems env.material g)

include hg hproblems

/-- **A compilation that is made to break off** does the same, or breaks off on the way. -/
theorem runBy_stops {o : Outcome} (h : runBy env g c {} = .ok o p) :
    runBy env g' d {} = .ok o p ∨
      ∃ q, runBy env g' d {} = .error alarm q ∧ Reaches {} q ∧ q.Reaches p ∧ V q := by
  have hopened : Reaches {} opened := by
    obtain ⟨_, s, hinit, hopen⟩ := exists_of_bind openStages_eq
    exact (openStages_ready hinit hopen).reached
  have hinputs : ∀ id, (g'.node? id).bind (·.vertexInput?) =
      (g.node? id).bind (·.vertexInput?) := by
    intro id
    rcases hg id with ⟨h, h'⟩ | ⟨e, e', h, h', he⟩
    · rw [h, h']
    · rw [h, h', Option.bind_some, Option.bind_some, he.eq]
  have hall : Breaks alarm V (compileAll env g c) (compileAll env g' d) :=
    Breaks.frames.bind (enter_safe _).breaks fun _ =>
      Breaks.frames.bind (compileInterpolators_breaks hc hinputs) fun _ =>
        Breaks.phases.compileRest ⟨asksNormal_breaks hsafe hc, Breaks.frames.asksOutputs hg hc
          Context.newScope_safe.breaks fun _ _ _ => trivial, fun _ _ => hproblems⟩
  have hrun := Stops.bind (hall opened) fun _ q _ _ =>
    Stops.of_reaches (m := finish env) (Q := fun _ _ => True) fun hq _ _ hr =>
      ⟨finish_reaches (hq.sound ready_init.sound) hr, trivial⟩
  rw [runBy_eq] at h ⊢
  obtain ⟨-, -, hend⟩ := hrun hopened o p h
  exact hend.imp_right fun ⟨q, hq, hreached, hrest⟩ => ⟨q, hq, hopened.trans hreached, hrest⟩

end

end Pass

/-! ### Runs -/

/-- What is looked for to see that a compilation is on the way to a state. -/
def Watch.toward (p : Pass) : Watch where
  asked _ q := Reaches {} q ∧ q.Reaches p
  answered _ q _ r := Reaches {} q ∧ q.Reaches r ∧ r.Reaches p
  before _ q := Reaches {} q ∧ q.Reaches p
  after _ q _ r := Reaches {} q ∧ q.Reaches r ∧ r.Reaches p

/-- A compilation ends in a state with the slots of its outcome. Wherever it asks for code or
compiles an expression, it is on the way there. -/
structure Pass.EndsIn (env : Environment) (g? : Option Graph) (o : Outcome) (p : Pass) : Prop where
  reached : Reaches {} p
  slots : p.slots = o.slots
  watched : ∀ g, g? = some g → ∀ alarm,
    runWatched env g.expressions (.toward p) alarm {} = .ok o p

section

variable {o : Outcome} {p : Pass}

/-- **The states of a compilation** are reached, and its last state is reached from them. -/
theorem Pass.run_endsIn (g? : Option Graph)
    (h : run env (g?.map Graph.expressions) {} = .ok o p) : EndsIn env g? o p := by
  have ho := run_concluded g? h
  refine ⟨ho.reached, ho.slots.symm, ?_⟩
  rintro g rfl alarm
  let V (q : Pass) : Prop := ¬q.Reaches p
  have hbefore (q : Pass) (hq : Reaches {} q) (h : ¬(Reaches {} q ∧ q.Reaches p)) : V q :=
    fun hp => h ⟨hq, hp⟩
  have hafter (q r : Pass) (hq : Reaches {} q) (hr : q.Reaches r)
      (h : ¬(Reaches {} q ∧ q.Reaches r ∧ r.Reaches p)) : V r := fun hp => h ⟨hq, hr, hp⟩
  have hask {c d : Compiler} (hc : c.Breaks alarm V d) :
      c.Breaks alarm V ((Watch.toward p).ask alarm d) := fun ctx input _ q =>
    (hc ctx input trivial q).guarded (hbefore q) fun _ r => hafter q r
  have hwatched : Expression.Breaks alarm V (Expression.watched (.toward p) alarm) :=
    ⟨fun _ => rfl, fun he hc q => (he (hask hc) q).guarded (hbefore q) fun _ r => hafter q r⟩
  have hg := g.related_map hwatched
  rcases runBy_stops (ExpressionGraph.compile_safe g.expressions_safe)
      (hask (Breaks.frames.compileAt hg _)) hg
      (g.expressions.virtualTextureProblems_map _ (fun _ => rfl) fun _ => rfl) h with
    hsame | ⟨q, -, -, hq, hnot⟩
  · exact hsame
  · exact absurd hq hnot

/-- An expression with which the compilation breaks off where the pixel stage compiles a node. -/
def Expression.barred (id : NodeId) (alarm : Fault) (e : Expression) : Expression :=
  { e with
    compile := fun compile ctx output =>
      if ctx.node = id ∧ ctx.stage = .pixel then throw alarm else e.compile compile ctx output }

/-- A graph with which the compilation breaks off where the pixel stage compiles a node. -/
def Graph.barred (g : Graph) (id : NodeId) (alarm : Fault) : ExpressionGraph :=
  g.expressions.map (Expression.barred id alarm)

/-- A state in which the pixel stage begins to compile a node is on the way. -/
theorem Graph.barred_waypoint {g : Graph} (h : run env (some g.expressions) {} = .ok o p)
    {id : NodeId} {e : Fault} {q : Pass} (hq : run env (some (g.barred id alarm)) {} = .error e q) :
    Reaches {} q ∧ q.Reaches p := by
  have hbarred : Expression.Breaks alarm (fun _ => True) (Expression.barred id alarm) := by
    refine ⟨fun _ => rfl, fun {e c d ctx output} he hc q => ?_⟩
    unfold Expression.barred
    dsimp only
    split
    · exact (he hc q).throw trivial
    · exact he hc q
  have hg := g.related_map hbarred
  rcases runBy_stops (ExpressionGraph.compile_safe g.expressions_safe)
      (Breaks.frames.compileAt hg _) hg
      (g.expressions.virtualTextureProblems_map _ (fun _ => rfl) fun _ => rfl) h with
    hsame | ⟨r, hr, hreached, hrest, -⟩
  · cases hsame.symm.trans hq
  · cases hr.symm.trans hq
    exact ⟨hreached, hrest⟩

end

end ShaderGraph
