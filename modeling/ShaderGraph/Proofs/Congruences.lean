import ShaderGraph.Proofs.LicensedSteps
import ShaderGraph.Proofs.SideBySide

/-!
# Relations that compilations inherit from their steps

Some relations between two computations are kept when computations are put together, hold of each
step within a licence and itself, and do not look at frames (`Pass.Congruence`). Such a relation
holds of the compilations of two graphs if it holds of the compilations of their nodes
(`Pass.FrameLogic.compileAt`), and so of all that comes after the interpolators
(`Pass.Congruence.compileRest`). One of them relates no two computations at all, and says of the
first that it abides by its licence (`Pass.Minds.congruence`).

Relations that look at frames are not of this kind. For two compilations that go through the same
states, an invariant of these states will do (`Pass.absorbs_same`).
-/

namespace ShaderGraph

variable {L : Licence}

open Pass

/-- A relation between computations that is kept when they are put together from steps within a
licence and from changes of frames. -/
structure Pass.Congruence (L : Licence) (P : (α : Type) → PassM α → PassM α → Prop) :
    Prop extends Composes P where
  steps : ∀ {α : Type} {m : PassM α}, Steps L m → P α m m
  interpolator : ∀ {ctx : Context}, L.Covers ctx → P _ ctx.readInterpolator ctx.readInterpolator
  modify : ∀ {u : Pass → Pass}, (∀ p, (u p).gauge = p.gauge) → P PUnit (modify u) (modify u)

namespace Pass.Congruence

variable {L : Licence} {P : (α : Type) → PassM α → PassM α → Prop} {ctx : Context}
variable {c d : Compiler} {α : Type}

section Steps

variable (hP : Congruence L P)

include hP

theorem pure (a : α) : P α (pure a) (pure a) := hP.steps (.pure a)

theorem plain {m : PassM α} (hm : Plain m) : P α m m := hP.steps hm.licensed

/-- Frames are changed without a licence. -/
theorem frames : FrameLogic L.Covers P where
  toComposes := hP.toComposes
  covers hctx := ⟨hctx.samples, hctx.implements, hctx.reports⟩
  pure := hP.pure
  modify _ _ := hP.modify fun _ => rfl
  convert _ _ _ := hP.plain (Context.convert_plain _ _)
  maskOutput _ _ _ _ := hP.plain (Context.maskOutput_plain _ _ _)

end Steps

/-! ### Nodes -/

section Nodes

variable (hP : Congruence L P) (hc : Compiler.Related L.Covers P c d) (hctx : L.Covers ctx)

include hP hc hctx

theorem built {inputs : List Input} {f : Compiler → PassM α}
    (hf : Context.Built L ctx inputs f) : P α (f c) (f d) := by
  induction hf with
  | plain h => exact hP.plain h
  | licensed h => exact hP.steps h
  | interpolator => exact hP.interpolator hctx
  | input => exact hc _ _ hctx
  | bind _ _ ihf ihk => exact hP.bind ihf ihk

/-- **A node** is compiled in related ways if its inputs are. -/
theorem compileNode (g : Graph) (node : Node) (output : Int) :
    P _ (node.compile g c ctx output) (node.compile g d ctx output) := by
  by_cases hstays : node.staysInFrame
  · exact hP.built hc hctx (node.compile_licensed hctx g hstays output)
  · exact hP.frames.compileNode hc hctx g hstays output

end Nodes

/-! ### Phases -/

section Phases

variable {env : Environment} {g g' : ExpressionGraph} (hP : Congruence L P)
variable (hc : Compiler.Related L.Covers P c d) (hsamples : L.samples = true)
variable (hreports : L.reports = true)

include hP hc hsamples hreports

theorem compileProperty (property : Property) :
    P _ (Pass.compileProperty env c property) (Pass.compileProperty env d property) := by
  refine hP.get_bind fun p => hP.bind ?_ fun code =>
    hP.bind (hP.plain (Context.castProperty_plain _ _)) fun code =>
      hP.bind (hP.plain (Context.setResult_plain _ _)) fun _ =>
        hP.bind (hP.steps (.note _ _ _)) fun _ => hP.pure _
  unfold compileSource
  split
  · exact hP.plain (Context.compileDefault_plain _)
  · exact hc _ _ ⟨.inl hsamples, .inr rfl, .inl hreports⟩

omit hc hsamples in
/-- What phases do besides compiling nodes is related. -/
theorem phases : PhaseLogic fun α s (n : Unit → PassM α) => P α s (n ()) where
  pure := hP.pure
  bind hs hf := hP.bind hs hf
  read _ h := hP.get_bind h
  noSuchStage := hP.throw _
  enter phase := hP.plain (enter_plain phase)
  noted _ := hP.steps (.note _ _ _)
  report h := hP.steps (.reportGlobally hreports h)
  named _ := hP.modify fun _ => rfl
  defined _ := hP.modify fun _ => rfl

theorem compileAppended (property : Property) (type : ValueType) (flags : Context.ResizeFlags)
    (name : String) (default : Single) :
    P _ (Pass.compileAppended env c property type flags name default)
      (Pass.compileAppended env d property type flags name default) :=
  hP.bind (hP.compileProperty hc hsamples hreports property) fun _ => hP.plain <|
    (appendParameter_plain type flags name default).bind fun c => Context.setResult_plain _ c

variable (env) in
/-- What is compiled for properties is related. -/
theorem asksNormal :
    PhaseLogic.AsksNormal (fun α s (n : Unit → PassM α) => P α s (n ())) env c fun _ => d where
  property property _ :=
    hP.bind (hP.compileProperty hc hsamples hreports property) fun _ => hP.pure _
  normal := hP.bind (hP.compileProperty hc hsamples hreports .normal) fun _ => hP.pure _
  normalEnd := hP.modify fun _ => rfl
  subsurface := hP.compileAppended hc hsamples hreports ..
  refraction := hP.compileAppended hc hsamples hreports ..

/-- **All that comes after the interpolators** is related. -/
theorem compileRest (hg : ExpressionGraph.Related L.Covers P g g')
    (himplements : L.implements = true)
    (hproblems : virtualTextureProblems env.material g' = virtualTextureProblems env.material g) :
    P _ (Pass.compileRest env g c) (Pass.compileRest env g' d) :=
  (hP.phases hreports).compileRest ⟨hP.asksNormal env hc hsamples hreports,
    hP.frames.asksOutputs hg hc (hP.plain newScope_plain) fun _ _ _ =>
      ⟨.inl hsamples, .inl himplements, .inl hreports⟩, fun _ _ => hproblems⟩

omit hc

/-- The end of a compilation. -/
theorem finish : P _ (Pass.finish env) (Pass.finish env) := by
  have hfault : ∀ {β : Type} (x : Except Fault β), P _ (orFault x) (orFault x) := by
    intro β x
    cases x with
    | ok a => exact hP.pure a
    | error fault => exact hP.throw fault
  have henter : ∀ phase, P _ (enter phase) (enter phase) := fun _ => hP.plain (enter_plain _)
  refine hP.bind ?_ fun texts => hP.get_bind fun _ => hP.pure _
  refine hP.bind (henter _) fun _ => hP.bind (hP.modify fun _ => rfl) fun _ => ?_
  refine hP.bind (hP.plain recordUsage_plain) fun _ =>
    hP.bind (hP.steps (validate_steps hreports)) fun _ => ?_
  refine hP.get_bind fun p => hP.bind (hfault _) fun slots => ?_
  refine hP.bind (hP.steps (.change (fun _ => rfl) (fun _ => rfl) fun p =>
    { Abides.refl p with kept := fun h => by cases hsamples.symm.trans h })) fun _ => ?_
  refine hP.get_bind fun q => hP.bind (hfault _) fun bodies => ?_
  exact hP.bind (henter _) fun _ => hP.bind (hP.steps (.note _ _ _)) fun _ => hP.pure _

end Phases

end Pass.Congruence

/-! ### Abiding by a licence -/

/-- That a computation abides by a licence is a relation which leaves the second one out. -/
theorem Pass.Minds.congruence : Congruence L fun _ m _ => Minds L m where
  throw := .throw
  bind hm hf := hm.bind hf
  get_bind h := .get_bind h
  steps hm := .of_steps hm
  report ctx problem := fun _ => (report_remains ctx problem).mono fun _ _ h => h.1.toAbides
  interpolator hctx := fun _ => (Context.readInterpolator_remains
    (hctx.reports.imp_right .inr)).mono fun _ _ h => h.toAbides
  modify h := .modify h

/-- Wherever a licence covers what is compiled, a compiler abides by it. -/
def Compiler.Minds (L : Licence) (c : Compiler) : Prop :=
  Compiler.Related L.Covers (fun _ m _ => Pass.Minds L m) c c

/-- **A compilation** abides by every licence that covers it. -/
theorem Graph.compileAt_minds {g : Graph} (n : Nat) :
    Compiler.Minds L (g.expressions.compileAt n) := by
  refine Minds.congruence.frames.compileAt (fun id => ?_) n
  cases he : g.expressions.node? id with
  | none => exact .inl ⟨rfl, rfl⟩
  | some e =>
    obtain ⟨node, -, rfl⟩ := exists_node he
    exact .inr ⟨_, _, rfl, rfl, rfl, fun output hc _ hctx =>
      Minds.congruence.compileNode hc hctx g node output⟩

/-! ### States that are the same -/

namespace Pass

variable {I J : Pass → Prop} {p : Pass} {α : Type} {m n : PassM α}

/-- The states of two compilations are the same, and as `I` says. -/
def Same (I : Pass → Prop) (p q : Pass) : Prop := p = q ∧ I p

theorem agree_same (hsame : n p = m p) (h : p.Gives m fun _ q => J q) :
    Agree (fun _ => Eq) (Same J) (m p) (n p) := by
  rw [hsame]
  cases hp : m p with
  | ok a q => exact ⟨rfl, rfl, h a q hp⟩
  | error e q => exact ⟨rfl, rfl⟩

theorem couples_same (h : ∀ p, I p → p.Gives m fun _ q => J q) :
    Couples (fun _ => Eq) (Same I) (Same J) m m := by
  rintro p _ ⟨rfl, hp⟩
  exact agree_same rfl (h p hp)

theorem Agree.eq {x y : EStateM.Result Fault Pass α} (h : Agree (fun _ => Eq) (Same J) x y) :
    y = x := by
  cases x <;> cases y
  case ok.ok => obtain ⟨rfl, rfl, -⟩ := h; rfl
  case error.error => obtain ⟨rfl, rfl⟩ := h; rfl
  all_goals exact h.elim

/-- What steps keep that leave the frames, plain steps keep on both sides. -/
theorem absorbs_same (hI : ∀ {p q : Pass}, I p → Remains .full p q → I q) :
    Absorbs (fun _ => Eq) (Same I) := by
  have hsteps : ∀ {α : Type} {m : PassM α}, Steps .full m →
      Keeps (fun _ => Eq) (Same I) m m := fun hm =>
    couples_same fun _ hp => hm.remains.mono fun _ _ hq => hI hp hq
  refine ⟨fun h _ => h.1, fun h => congrArg core h.1, ?_, fun _ _ _ => hsteps (.note _ _ _),
    fun ctx _ h => hsteps (.report ctx h), fun h => hsteps (.reportGlobally rfl h)⟩
  rintro p _ u ⟨rfl, hp⟩ hapart _ habides
  exact ⟨rfl, hI hp ⟨habides p, congrArg Apart.frames (hapart p),
    congrArg Apart.openFrames (hapart p)⟩⟩

end Pass

end ShaderGraph
