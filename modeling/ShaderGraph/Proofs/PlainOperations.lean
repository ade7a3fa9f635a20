import ShaderGraph.Outcome
import ShaderGraph.Proofs.SampleLogic

/-!
# Operations are plain

Every operation on codes, and all that is done with the code of a property or of a custom output
once it is there, is made from plain steps. That is a logic of operations which speaks of nothing
else (`Context.stepping`).
-/

namespace ShaderGraph

open Pass

namespace Context

open Concerns

variable {L : Licence} {ctx : Context}

theorem registers_plain {u : Pass → Pass} (h : ctx.Registers u) : Plain (modify u) := by
  cases h with
  | usage | shadingModel => exact .update (fun _ => rfl) (fun _ => rfl) fun _ => rfl
  | coordinate | sample =>
    refine .update (fun _ => ?_) (fun _ => ?_) fun _ => ?_
    · split <;> rfl
    · split <;> rfl
    · split <;> rfl

/-- The logic of what operations are made from. -/
def stepping (L : Licence) (ctx : Context) : ctx.Logic where
  Ends _ m Q := Steps L m ∧ ∀ a, Returns m a → ∃ q, Q a q
  Later _ _ := True
  trans _ _ := trivial
  scope _ h := h.elim False.elim False.elim
  lasts _ := False.elim
  pure h := ⟨.pure _, fun _ ha => ⟨_, ha.eq_of_pure ▸ h⟩⟩
  bind hm hf := by
    refine ⟨hm.1.seq fun a ha => ?_, fun b hb => ?_⟩
    · obtain ⟨q, hq⟩ := hm.2 a ha
      exact (hf a q trivial hq).1
    · obtain ⟨a, ha, hb⟩ := hb.of_bind
      obtain ⟨q, hq⟩ := hm.2 a ha
      exact (hf a q trivial hq).2 b hb
  throw h _ := ⟨.throw h, fun _ ⟨_, _, ha⟩ => by cases ha⟩
  report {p} _ h := ⟨.report ctx h, fun _ _ => ⟨p, (.unasked _), False.elim⟩⟩
  registers {p} _ h := ⟨(registers_plain h).licensed, fun _ _ => ⟨p, trivial⟩⟩
  chunk {p} i _ := ⟨(chunk_plain i).licensed, fun _ _ =>
    ⟨p, rfl, fun h => h.elim False.elim False.elim, False.elim, False.elim, fun _ => False.elim⟩⟩
  readSlot {p} i _ := ⟨(readSlot_plain i).licensed, fun _ _ => ⟨p, (.unasked _), False.elim⟩⟩
  emitInline {p} _ _ _ htype _ _ _ :=
    ⟨(emitInline_plain _ _ (absurd · htype)).licensed, fun _ _ => ⟨p, (.unasked _)⟩⟩
  emitWith {p} _ _ _ _ _ _ :=
    ⟨(emitWith_plain _ _ _).licensed, fun _ _ => ⟨p, (.unasked _), False.elim⟩⟩
  emitUniform {p} _ _ _ _ _ hu _ _ :=
    ⟨(emitUniform_plain _ _ _ _ _ (by simp [hu.isTexture_eq])).licensed,
      fun _ _ => ⟨p, (.unasked _)⟩⟩
  emitTexture {p} _ _ _ _ _ _ :=
    ⟨(emitUniform_plain _ _ _ _ _ fun _ => rfl).licensed, fun _ _ => ⟨p, (.unasked _)⟩⟩

/-! ### Reading and casts -/

theorem typeOf_plain (c : Code) : Plain (ctx.typeOf c) :=
  ((stepping {} ctx).typeOf (p := {}) (c := c) (Holds.unasked false).toPoints).1

theorem uniformOf_plain (c : Code) : Plain (ctx.uniformOf c) :=
  ((stepping {} ctx).uniformOf (p := {}) (c := c) (Holds.unasked false).toPoints).1

theorem constantOf_plain (c : Code) : Plain (ctx.constantOf c) :=
  ((stepping {} ctx).constantOf (p := {}) (c := c) (Holds.unasked false).toPoints).1

theorem textOf_plain (c : Code) : Plain (ctx.textOf c) :=
  ((stepping {} ctx).textOf (p := {}) (c := c) (Holds.unasked false).toPoints).1

theorem convert_plain (c : Code) (target : ValueType) : Plain (ctx.convert c target) :=
  ((stepping {} ctx).convert (p := {}) (c := c) (.unasked false) target).1

theorem resize_plain (c : Code) (target : ValueType) (flags : ResizeFlags) :
    Plain (ctx.resize c target flags) :=
  ((stepping {} ctx).resize (p := {}) (c := c) (.unasked _) target flags).1

theorem widened_plain (c : Code) (target : ValueType) : Plain (ctx.widened c target) :=
  ((stepping {} ctx).widened (p := {}) (c := c) (Holds.unasked false).toPoints target).1

theorem emitTemporary_plain (type : ValueType) (text : String) :
    Plain (ctx.emitTemporary type text) := emitWith_plain _ _ _

/-- The body of a function of its own. -/
theorem functionBody_plain (c : Code) : Plain (ctx.functionBody c) := by
  refine (isDeferred_plain c).bind fun deferred => ?_
  split
  · exact (textOf_plain c).bind fun _ => .pure _
  · refine chunks_plain.bind fun scope => ?_
    split
    · exact .pure _
    case h_2 fault hbody =>
      -- A body is refused for its result only.
      refine .throw ?_
      cases c with
      | none => cases hbody
      | some i =>
        unfold Scope.body at hbody
        grind [Fault.concernsFrames]

/-! ### Operations -/

theorem staticBool_plain (value : Bool) : Plain (ctx.staticBool value) :=
  ((stepping {} ctx).staticBool (p := {}) value).1

theorem staticBoolValue_plain (c : Code) : Plain (ctx.staticBoolValue c) :=
  ((stepping {} ctx).staticBoolValue (p := {}) (c := c) (.unasked _)).1

theorem append_plain (a b : Code) : Plain (ctx.append a b) :=
  ((stepping {} ctx).append (p := {}) (a := a) (b := b) (.unasked _) (.unasked _)).1

theorem maskOutput_plain (e : Expression) (output : Int) (c : Code) :
    Plain (ctx.maskOutput e output c) :=
  ((stepping {} ctx).maskOutput (p := {}) (c := c) (.unasked _) e output).1

theorem compileDefault_plain (property : Property) : Plain (ctx.compileDefault property) :=
  ((stepping {} ctx).compileDefault (p := {}) property).1

theorem castProperty_plain (c : Code) (target : ValueType) : Plain (ctx.castProperty c target) :=
  ((stepping {} ctx).castProperty (p := {}) (c := c) (.unasked false) target).1

/-! ### Page tables -/

/-- Whatever a text is put together from. -/
theorem reading_unasked (literal : Bool) (cs : List Code) (type : ValueType) (ts : List String)
    (p : Pass) : ({} : ctx.Concerns).Reading literal cs type ts p :=
  ⟨fun _ _ => (Holds.unasked _).toPoints, fun _ => False.elim, fun _ _ => False.elim⟩

theorem stackKey_plain (l : Lookup) : Plain (ctx.stackKey l) :=
  ((stepping {} ctx).stackKey (l := l) (reading_unasked _ _ .float _ {})).1

theorem emitLookup_plain (i : Nat) (l : Lookup) : Plain (ctx.emitLookup i l) :=
  ((stepping {} ctx).emitLookup i (l := l) (reading_unasked _ _ _ _ {})).1

section Stacks

variable (hL : L.samples = true)

include hL

theorem addStack_steps (key : StackKey) (l : Lookup) (i : Nat) : Steps L (ctx.addStack key l i) :=
  have hkept {P : Prop} (h : L.samples = false) : P := by cases hL.symm.trans h
  Steps.bind (.change (fun _ => rfl) (fun _ => rfl) fun p => { Abides.refl p with kept := hkept })
    fun _ => Steps.bind (.note _ _ _) fun _ => (emitLookup_plain i l).licensed.bind fun _ =>
      Steps.bind (.change (fun _ => rfl) (fun _ => rfl) fun p =>
        { Abides.refl p with kept := hkept }) fun _ => .pure _

theorem acquireStack_steps (l : Lookup) : Steps L (ctx.acquireStack l) := by
  refine (stackKey_plain l).licensed.bind fun key => .read (fun _ => rfl) fun p => ?_
  split
  · exact .pure _
  · exact addStack_steps hL _ _ _

theorem changeStack_steps {α : Type} (stack : Nat)
    {change : LayerStack → Except Fault (α × LayerStack)}
    (h : ∀ s fault, change s = .error fault → fault.concernsFrames = false) :
    Steps L (changeStack stack change) := by
  refine .read (fun _ => rfl) fun p => ?_
  split
  case h_1 fault hfault =>
    refine .throw ?_
    cases hs : p.slots.layerStacks[stack]? with
    | none =>
      rw [hs] at hfault
      exact Except.error.inj hfault ▸ rfl
    | some s =>
      rw [hs] at hfault
      exact h s fault hfault
  case h_2 =>
    exact Steps.bind (.change (fun _ => rfl) (fun _ => rfl) fun p =>
      { Abides.refl p with kept := fun h => by cases hL.symm.trans h }) fun _ => .pure _

theorem takeLayer_steps (stack : Nat) : Steps L (takeLayer stack) := by
  refine changeStack_steps hL stack fun s fault h => ?_
  unfold LayerStack.addLayer at h
  grind [Fault.concernsFrames]

theorem bindLayer_steps (stack : Nat) (layer texture : Int) :
    Steps L (bindLayer stack layer texture) := by
  refine changeStack_steps hL stack fun s fault h => ?_
  unfold LayerStack.setLayer at h
  grind [Fault.concernsFrames, Except.map]

/-! ### Samples -/

theorem acquireLayer_steps (ref : TextureRef) (slot : Int) (s : Sample) (m : MipChoice) :
    Steps L (ctx.acquireLayer ref slot s m) := by
  unfold acquireLayer
  dsimp only
  split
  · refine (acquireStack_steps hL _).bind fun stack => ?_
    split
    · exact Steps.bind (.report _ rfl) fun _ => .pure _
    · exact (bindLayer_steps hL _ _ _).bind fun _ => .pure _
  · exact (acquireStack_steps hL _).bind fun stack => (takeLayer_steps hL stack).bind fun layer =>
      (bindLayer_steps hL _ _ _).bind fun _ => .pure _

/-- A sample of a virtual texture is counted. -/
theorem countVirtual_steps :
    Steps L (modify fun p =>
      { p with stats := { p.stats with virtualSamples := p.stats.virtualSamples + 1 } }) :=
  .change (fun _ => rfl) (fun _ => rfl) fun p =>
    { Abides.refl p with virtualSamples := fun h => absurd (hL.symm.trans h) (by decide) }

theorem sampleVirtual_steps (s : Sample) (m : MipChoice) : Steps L (ctx.sampleVirtual s m) := by
  have hmips : Plain (ctx.mipTexts m .float2) :=
    ((stepping {} ctx).mipTexts (reading_unasked _ [m.mip, m.mipY] .float [] {})
      (by simp) (by simp) _).1
  refine hmips.licensed.bind fun _ => (widened_plain s.texture _).licensed.bind
    fun _ => (uniformOf_plain s.texture).licensed.bind fun u? => ?_
  split
  case h_1 problem hproblem =>
    refine .report _ ?_
    unfold textureReference at hproblem
    grind [Problem.isOrdinary]
  refine .read (fun _ => rfl) fun p => (countVirtual_steps hL).bind fun _ => ?_
  refine (widened_plain s.coordinate _).licensed.bind fun _ => ?_
  refine (acquireLayer_steps hL _ _ s m).bind fun found => ?_
  split
  · exact .pure _
  · refine .read (fun _ => rfl) fun q => .licensed ((textOf_plain _).bind fun _ => ?_)
    exact ((stepping {} ctx).emitSample (p := {}) False.elim
      (SamplerType.decode_ne_empty _ (by simp))).1

end Stacks

theorem sample_steps
    (hL : L.samples = true ∨ ctx.material.domain.isSurfaceOrDecal = false) (s : Sample) :
    Steps L (ctx.sample s) := by
  refine ((stepping L ctx).sample (p := {}) (s := s) (.unasked _) (.unasked _)
    (Holds.unasked false).toPoints (Holds.unasked false).toPoints
    fun q m _ _ _ hdomain _ _ => ⟨?_, fun _ _ => ⟨q, (.unasked _)⟩⟩).1
  exact sampleVirtual_steps (hL.resolve_right (by simp [hdomain])) s m

/-! ### Outputs and properties -/

theorem implementOutput_steps (hL : L.implements = true) (name : String) (index : Int)
    (c : Code) : Steps L (ctx.implementOutput name index c) := by
  unfold implementOutput
  split
  · exact .report _ rfl
  split
  · exact .pure _
  refine (typeOf_plain c).licensed.bind fun type => ?_
  split
  · exact .report _ rfl
  · exact (functionBody_plain c).licensed.bind fun _ =>
      (addImplementation_steps hL _).bind fun _ => .pure _

theorem interpolatorOffset_steps (hL : L.lists = true) (index : Nat)
    (i : Interpolator) : Steps L (interpolatorOffset index i) := by
  unfold interpolatorOffset
  split
  · exact .pure _
  · refine .get_change (.change (fun _ => rfl) (fun _ => rfl) fun p => ?_) (fun _ => rfl)
      fun _ => .pure _
    exact { Abides.refl p with listed := fun h => absurd (hL.symm.trans h) (by decide) }

/-- An interpolator is listed. -/
theorem listInterpolator_steps (hL : L.lists = true) (i : Interpolator) :
    Steps L (modify fun p => { p with interpolators := p.interpolators ++ [i] }) :=
  .change (fun _ => rfl) (fun _ => rfl) fun p =>
    { Abides.refl p with listed := fun h => absurd (hL.symm.trans h) (by decide) }

theorem setResult_plain (property : Property) (c : Code) : Plain (ctx.setResult property c) := by
  have hset : ∀ read : Code, Plain (modify fun p : Pass =>
      { p with results := p.results.set property read }) := fun read =>
    .update (fun _ => rfl) (fun _ => rfl) fun _ => rfl
  have hread : Plain (ctx.readResult c) := by
    cases c with
    | none => exact .pure _
    | some i =>
      refine (isDeferred_plain _).bind fun deferred => ?_
      split
      · exact readSlot_plain i
      · exact .pure _
  exact hread.bind hset

end Context

namespace Pass

variable {env : Environment}

/-! ### The end of a compilation -/

theorem isUsed_plain (property : Property) (neutral : Value) (count : Nat) :
    Plain (isUsed env property neutral count) := by
  refine .read (fun _ => rfl) fun p => ?_
  dsimp only
  split
  · exact .pure _
  refine (Context.constantOf_plain _).bind fun v? => ?_
  split
  · exact .pure _
  · exact .pure _

theorem recordUsage_plain : Plain (recordUsage env) :=
  (isUsed_plain _ _ _).bind fun _ => (isUsed_plain _ _ _).bind fun _ =>
    (isUsed_plain _ _ _).bind fun _ => (isUsed_plain _ _ _).bind fun _ =>
      .update (fun _ => rfl) (fun _ => rfl) fun _ => rfl

theorem isOrdinary_of_mem_problems {m : Material} {models : ShadingModels} {problem : Problem}
    (h : problem ∈ m.problems models) : problem.isOrdinary := by
  have hcheck : ∀ {wrong : Bool} {q : Problem}, problem ∈ (if wrong then [q] else []) →
      problem = q := by
    intro wrong q hq
    cases wrong <;> simp_all
  simp only [Material.problems, List.mem_append, or_assoc] at h
  rcases h with h | h | h | h | h | h | h | h | h | h <;>
    exact hcheck h ▸ rfl

theorem validate_steps {L : Licence} (hL : L.reports = true) : Steps L (validate env) := by
  refine .read (fun _ => rfl) fun p => ?_
  refine Steps.bind (.forM fun problem h => ?_) fun _ => .read (fun _ => rfl) fun q => ?_
  · exact .reportGlobally hL (isOrdinary_of_mem_problems h)
  · cases h : q.interpolatorProblem? env.options.featureLevel with
    | none => exact .pure _
    | some problem =>
      refine .reportGlobally hL ?_
      unfold interpolatorProblem? at h
      grind [Problem.isOrdinary]

end Pass

end ShaderGraph
