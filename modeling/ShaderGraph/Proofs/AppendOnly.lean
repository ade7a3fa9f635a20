import ShaderGraph.Proofs.Outcomes

/-!
# The stores of a pass

A pass keeps its chunks, uniform expressions, slots and the entries of stacks in lists, and refers
to them by their places. No operation that a node can be compiled with takes anything out of these
lists or changes what they hold: each only adds to their ends, and never gives a temporary the
number of an earlier one (`Pass.operation_retains`). So a place keeps its meaning to the end.

`Pass.Operation` lists the operations. That each of them makes a pass evolve by effects is known, so
what remains is to say what one effect does to the stores (`Pass.Effect.retains`).
-/

namespace ShaderGraph

namespace Pass

/-! ### Operations -/

/-- The operations that a node of a graph can be compiled with, in any context. -/
inductive Operation (g : Graph) : {α : Type} → PassM α → Prop where
  -- What is asked of code.
  | typeOf (ctx : Context) (c : Code) : Operation g (ctx.typeOf c)
  | constantOf (ctx : Context) (c : Code) : Operation g (ctx.constantOf c)
  | uniformOf (ctx : Context) (c : Code) : Operation g (ctx.uniformOf c)
  | textOf (ctx : Context) (c : Code) : Operation g (ctx.textOf c)
  | digestOf (ctx : Context) (c : Code) : Operation g (ctx.digestOf c)
  | staticBoolValue (ctx : Context) (c : Code) : Operation g (ctx.staticBoolValue c)
  -- Casts.
  | convert (ctx : Context) (c : Code) (target : ValueType) : Operation g (ctx.convert c target)
  | resize (ctx : Context) (c : Code) (target : ValueType) (flags : Context.ResizeFlags) :
    Operation g (ctx.resize c target flags)
  | widened (ctx : Context) (c : Code) (target : ValueType) : Operation g (ctx.widened c target)
  | castProperty (ctx : Context) (c : Code) (target : ValueType) :
    Operation g (ctx.castProperty c target)
  -- Literals and parameters.
  | constant (ctx : Context) (v : Value) (type : ValueType) : Operation g (ctx.constant v type)
  | scalarParameter (ctx : Context) (name : String) (default : Single) :
    Operation g (ctx.scalarParameter name default)
  | vectorParameter (ctx : Context) (name : String) (default : Value) :
    Operation g (ctx.vectorParameter name default)
  | staticBool (ctx : Context) (value : Bool) : Operation g (ctx.staticBool value)
  | staticBoolParameter (ctx : Context) (name : String) (default : Bool) :
    Operation g (ctx.staticBoolParameter name default)
  -- Arithmetic and masks.
  | applyUnary (ctx : Context) (kind : UnaryKind) (x : Code) : Operation g (ctx.applyUnary kind x)
  | applyBinary (ctx : Context) (kind : BinaryKind) (a b : Code) :
    Operation g (ctx.applyBinary kind a b)
  | clamp (ctx : Context) (x lo hi : Code) : Operation g (ctx.clamp x lo hi)
  | lerp (ctx : Context) (x y alpha : Code) : Operation g (ctx.lerp x y alpha)
  | choose (ctx : Context) (a b greater equal less threshold : Code) :
    Operation g (ctx.choose a b greater equal less threshold)
  | componentMask (ctx : Context) (vector : Code) (mask : Mask) :
    Operation g (ctx.componentMask vector mask)
  | staticComponentMask (ctx : Context) (vector : Code) (name : String) (default : Mask) :
    Operation g (ctx.staticComponentMask vector name default)
  -- What the renderer supplies.
  | vertexColor (ctx : Context) : Operation g ctx.vertexColor
  | worldPosition (ctx : Context) (kind : WorldPosition) : Operation g (ctx.worldPosition kind)
  | time (ctx : Context) (clock : Context.Clock) (period? : Option Single) :
    Operation g (ctx.time clock period?)
  | pixelDepth (ctx : Context) : Operation g ctx.pixelDepth
  | shadingModel (ctx : Context) (m : ShadingModel) : Operation g (ctx.shadingModel m)
  | textureCoordinate (ctx : Context) (index : Int) (mirror : Mirror) :
    Operation g (ctx.textureCoordinate index mirror)
  -- Textures and samples.
  | texture (ctx : Context) (index : Int) (sampler : SamplerType) (mode : MipMode) :
    Operation g (ctx.texture index sampler mode)
  | textureParameter (ctx : Context) (name : String) (index : Int) (sampler : SamplerType) :
    Operation g (ctx.textureParameter name index sampler)
  | virtualTexture (ctx : Context) (index layer pageTableLayer : Int) (sampler : SamplerType) :
    Operation g (ctx.virtualTexture index layer pageTableLayer sampler)
  | sample (ctx : Context) (s : Sample) : Operation g (ctx.sample s)
  -- Interpolators, custom outputs, functions, and the compilation of inputs.
  | readInterpolator (ctx : Context) : Operation g ctx.readInterpolator
  | implementOutput (ctx : Context) (name : String) (index : Int) (c : Code) :
    Operation g (ctx.implementOutput name index c)
  | callFunction (ctx : Context) (call : Call) (body : Input) :
    Operation g (ctx.callFunction g.expressions.compile call body)
  | functionArgument (ctx : Context) (index : Int) (preview : Input) (type : ValueType) :
    Operation g (ctx.functionArgument g.expressions.compile index preview type)
  | report (ctx : Context) (problem : Problem) : Operation g (ctx.report problem)
  | compile (ctx : Context) (input : Input) : Operation g (g.expressions.compile ctx input)

open Context in
theorem Operation.safe {g : Graph} {α : Type} {m : PassM α} (h : Operation g m) : Safe m := by
  have hcompile := ExpressionGraph.compile_safe g.expressions_safe
  cases h with
  | typeOf ctx c => exact typeOf_safe c
  | constantOf ctx c => exact constantOf_safe c
  | uniformOf ctx c => exact .of_yields fun _ => uniformOf_yields c
  | textOf ctx c => exact .of_yields fun _ => textOf_yields_false c
  | digestOf ctx c => exact safe_of_sounding fun _ => ctx.sounding.digestOf sounds.toPoints
  | staticBoolValue ctx c => exact safe_of_sounding fun _ => ctx.sounding.staticBoolValue sounds
  | convert ctx c target => exact convert_safe c target
  | resize ctx c target flags => exact resize_safe c target flags
  | widened ctx c target => exact widened_safe c target
  | castProperty ctx c target => exact castProperty_safe c target
  | constant ctx v type =>
    exact safe_of_sounding fun _ => ctx.sounding.constant v False.elim fun _ => False.elim
  | scalarParameter ctx name default => exact scalarParameter_safe name default
  | vectorParameter ctx name default =>
    exact safe_of_sounding fun _ => ctx.sounding.vectorParameter name default
  | staticBool ctx value => exact safe_of_sounding fun _ => ctx.sounding.staticBool value
  | staticBoolParameter ctx name default =>
    exact safe_of_sounding fun _ => ctx.sounding.staticBool _
  | applyUnary ctx kind x =>
    exact safe_of_sounding fun _ => ctx.sounding.applyUnary kind (fun _ => trivial) sounds
  | applyBinary ctx kind a b =>
    exact safe_of_sounding fun _ => ctx.sounding.applyBinary kind (fun _ => trivial) sounds sounds
  | clamp ctx x lo hi =>
    exact safe_of_sounding fun _ => ctx.sounding.clamp trivial sounds sounds sounds
  | lerp ctx x y alpha => exact safe_of_sounding fun _ => ctx.sounding.lerp sounds sounds sounds
  | choose ctx a b greater equal less threshold =>
    exact safe_of_sounding fun _ => ctx.sounding.choose sounds sounds sounds
      (fun _ => sounds) sounds fun _ => sounds
  | componentMask ctx vector mask =>
    exact safe_of_sounding fun _ => ctx.sounding.componentMask sounds mask
  | staticComponentMask ctx vector name default =>
    exact safe_of_sounding fun _ => ctx.sounding.componentMask sounds _
  | vertexColor ctx => exact safe_of_sounding fun _ => ctx.sounding.vertexColor
  | worldPosition ctx kind => exact safe_of_sounding fun _ => ctx.sounding.worldPosition kind
  | time ctx clock period? => exact safe_of_sounding fun _ => ctx.sounding.time clock period?
  | pixelDepth ctx => exact safe_of_sounding fun _ => ctx.sounding.pixelDepth
  | shadingModel ctx m => exact safe_of_sounding fun _ => ctx.sounding.shadingModel m
  | textureCoordinate ctx index mirror =>
    exact safe_of_sounding fun _ => ctx.sounding.textureCoordinate index mirror
  | texture ctx index sampler mode =>
    exact safe_of_sounding fun _ => ctx.sounding.texture index (.inl trivial) mode
  | textureParameter ctx name index sampler =>
    exact safe_of_sounding fun _ => ctx.sounding.textureParameter name sampler (.inl trivial)
  | virtualTexture ctx index layer pageTableLayer sampler =>
    exact safe_of_sounding fun _ => ctx.sounding.virtualTexture trivial False.elim trivial
  | sample ctx s => exact sample_safe s
  | readInterpolator ctx => exact readInterpolator_safe
  | implementOutput ctx name index c => exact implementOutput_safe name index c
  | callFunction ctx call body => exact Safe.frames.callFunction hcompile.related trivial call body
  | functionArgument ctx index preview type =>
    exact Safe.frames.functionArgument hcompile.related trivial index preview type
  | report ctx problem => exact report_safe problem
  | compile ctx input => exact hcompile ctx input

/-- **The stores only grow.** Take a state that a compilation reaches, and an operation that ends
without a fault in it. Whatever the stores held before, they hold in the same places after it, and
in every state that the compilation reaches from there. -/
theorem operation_retains {g : Graph} {α : Type} {m : PassM α} (hm : Operation g m) {p q : Pass}
    {a : α} (hp : Reaches {} p) (hq : m p = .ok a q) :
    p.Retains q ∧ Reaches {} q ∧ ∀ r, q.Reaches r → p.Retains r := by
  have hevolves : p.Evolves q := hm.safe.gives (hp.sound ready_init.sound) a q hq
  have hreached : p.Reaches q := (Reaches.refl p).evolves hevolves
  exact ⟨hreached.retains, hp.trans hreached, fun r hr => (hreached.trans hr).retains⟩

/-- Where the parameters of a bare material are read. -/
def parameterReader : Context where
  env := { material := {} }
  stage := .pixel
  scope := 0

/-- To read the text of a parameter gives it a slot, and adds a chunk behind that of the
parameter. -/
theorem operation_retains_textOf :
    ∃ p q r c text, newScope {} = .ok 0 p ∧
      parameterReader.scalarParameter "Gain" .one p = .ok c q ∧
      parameterReader.textOf c q = .ok text r ∧ q.Retains r ∧
      ((q.scope 0).length, (r.scope 0).length) = (1, 2) ∧
      (q.slots.scalars.length, r.slots.scalars.length) = (0, 1) := by
  obtain ⟨p, q, r, c, text, hp, hq, hr, hlengths⟩ :
      ∃ p q r c text, newScope {} = .ok 0 p ∧
        parameterReader.scalarParameter "Gain" .one p = .ok c q ∧
        parameterReader.textOf c q = .ok text r ∧
        ((q.scope 0).length, (r.scope 0).length) = (1, 2) ∧
        (q.slots.scalars.length, r.slots.scalars.length) = (0, 1) :=
    ⟨_, _, _, _, _, rfl, rfl, rfl, by decide +kernel⟩
  have hopened : Reaches {} p :=
    (Reaches.refl _).evolves (Context.newScope_safe.gives ready_init.sound _ _ hp)
  obtain ⟨-, hreached, -⟩ :=
    operation_retains (g := {}) (.scalarParameter parameterReader "Gain" .one) hopened hq
  obtain ⟨hretains, -, -⟩ := operation_retains (g := {}) (.textOf parameterReader c) hreached hr
  exact ⟨p, q, r, c, text, hp, hq, hr, hretains, hlengths⟩

end Pass

end ShaderGraph
