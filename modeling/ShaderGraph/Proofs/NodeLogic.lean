import ShaderGraph.Graph.Compile
import ShaderGraph.Proofs.SampleLogic

/-!
# Logics of nodes

A node is compiled from the code of its inputs by operations. What is proved of that is proved for
all kinds of nodes at once: a logic of nodes (`Context.NodeLogic`) has rules for the compilation of
the inputs, for sequences, and for what operations give, and nodes are gone through once, for every
such logic (`Context.NodeLogic.node`). An operation gives good code in every logic of operations
that allows for it (`Context.Operates`), so a logic of nodes can be built on any number of those.

Function inputs and calls open and leave frames; they are not spoken of here. Some other kinds of
nodes need more than good code of their inputs. Some operations fold textures (`Node.isLax`), an
interpolator whose input is not connected gives no code without a report (`Node.isUnfed`), a texture
that the renderer is said to have laid out is not looked up (`Node.laidOut?`), and a custom output
generates a function.
-/

namespace ShaderGraph

open Pass

/-! ### Kinds of nodes -/

/-- Whether a function of one input does not check it. -/
def UnaryKind.isLax : UnaryKind → Bool
  | length | normalize => true
  | _ => false

/-- Whether a function of two inputs does not check both. -/
def BinaryKind.isLax : BinaryKind → Bool
  | min | max | dot | fmod | arctangent2 => true
  | _ => false

/-- Whether the texture at an index is virtual. -/
def Material.isVirtual (m : Material) (index : Int) : Bool :=
  0 ≤ index && (m.textures[index.toNat]?).any (·.type = .textureVirtual)

theorem Environment.Names.isVirtual {env : Environment} {ref : TextureRef}
    (h : env.Names ref .textureVirtual) : env.material.isVirtual ref.index := by
  obtain ⟨hindex, asset, hasset, hkind⟩ := h
  have htype : asset.type = .textureVirtual := by
    unfold Environment.kindOf at hkind
    split at hkind
    · cases hkind
    · exact hkind
  simp [Material.isVirtual, hindex, hasset, htype]

namespace Node

/-- Whether a node is compiled without opening or leaving a frame. -/
def staysInFrame : Node → Bool
  | functionInput .. | functionCall .. => false
  | _ => true

/-- Whether a node is an operation that does not check all of its inputs. -/
def isLax : Node → Bool
  | unary kind _ => kind.isLax
  | binary kind _ _ _ _ => kind.isLax
  | clamp _ _ _ => true
  | _ => false

/-- Whether a node is an interpolator of nothing. -/
def isUnfed : Node → Bool
  | vertexInterpolator x => !x.isConnected
  | _ => false

/-- The reference of a sample of a virtual texture that the renderer is said to have laid out. -/
def laidOut? : Node → Option TextureRef
  | virtualTextureSample s layer pageTableLayer =>
    some ⟨.asset, "", s.textureIndex, s.sampler, layer, pageTableLayer⟩
  | _ => none

/-- Whether a node is a parameter that samples a virtual texture as an ordinary one. -/
def isDisguised (m : Material) : Node → Bool
  | textureObjectParameter _ index sampler => !sampler.isVirtual && m.isVirtual index
  | _ => false

end Node

namespace Context

/-! ### Operations in all logics -/

/-- What operations may need. -/
structure Allowance where
  /-- Operations need not check all of their operands. -/
  lax : Prop := True
  /-- There may be code of virtual textures. -/
  virtual : Prop := True
  /-- The references to virtual textures that the renderer is said to have laid out. -/
  laid : TextureRef → Prop := fun _ => True

/-- A logic of operations that allows for them. -/
structure Allowance.Fits {ctx : Context} (A : Allowance) (C : ctx.Concerns) : Prop where
  lax : A.lax → C.lax
  virtual : A.virtual → C.virtual
  laid : ∀ ref, A.laid ref → C.laid ref

/-- An operation that gives good code for good operands, in every logic that allows for it. -/
def Operates (A : Allowance) (ctx : Context) (cs : List Code) (m : PassM Code) : Prop :=
  ∀ L : ctx.Logic, A.Fits L.toConcerns → ∀ p, (∀ c ∈ cs, L.Good c p) → L.Ends p m L.Good

namespace Logic

variable {ctx : Context} (L : ctx.Logic) {p : Pass} {a b c : Code}

theorem normalize (hlax : L.lax) (h : L.Good c p) : L.Ends p (ctx.normalize c) L.Good := by
  refine L.bind (L.dot hlax h h) fun square q hq hsquare => ?_
  refine L.bind (L.unary (by decide) hsquare) fun length r hr hlength => ?_
  exact L.arithmetic (by decide) (by decide) (h.mono (L.trans hq hr)) hlength

theorem applyUnary (kind : UnaryKind) (hlax : kind.isLax → L.lax) (h : L.Good c p) :
    L.Ends p (ctx.applyUnary kind c) L.Good := by
  cases kind with
  | length => exact L.length (hlax rfl) h
  | normalize => exact L.normalize (hlax rfl) h
  | _ => exact L.unary (by decide) h

theorem applyBinary (kind : BinaryKind) (hlax : kind.isLax → L.lax) (ha : L.Good a p)
    (hb : L.Good b p) : L.Ends p (ctx.applyBinary kind a b) L.Good := by
  cases kind with
  | add | subtract | multiply | divide => exact L.arithmetic (by decide) (by decide) ha hb
  | min | max | fmod | arctangent2 =>
    exact L.binaryOfFirst (hlax rfl) (by decide) (by decide) (by decide) ha hb
  | power => exact L.power ha hb
  | dot => exact L.dot (hlax rfl) ha hb
  | cross => exact L.cross ha hb
  | appendVector => exact L.append ha hb

end Logic

/-! ### Logics of nodes -/

/-- A logic of what is compiled, in a context, from some inputs. `Ends p f Q` says that what `f`
makes of the compiler of the inputs, started in `p`, ends as `Q` says. -/
structure NodeLogic (ctx : Context) (inputs : List Input) extends Allowance where
  /-- Where code is missing, that was reported. -/
  loud : Prop := False
  Ends : {α : Type} → Pass → (Compiler → PassM α) → (α → Pass → Prop) → Prop
  Later : Pass → Pass → Prop
  Good : Code → Pass → Prop
  /-- Code that is good, but may be missing. -/
  Points : Code → Pass → Prop
  trans : ∀ {p q r : Pass}, Later p q → Later q r → Later p r
  lasts : ∀ {p q : Pass} {c : Code}, Later p q → Good c p → Good c q
  stays : ∀ {p q : Pass} {c : Code}, Later p q → Points c p → Points c q
  points : ∀ {p : Pass} {c : Code}, Good c p → Points c p
  nowhere : ∀ {p : Pass}, Points none p
  pure : ∀ {p : Pass} {c : Code}, Good c p → Ends p (fun _ => pure c) Good
  bind : ∀ {α β : Type} [Inhabited α] {p : Pass} {f : Compiler → PassM α}
    {k : α → Compiler → PassM β} {Q : α → Pass → Prop} {R : β → Pass → Prop}, Ends p f Q →
    (∀ a q, Later p q → Q a q → Ends q (k a) R) →
    Ends p (fun compile => f compile >>= fun a => k a compile) R
  input : ∀ {p : Pass} {i : Input}, i ∈ inputs → (loud → i.isConnected) →
    Ends p (fun compile => compile ctx i) Good
  peek : ∀ {p : Pass} {i : Input}, i ∈ inputs → Ends p (fun compile => compile ctx i) Points
  operation : ∀ {p : Pass} {m : PassM Code} (cs : List Code), ctx.Operates toAllowance cs m →
    (∀ c ∈ cs, Good c p) → Ends p (fun _ => m) Good
  value : ∀ {p : Pass} {c : Code}, Good c p →
    Ends p (fun _ => ctx.staticBoolValue c) fun value q => value = none → Good none q
  known : ∀ {p : Pass} {b : Bool},
    Ends p (fun _ => Pure.pure (some b)) fun value q => value = none → Good none q
  sample : ∀ {p : Pass} {s : Sample}, Good s.texture p → Good s.coordinate p → Points s.mip p →
    Points s.mipY p → Ends p (fun _ => ctx.sample s) Good
  interpolator : ∀ {p : Pass}, Ends p (fun _ => ctx.readInterpolator) Good

/-- A logic allows for a node. -/
structure NodeLogic.Allows {ctx : Context} {inputs : List Input} (N : ctx.NodeLogic inputs)
    (node : Node) : Prop where
  lax : node.isLax → N.lax
  fed : N.loud → node.isUnfed = false
  laid : ∀ ref, node.laidOut? = some ref → N.laid ref
  virtual : N.virtual ∨
    node.usesVirtualTexture = false ∧ node.isDisguised ctx.material = false
  output : ∀ settings inputs, node = .customOutput settings inputs → ∀ {p : Pass} {c : Code}
    (name : String) (index : Int), N.Good c p →
      N.Ends p (fun _ => ctx.implementOutput name index c) N.Good

namespace NodeLogic

variable {ctx : Context} {inputs : List Input} (N : ctx.NodeLogic inputs)
variable {p : Pass} {α : Type} {f k : Compiler → PassM α} {Q : α → Pass → Prop} {i : Input}
variable {rest : Code → Compiler → PassM Code} {m : PassM Code} {problem : Problem}

theorem ite {b : Prop} [Decidable b] (hf : b → N.Ends p f Q) (hk : ¬b → N.Ends p k Q) :
    N.Ends p (fun compile => if b then f compile else k compile) Q := by
  by_cases hb : b
  · simpa only [if_pos hb] using hf hb
  · simpa only [if_neg hb] using hk hb

/-- A choice between two ways to come to what the rest needs. -/
theorem orElse {b : Prop} [Decidable b] {f k : Compiler → PassM Code} (hf : b → N.Ends p f N.Good)
    (hk : ¬b → N.Ends p k N.Good)
    (hrest : ∀ c q, N.Later p q → N.Good c q → N.Ends q (rest c) N.Good) :
    N.Ends p (fun compile => if b then f compile >>= fun c => rest c compile
      else k compile >>= fun c => rest c compile) N.Good :=
  N.ite (fun hb => N.bind (hf hb) hrest) fun hb => N.bind (hk hb) hrest

/-- There is no code where that of an operand is missing. -/
theorem missing {c : Code} (h : N.Good c p) (hc : c.isNone = true) :
    N.Ends p (fun _ => Pure.pure none) N.Good := N.pure (Option.isNone_iff_eq_none.1 hc ▸ h)

/-! ### Operations -/

/-- An operation without operands. -/
theorem source (h : ∀ L : ctx.Logic, N.toAllowance.Fits L.toConcerns → ∀ p, L.Ends p m L.Good) :
    N.Ends p (fun _ => m) N.Good :=
  N.operation [] (fun L hL p _ => h L hL p) nofun

theorem report (h : problem.isOrdinary) :
    N.Ends p (fun _ => ctx.report problem) N.Good := N.source fun L _ _ => L.reported h

theorem constant1 (x : Single) : N.Ends p (fun _ => ctx.constant1 x) N.Good :=
  N.source fun L _ _ => L.constant1 x

/-- An operation on one operand. -/
theorem onto {c : Code} (hc : N.Good c p)
    (h : ∀ L : ctx.Logic, N.toAllowance.Fits L.toConcerns → ∀ p, L.Good c p → L.Ends p m L.Good) :
    N.Ends p (fun _ => m) N.Good :=
  N.operation [c] (fun L hL p hcs => h L hL p (hcs c (by simp))) (by simpa using hc)

/-! ### Inputs -/

theorem inputOr (h : i ∈ inputs) (default : Single) :
    N.Ends p (fun compile => Context.inputOr compile ctx i default) N.Good :=
  N.ite (fun hi => N.input h fun _ => hi) fun _ => N.constant1 default

/-- An input that has to be connected. -/
theorem required (h : i ∈ inputs) (hproblem : problem.isOrdinary)
    (hrest : ∀ c q, N.Good c q → N.Ends q (rest c) N.Good) :
    N.Ends p (fun compile => if i.isConnected then compile ctx i >>= fun c => rest c compile
      else ctx.report problem) N.Good :=
  N.ite (fun hi => N.bind (N.input h fun _ => hi) fun c q _ hc => hrest c q hc)
    fun _ => N.report hproblem

theorem branch (h : i ∈ inputs) (hproblem : problem.isOrdinary) :
    N.Ends p (fun compile => if i.isConnected then compile ctx i else ctx.report problem) N.Good :=
  N.ite (fun hi => N.input h fun _ => hi) fun _ => N.report hproblem

theorem operand (kind : BinaryKind) (h : i ∈ inputs) (default : Single) (name : String) :
    N.Ends p (fun compile => Node.compileOperand compile ctx kind i default name) N.Good :=
  N.ite (fun hi => N.input h fun _ => hi) fun _ =>
    N.ite (fun _ => N.constant1 default) fun _ => N.report rfl

/-! ### Kinds of nodes -/

theorem binary (kind : BinaryKind) (hlax : kind.isLax → N.lax) {a b : Input} (ha : a ∈ inputs)
    (hb : b ∈ inputs) (defaultA defaultB : Single) :
    N.Ends p (fun compile => Node.compileBinary compile ctx kind a b defaultA defaultB)
      N.Good := by
  refine N.bind (N.operand kind ha _ _) fun ca q₁ _ hca => ?_
  refine N.bind (N.operand kind hb _ _) fun cb q₂ h₂ hcb => ?_
  have hca := N.lasts h₂ hca
  refine N.ite (fun h => ?_) fun _ => N.operation [ca, cb] (fun L hL p hcs => ?_) ?_
  · exact (Bool.or_eq_true_iff.1 h).elim (N.missing hca) (N.missing hcb)
  · exact L.applyBinary kind (fun h => hL.lax (hlax h)) (hcs ca (by simp)) (hcs cb (by simp))
  · simpa using ⟨hca, hcb⟩

theorem comparison (c : Comparison)
    (h : ∀ i ∈ [c.a, c.b, c.greater, c.equal, c.less], i ∈ inputs) :
    N.Ends p (fun compile => Node.compileComparison compile ctx c) N.Good := by
  have hconnected : ∀ {i : Input}, ¬(!i.isConnected) = true → i.isConnected := fun h => by
    simpa using h
  refine N.ite (fun _ => N.report rfl) fun ha => N.ite (fun _ => N.report rfl) fun hgreater =>
    N.ite (fun _ => N.report rfl) fun hless => ?_
  refine N.bind (N.input (h c.a (by simp)) fun _ => hconnected ha) fun a q₁ _ ha => ?_
  refine N.bind (N.inputOr (h c.b (by simp)) _) fun b q₂ h₂ hb => ?_
  refine N.bind (N.input (h c.greater (by simp)) fun _ => hconnected hgreater)
    fun greater q₃ h₃ hgreater => ?_
  refine N.bind (N.input (h c.less (by simp)) fun _ => hconnected hless)
    fun less q₄ h₄ hless => ?_
  have ha := N.lasts (N.trans h₂ (N.trans h₃ h₄)) ha
  have hb := N.lasts (N.trans h₃ h₄) hb
  have hgreater := N.lasts h₄ hgreater
  refine N.ite (fun hequal => ?_) fun _ =>
    N.operation [a, b, greater, less] (fun L _ p hcs => ?_) ?_
  · refine N.bind (N.input (h c.equal (by simp)) fun _ => hequal) fun equal q₅ h₅ hequal => ?_
    refine N.ite (N.missing hequal) fun _ => ?_
    refine N.bind (N.constant1 _) fun threshold q₆ h₆ hthreshold => ?_
    have h₅ := N.trans h₅ h₆
    refine N.operation [a, b, greater, equal, less, threshold] (fun L _ p hcs => ?_) ?_
    · exact L.choose (hcs a (by simp)) (hcs b (by simp)) (hcs greater (by simp))
        (fun _ => hcs equal (by simp)) (hcs less (by simp)) fun _ => hcs threshold (by simp)
    · simpa using ⟨N.lasts h₅ ha, N.lasts h₅ hb, N.lasts h₅ hgreater, N.lasts h₆ hequal,
        N.lasts h₅ hless, hthreshold⟩
  · exact L.choose (hcs a (by simp)) (hcs b (by simp)) (hcs greater (by simp)) nofun
      (hcs less (by simp)) nofun
  · simpa using ⟨ha, hb, hgreater, hless⟩

theorem switch {value onTrue onFalse : Input} (default : Bool) (hvalue : value ∈ inputs)
    (htrue : onTrue ∈ inputs) (hfalse : onFalse ∈ inputs) :
    N.Ends p (fun compile => Node.compileSwitch compile ctx value default onTrue onFalse)
      N.Good := by
  have hswitch : N.Ends p (fun compile => Node.switchValue compile ctx value default)
      fun value q => value = none → N.Good none q :=
    N.ite (fun hi => N.bind (N.input hvalue fun _ => hi) fun _ _ _ hc => N.value hc)
      fun _ => N.known
  refine N.bind hswitch fun selected q _ hselected => ?_
  match selected with
  | none => exact N.pure (hselected rfl)
  | some true => exact N.branch htrue rfl
  | some false => exact N.branch hfalse rfl

theorem coordinate (index : Int) (mirror : Mirror) (tilingU tilingV : Single) :
    N.Ends p (fun _ => Node.compileCoordinate ctx index mirror tilingU tilingV) N.Good := by
  refine N.source fun L _ p => L.bind (L.textureCoordinate _ _) fun code q _ hcode => ?_
  split
  · exact L.pure hcode
  · exact L.bind (L.constant2 _ _) fun tiling r hr htiling =>
      L.arithmetic (by decide) (by decide) (hcode.mono hr) htiling

theorem sampled (s : SampleSettings) {texture : Code} (htexture : N.Good texture p)
    (h : ∀ i ∈ [s.coordinates, s.mip, s.mipY], i ∈ inputs) :
    N.Ends p (fun compile => Node.compileSample compile ctx s texture) N.Good := by
  refine N.ite (N.missing htexture) fun _ => ?_
  refine N.orElse (fun hi => N.input (h s.coordinates (by simp)) fun _ => hi)
    (fun _ => N.source fun L _ p => L.textureCoordinate _ _) fun coordinate q₁ h₁ hcoordinate => ?_
  have htexture := N.lasts h₁ htexture
  cases hmode : s.mipMode with
  | level | bias =>
    refine N.bind (N.inputOr (h s.mip (by simp)) _) fun mip q₂ h₂ hmip => ?_
    exact N.sample (N.lasts h₂ htexture) (N.lasts h₂ hcoordinate) (N.points hmip) N.nowhere
  | derivative =>
    refine N.bind (N.peek (h s.mip (by simp))) fun mip q₂ h₂ hmip => ?_
    refine N.bind (N.peek (h s.mipY (by simp))) fun mipY q₃ h₃ hmipY => ?_
    have h₂ := N.trans h₂ h₃
    exact N.sample (N.lasts h₂ htexture) (N.lasts h₂ hcoordinate) (N.stays h₃ hmip) hmipY
  | automatic | other => exact N.sample htexture hcoordinate N.nowhere N.nowhere

theorem texture (index : Int) {sampler : SamplerType} (mode : MipMode)
    (h : N.virtual ∨ sampler.isVirtual = false) :
    N.Ends p (fun _ => ctx.texture index sampler mode) N.Good :=
  N.source fun L hL _ => L.texture index (h.imp_left hL.virtual) mode

theorem output (settings : OutputSettings)
    (h : ∀ {p : Pass} {c : Code} (name : String) (index : Int), N.Good c p →
      N.Ends p (fun _ => ctx.implementOutput name index c) N.Good) (output : Int) :
    N.Ends p (fun compile => Node.compileOutput compile ctx settings inputs output) N.Good := by
  unfold Node.compileOutput
  cases hinput : if output < 0 then none else inputs[output.toNat]? with
  | none => exact N.report rfl
  | some input =>
    have hmem : input ∈ inputs := by
      split at hinput
      · cases hinput
      · exact List.mem_of_getElem? hinput
    exact N.required hmem rfl fun c q hc => h _ _ hc

/-- **Every kind of node** that stays in its frame gives good code, in a logic that allows for
it. -/
theorem node {g : Graph} {node : Node} (N : ctx.NodeLogic (node.inputs g))
    (hnode : node.staysInFrame) (h : N.Allows node) (output : Int) :
    N.Ends p (fun compile => node.compile g compile ctx output) N.Good := by
  cases node with
  | constant x => exact N.constant1 x
  | constant2 x y => exact N.source fun L _ _ => L.constant2 x y
  | constant3 x y z => exact N.source fun L _ _ => L.constant3 x y z
  | constant4 v => exact N.source fun L _ _ => L.constant4 v
  | scalarParameter name default => exact N.source fun L _ _ => L.scalarParameter name default
  | vectorParameter name default => exact N.source fun L _ _ => L.vectorParameter name default
  | staticBool | staticBoolParameter => exact N.source fun L _ _ => L.staticBool _
  | unary kind x =>
    refine N.required (by simp [Node.inputs]) rfl fun c q hc => ?_
    exact N.onto hc fun L hL p hc => L.applyUnary kind (fun hlax => hL.lax (h.lax hlax)) hc
  | binary kind a b =>
    exact N.binary kind h.lax (by simp [Node.inputs]) (by simp [Node.inputs]) _ _
  | lerp a b alpha =>
    refine N.bind (N.inputOr (by simp [Node.inputs]) _) fun ca q₁ _ ha => ?_
    refine N.bind (N.inputOr (by simp [Node.inputs]) _) fun cb q₂ h₂ hb => ?_
    refine N.bind (N.inputOr (by simp [Node.inputs]) _) fun calpha q₃ h₃ halpha => ?_
    refine N.operation [ca, cb, calpha] (fun L _ p hcs => ?_) ?_
    · exact L.lerp (hcs ca (by simp)) (hcs cb (by simp)) (hcs calpha (by simp))
    · simpa using ⟨N.lasts (N.trans h₂ h₃) ha, N.lasts h₃ hb, halpha⟩
  | clamp x lo hi =>
    refine N.ite (fun hx => ?_) fun _ => N.report rfl
    refine N.bind (N.input (by simp [Node.inputs]) fun _ => hx) fun cx q₁ _ hx => ?_
    refine N.bind (N.inputOr (by simp [Node.inputs]) _) fun clo q₂ h₂ hlo => ?_
    refine N.bind (N.inputOr (by simp [Node.inputs]) _) fun chi q₃ h₃ hhi => ?_
    refine N.operation [cx, clo, chi] (fun L hL p hcs => ?_) ?_
    · exact L.clamp (hL.lax (h.lax rfl)) (hcs cx (by simp)) (hcs clo (by simp)) (hcs chi (by simp))
    · simpa using ⟨N.lasts (N.trans h₂ h₃) hx, N.lasts h₃ hlo, hhi⟩
  | compare c => exact N.comparison c fun i hi => hi
  | componentMask x mask | staticComponentMask x name default =>
    refine N.required (by simp [Node.inputs]) rfl fun c q hc => ?_
    exact N.onto hc fun L _ p hc => L.componentMask hc _
  | staticSwitch =>
    exact N.switch _ (by simp [Node.inputs]) (by simp [Node.inputs]) (by simp [Node.inputs])
  | previousFrameSwitch =>
    exact N.ite (fun _ => N.branch (by simp [Node.inputs]) rfl)
      fun _ => N.branch (by simp [Node.inputs]) rfl
  | textureCoordinate => exact N.coordinate _ _ _ _
  | vertexColor => exact N.source fun L _ _ => L.vertexColor
  | worldPosition kind => exact N.source fun L _ _ => L.worldPosition kind
  | time => exact N.source fun L _ _ => L.time _ _
  | pixelDepth => exact N.source fun L _ _ => L.pixelDepth
  | shadingModel model => exact N.source fun L _ _ => L.shadingModel model
  | textureObject index sampler => exact N.texture index .level (h.virtual.imp_right And.left)
  | textureObjectParameter name index sampler =>
    refine N.source fun L hL p => L.textureParameter name sampler (h.virtual.imp hL.virtual ?_)
    intro ⟨hsampler, hdisguised⟩ ref hindex hnames
    have hvirtual : ctx.material.isVirtual index := hindex ▸ hnames.isVirtual
    simp [Node.isDisguised, hvirtual, show sampler.isVirtual = false from hsampler] at hdisguised
  | textureSample s =>
    refine N.orElse (fun hi => N.input (by simp [Node.inputs]) fun _ => hi)
      (fun _ => N.texture _ _ (h.virtual.imp_right And.left)) fun texture q _ htexture => ?_
    exact N.sampled s htexture fun i hi => List.mem_cons_of_mem _ hi
  | virtualTextureSample s layer pageTableLayer =>
    have hvirtual : N.virtual := h.virtual.resolve_right fun h => by cases h.1
    refine N.ite (fun hoption => ?_) fun _ => N.report rfl
    refine N.bind (N.source fun L hL p => ?_) fun texture q _ htexture =>
      N.sampled s htexture fun i hi => hi
    exact L.virtualTexture (hL.virtual hvirtual) (fun _ => hoption) (hL.laid _ (h.laid _ rfl))
  | vertexInterpolator x =>
    refine N.ite (fun _ => N.interpolator) fun _ => N.input (by simp [Node.inputs]) fun hloud => ?_
    simpa [Node.isUnfed] using h.fed hloud
  | customOutput settings inputs => exact N.output settings (h.output settings inputs rfl) output
  | functionOutput => exact N.branch (by simp [Node.inputs]) rfl
  | functionInput | functionCall => cases hnode

end NodeLogic

end Context

end ShaderGraph
