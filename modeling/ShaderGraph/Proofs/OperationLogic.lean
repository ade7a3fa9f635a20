import ShaderGraph.Pass.Properties
import ShaderGraph.Proofs.Effects
import ShaderGraph.Proofs.EmittedTexts
import ShaderGraph.Proofs.PlainSteps
import ShaderGraph.Proofs.Scalars

/-!
# Logics of operations

Every operation reads its operands, fills a pattern with their texts, and emits the result. Several
things are proved of all operations: that they know nothing of frames, that they keep the code
sound, that they keep handles good, and that they give ordinary code. Each of them is a logic
(`Context.Logic`): a kind of triple, with rules for the few steps that emit and read code.
Operations are gone through once, for every logic.

A logic need not speak of everything (`Context.Concerns`). What it does not speak of is not asked of
operands, and not known of results.
-/

namespace ShaderGraph

open Pass

/-- Whether compiling expressions never comes to a fault: it is about a handle that leaves its
scope, a frame that is left open, a layer that a stack does not have or code that is not there when
the results are fixed, or about programs, which are made after that. -/
def Fault.isExcluded : Fault → Bool
  | codeOutOfRange _ | emittedAfterFinish | unbalancedFrames | resultOutOfRange | resultNotRead
  | layersExhausted | invalidLayer | textureProgram => true
  | _ => false

/-- A pattern of which more than holes is left. -/
abbrev Text.Fills (pattern : String) : Prop :=
  isPattern pattern = true ∧ isSolid pattern.toList = true

namespace Context

/-- The chunk that code points to. -/
def Sees (ctx : Context) (c : Code) (d : Chunk) (p : Pass) : Prop :=
  ∃ i, c = some i ∧ (p.scope ctx.scope)[i]? = some d

/-- Reads something off a chunk, or off the code of its slot if it is deferred. -/
def readOff {β : Type} (ctx : Context) (f : Chunk → β) (i : Nat) : PassM β := do
  let chunk ← ctx.chunk i
  if chunk.deferred?.isSome then
    match ← ctx.readSlot i with
    | some j => return f (← ctx.chunk j)
    | none => throw (.codeOutOfRange (-1))
  else return f chunk

/-- The type of an arithmetic expression is that of an operand, and a scalar if both are. -/
theorem arithmeticType_ok {s t type : ValueType} (h : arithmeticType s t = .ok type) :
    isNumeric s ∧ isNumeric t ∧ type ≠ .unknown ∧ (type = .float → s = .float ∧ t = .float) := by
  have hknown : ∀ {s : ValueType}, isNumeric s → s ≠ .unknown := by
    rintro s hs rfl
    exact absurd hs (by decide)
  unfold arithmeticType at h
  split at h
  · cases h
  case isFalse hnumeric =>
    obtain ⟨hs, ht⟩ : isNumeric s ∧ isNumeric t := by simpa using hnumeric
    refine ⟨hs, ht, ?_⟩
    split at h
    case isTrue heq =>
      obtain rfl := Except.ok.inj h
      exact ⟨hknown hs, fun h => ⟨h, heq ▸ h⟩⟩
    split at h
    · obtain rfl := Except.ok.inj h
      split
      case isTrue hfloat => exact ⟨hknown ht, fun h => ⟨hfloat, h⟩⟩
      case isFalse hfloat => exact ⟨hknown hs, fun h => absurd h hfloat⟩
    · cases h

theorem arithmeticType_error {s t : ValueType} {problem : Problem}
    (h : arithmeticType s t = .error problem) : problem.isOrdinary := by
  unfold arithmeticType at h
  split at h
  · exact Except.error.inj h ▸ rfl
  split at h
  · cases h
  split at h
  · cases h
  · exact Except.error.inj h ▸ rfl

/-! ### What a logic speaks of -/

/-- What a logic speaks of in a context. -/
structure Concerns (ctx : Context) where
  /-- Code points into the scope. -/
  handles : Prop := False
  /-- No step breaks off over a handle. -/
  strict : Prop := False
  /-- Texts mention temporaries of the scope only. -/
  reads : Prop := False
  /-- Where code is missing, that was reported. -/
  loud : Prop := False
  /-- There may be code of virtual textures. -/
  virtual : Prop := True
  /-- There are operations that do not check all of their operands. -/
  lax : Prop := True
  /-- The references to virtual textures that the renderer is said to have laid out. -/
  laid : TextureRef → Prop := fun _ => True

/-- An operand of the given type is not folded into a texture, or need not be checked. -/
def Checked (lax : Prop) (checks : Bool) (operand type : ValueType) : Prop :=
  (type ≠ .unknown → type.isTexture = false → operand.isTextureKind = false) ∨
    lax ∧ checks = false

namespace Concerns

variable {ctx : Context} (C : ctx.Concerns)

/-- Something that is missing was reported. -/
def Failed (p : Pass) : Prop := C.loud → p.success = false

/-- A text mentions temporaries of the scope, none if it is `literal`. -/
def Reads (literal : Bool) (t : String) (p : Pass) : Prop := C.reads → p.Reads ctx.scope literal t

/-- There are chunks in the scope. -/
def Placed (p : Pass) : Prop := C.reads → p.scope ctx.scope ≠ []

/-- Code points into the scope, and mentions no temporary if it is `literal`. -/
structure Points (literal : Bool) (c : Code) (p : Pass) : Prop where
  place : C.handles → p.Refers ctx.scope (fun d => C.virtual ∨ d.type ≠ .textureVirtual) c
  text : C.reads → p.CodeReads ctx.scope literal c

/-- Code points into the scope; and if there is none, that was reported. -/
structure Holds (literal : Bool) (c : Code) (p : Pass) : Prop extends C.Points literal c p where
  failed : c = none → C.Failed p

/-- Code as operations ask for it, and as they give it. -/
abbrev Good (c : Code) (p : Pass) : Prop := C.Holds false c p

/-- A chunk that is read. -/
structure Sight (i : Nat) (d : Chunk) (p : Pass) : Prop where
  found : C.handles ∨ C.reads → (p.scope ctx.scope)[i]? = some d
  known : C.loud → d.type ≠ .unknown
  reads : C.Reads false (plainText d) p
  literal : d.uniform?.isSome → C.Reads true (plainText d) p

/-- The type of code. -/
structure Typed (c : Code) (type : ValueType) (p : Pass) : Prop where
  sees : C.handles ∨ C.reads → ∀ i, c = some i →
    ∃ d, (p.scope ctx.scope)[i]? = some d ∧ d.type = type
  known : C.loud → c.isSome → type ≠ .unknown

/-- The uniform expression that code stands for. -/
structure Stands (c : Code) (u : SharedUniform) (p : Pass) : Prop where
  sees : C.handles ∨ C.reads → ∃ d, ctx.Sees c d p ∧ d.uniform? = some u
  text : C.reads → p.CodeReads ctx.scope true c

/-- An operand that can be folded: its code has a type and stands for a uniform expression. -/
def Operand (c : Code) (type : ValueType) (u : SharedUniform) (p : Pass) : Prop :=
  C.handles ∨ C.reads → ∃ d, ctx.Sees c d p ∧ d.type = type ∧ d.uniform? = some u

/-- A uniform expression that is folded from others, with the type of its code. -/
inductive Folds (p : Pass) : Uniform → List SharedUniform → ValueType → Prop where
  | leaf {u : Uniform} {type : ValueType} (hoperands : u.operands = [])
      (hnumber : u.isTexture = false)
      (hscalar : C.handles → u.Coherent ∧ (type = .float → u.isScalar)) : Folds p u [] type
  | unary {op : UnaryOp} {type t : ValueType} {a : Code} {u : SharedUniform}
      (ha : C.Operand a t u p) (hop : op.count ≤ 4)
      (hcheck : Checked C.lax op.checksOperand t type)
      (hscalar : type = .float → op.checksOperand → t = .float) :
      Folds p (.unary op type u.expr) [u] type
  | swizzle {pattern : Swizzle} {type t : ValueType} {a : Code} {u : SharedUniform}
      (ha : C.Operand a t u p) (hcount : pattern.count ≤ 4) (hkind : t.isTextureKind = false)
      (hscalar : type = .float → pattern.count = 1) :
      Folds p (.swizzle pattern u.expr) [u] type
  | binary {op : BinaryOp} {type s t : ValueType} {a b : Code} {u v : SharedUniform}
      (ha : C.Operand a s u p) (hb : C.Operand b t v p) (hop : op.count ≤ 4)
      (hfirst : Checked C.lax op.checksFirst s type)
      (hsecond : Checked C.lax op.checksSecond t type)
      (hscalar : type = .float → op.yieldsScalar ∧ (op.checksFirst → s = .float) ∧
        (op.checksSecond → t = .float)) :
      Folds p (.binary op type u.expr v.expr) [u, v] type
  | clamp {type r s t : ValueType} {a b c : Code} {u v w : SharedUniform}
      (ha : C.Operand a r u p) (hb : C.Operand b s v p) (hc : C.Operand c t w p) (hlax : C.lax)
      (hfirst : type.isTexture = false → r.isTextureKind = false)
      (hscalar : type = .float → r = .float) :
      Folds p (.clamp type u.expr v.expr w.expr) [u, v, w] type

/-- What an operation is put together from: its operands, its type and the texts that were read. -/
structure Reading (literal : Bool) (cs : List Code) (type : ValueType) (ts : List String)
    (p : Pass) : Prop where
  codes : ∀ c ∈ cs, C.Points literal c p
  typed : type = .unknown → C.Failed p
  texts : ∀ t ∈ ts, C.Reads literal t p

variable {C} {literal : Bool} {a b c : Code} {type t : ValueType} {u : SharedUniform} {p : Pass}
variable {i : Nat} {d : Chunk} {cs : List Code} {ts : List String}

theorem Points.none : C.Points literal none p := ⟨fun _ => nofun, fun _ => .none _ _⟩

theorem Points.weaken (h : C.Points literal c p) : C.Points false c p :=
  ⟨h.place, fun _ => .of_false _ _⟩

theorem Holds.of_failed (h : C.Failed p) : C.Holds literal none p := ⟨.none, fun _ => h⟩

theorem Holds.of_isSome (h : C.Points literal c p) (hc : c.isSome) : C.Holds literal c p :=
  ⟨h, fun hnone => by cases hnone ▸ hc⟩

/-- Where nothing is spoken of, any code will do. -/
theorem Holds.unasked (literal : Bool) : ({} : ctx.Concerns).Holds literal c p :=
  ⟨⟨False.elim, False.elim⟩, fun _ => False.elim⟩

theorem Holds.weaken (h : C.Holds literal c p) : C.Good c p := ⟨h.toPoints.weaken, h.failed⟩

/-- Code that mentions no temporary can stand for any. -/
theorem Holds.of_literal (h : C.Holds true c p) : C.Holds literal c p :=
  ⟨⟨h.place, fun hreads _ => h.text hreads rfl⟩, h.failed⟩

theorem Holds.absent (h : C.Holds literal c p) (hc : c.isNone = true) : C.Failed p :=
  h.failed (Option.isNone_iff_eq_none.1 hc)

/-- Of two things that can be missing, one is. -/
theorem failed_or {x y : Bool} (hx : x = true → C.Failed p) (hy : y = true → C.Failed p)
    (h : (x || y) = true) : C.Failed p := (Bool.or_eq_true_iff.1 h).elim hx hy

theorem Sight.text (h : C.Sight i d p) (hc : C.Points literal (some i) p) :
    C.Reads literal (plainText d) p := by
  intro hreads
  cases literal with
  | false => exact h.reads hreads
  | true =>
    obtain ⟨e, he, htext⟩ := hc.text hreads rfl i rfl
    obtain rfl := Option.some.inj ((h.found (.inr hreads)).symm.trans he)
    exact .of_literal htext

theorem Sight.placed (h : C.Sight i d p) : C.Placed p := by
  intro hreads hnil
  have hfound := h.found (.inr hreads)
  rw [hnil] at hfound
  cases hfound

/-- The type of code that is there, or whose absence was reported. -/
theorem Typed.failed (h : C.Typed c type p) (hc : C.Holds literal c p) :
    type = .unknown → C.Failed p := by
  intro htype hloud
  cases c with
  | none => exact hc.failed rfl hloud
  | some i => exact absurd htype (h.known hloud rfl)

theorem Stands.points (h : C.Stands c u p) (hc : C.Points literal c p) : C.Points true c p :=
  ⟨hc.place, h.text⟩

theorem Stands.operand (h : C.Stands c u p) (htype : C.Typed c type p) :
    C.Operand c type u p := by
  intro hseen
  obtain ⟨d, ⟨i, rfl, hd⟩, hu⟩ := h.sees hseen
  obtain ⟨e, he, rfl⟩ := htype.sees hseen i rfl
  cases hd.symm.trans he
  exact ⟨d, ⟨i, rfl, hd⟩, rfl, hu⟩

/-- So has one whose type was not asked for. -/
theorem Stands.exists_operand (h : C.Stands c u p) : ∃ type, C.Operand c type u p := by
  by_cases hseen : C.handles ∨ C.reads
  · obtain ⟨d, hd, hu⟩ := h.sees hseen
    exact ⟨d.type, fun _ => ⟨d, hd, rfl, hu⟩⟩
  · exact ⟨.unknown, fun h => absurd h hseen⟩

theorem Reading.nil (htype : type = .unknown → C.Failed p) : C.Reading literal [] type [] p :=
  ⟨nofun, htype, nofun⟩

theorem Reading.cons (hc : C.Points literal c p) (h : C.Reading literal cs type ts p) :
    C.Reading literal (c :: cs) type ts p :=
  ⟨List.forall_mem_cons.2 ⟨hc, h.codes⟩, h.typed, h.texts⟩

theorem Reading.concat (h : C.Reading literal cs type ts p) {s : String}
    (hs : C.Reads literal s p) : C.Reading literal cs type (ts ++ [s]) p :=
  ⟨h.codes, h.typed, List.forall_mem_append.2 ⟨h.texts, by simpa using hs⟩⟩

theorem Reading.fill (h : C.Reading literal cs type ts p) {pattern : String}
    (hpattern : Text.isPattern pattern = true) : C.Reads literal (Text.fill pattern ts) p :=
  fun hreads => Text.Reads.fill hpattern fun t ht => h.texts t ht hreads

end Concerns

/-! ### Logics -/

/-- What operations register besides emitting code. -/
inductive Registers (ctx : Context) : (Pass → Pass) → Prop where
  | usage (f : Usage → Usage) : Registers ctx fun p => { p with usage := f p.usage }
  | coordinate {i : Nat} (hi : i < ctx.coordinateSets) : Registers ctx fun p =>
      if ctx.stage = .vertex then { p with vertexCoordinates := p.vertexCoordinates.insert i }
      else { p with pixelCoordinates := p.pixelCoordinates.insert i }
  | shadingModel (m : ShadingModel) :
      Registers ctx fun p => { p with shadingModels := p.shadingModels.insert m }
  | sample : Registers ctx fun p =>
      if ctx.inPixelWork then
        { p with stats := { p.stats with pixelSamples := p.stats.pixelSamples + 1 } }
      else { p with stats := { p.stats with vertexSamples := p.stats.vertexSamples + 1 } }

/-- A logic of the steps that are taken in a context. `Ends p m Q` says that the step `m`, taken
from `p`, ends as `Q` says. -/
structure Logic (ctx : Context) extends Concerns ctx where
  Ends : {α : Type} → Pass → PassM α → (α → Pass → Prop) → Prop
  Later : Pass → Pass → Prop
  trans : ∀ {p q r : Pass}, Later p q → Later q r → Later p r
  scope : ∀ {p q : Pass}, Later p q → handles ∨ reads → p.scope ctx.scope <+: q.scope ctx.scope
  lasts : ∀ {p q : Pass}, Later p q → loud → p.success = false → q.success = false
  pure : ∀ {α : Type} {p : Pass} {a : α} {Q : α → Pass → Prop}, Q a p → Ends p (pure a) Q
  bind : ∀ {α β : Type} {p : Pass} {m : PassM α} {f : α → PassM β} {Q : α → Pass → Prop}
    {R : β → Pass → Prop}, Ends p m Q → (∀ a q, Later p q → Q a q → Ends q (f a) R) →
    Ends p (m >>= f) R
  throw : ∀ {α : Type} {p : Pass} {e : Fault} {Q : α → Pass → Prop}, e.concernsFrames = false →
    (strict → e.isExcluded = false) → Ends p (throw e : PassM α) Q
  report : ∀ {p : Pass} {problem : Problem}, problem.isOrdinary →
    Ends p (ctx.report problem) fun c q => toConcerns.Holds true c q ∧ toConcerns.Failed q
  registers : ∀ {p : Pass} {u : Pass → Pass}, ctx.Registers u →
    Ends p (modify u : PassM PUnit) fun _ _ => True
  chunk : ∀ {p : Pass} {i : Nat}, toConcerns.Points false (some i) p →
    Ends p (ctx.chunk i) fun d q => q = p ∧ toConcerns.Sight i d p
  readSlot : ∀ {p : Pass} {i : Nat}, toConcerns.Points false (some i) p →
    Ends p (ctx.readSlot i) fun c q => toConcerns.Holds true c q ∧ (strict → c.isSome)
  emitInline : ∀ {p : Pass} {type : ValueType} {text : String} {literal : Bool},
    type ≠ .textureVirtual → (type = .unknown → toConcerns.Failed p) →
    toConcerns.Reads literal text p → (literal = true → toConcerns.Placed p) →
    Ends p (ctx.emitInline type text) (toConcerns.Holds literal)
  emitWith : ∀ {p : Pass} {digest : Digest} {type : ValueType} {text : String},
    (type = .unknown → toConcerns.Failed p) → toConcerns.Reads false text p → text ≠ "" →
    Ends p (ctx.emitWith digest type text) fun c q => toConcerns.Good c q ∧
      (strict → type.isFloat || type.shares .pageTableResult || type = .shadingModel → c.isSome)
  emitUniform : ∀ {p : Pass} {u : Uniform} {arguments : List SharedUniform} {type : ValueType}
    {digest : Digest} {text : String}, toConcerns.Folds p u arguments type →
    (type = .unknown → toConcerns.Failed p) → toConcerns.Reads true text p →
    Ends p (ctx.emitUniform u (arguments.map (·.id)) type digest text) toConcerns.Good
  emitTexture : ∀ {p : Pass} {ref : TextureRef} {type : ValueType}, type.isTexture →
    (ctx.material.TexturesTyped → type.isTextureKind) →
    (ctx.env.Names ref type ∨
      type = .textureVirtual ∧ ctx.options.virtualTexturing ∧ laid ref) →
    (virtual ∨ type ≠ .textureVirtual) → Ends p (ctx.emitTexture ref type) toConcerns.Good

namespace Concerns

variable {ctx : Context} {L : ctx.Logic} {literal : Bool} {c : Code} {type : ValueType}
variable {p q : Pass} {u : SharedUniform} {e : Uniform} {arguments : List SharedUniform}

theorem Failed.mono (h : L.Failed p) (hq : L.Later p q) : L.Failed q :=
  fun hloud => L.lasts hq hloud (h hloud)

theorem Placed.mono (h : L.Placed p) (hq : L.Later p q) : L.Placed q :=
  fun hreads hnil => h hreads (List.prefix_nil.1 (hnil ▸ L.scope hq (.inr hreads)))

theorem Reads.mono {t : String} (h : L.Reads literal t p) (hq : L.Later p q) :
    L.Reads literal t q := by
  intro hreads
  obtain ⟨more, hmore⟩ := L.scope hq (.inr hreads)
  refine Text.Reads.mono (fun n hn => ⟨hn.1, ?_⟩) (h hreads)
  rw [← hmore, Scope.temporaries_append]
  exact List.mem_append_left _ hn.2

theorem Points.mono (h : L.Points literal c p) (hq : L.Later p q) : L.Points literal c q := by
  refine ⟨fun hhandles i hi => ?_, fun hreads hliteral i hi => ?_⟩
  · obtain ⟨d, hd, hvirtual⟩ := h.place hhandles i hi
    exact ⟨d, getElem?_of_prefix (L.scope hq (.inl hhandles)) hd, hvirtual⟩
  · obtain ⟨d, hd, htext⟩ := h.text hreads hliteral i hi
    exact ⟨d, getElem?_of_prefix (L.scope hq (.inr hreads)) hd, htext⟩

theorem Holds.mono (h : L.Holds literal c p) (hq : L.Later p q) : L.Holds literal c q :=
  ⟨h.toPoints.mono hq, fun hc => (h.failed hc).mono hq⟩

theorem Typed.mono (h : L.Typed c type p) (hq : L.Later p q) : L.Typed c type q := by
  refine ⟨fun hseen i hi => ?_, h.known⟩
  obtain ⟨d, hd, htype⟩ := h.sees hseen i hi
  exact ⟨d, getElem?_of_prefix (L.scope hq hseen) hd, htype⟩

theorem Operand.mono (h : L.Operand c type u p) (hq : L.Later p q) : L.Operand c type u q := by
  intro hseen
  obtain ⟨d, ⟨i, hi, hd⟩, hrest⟩ := h hseen
  exact ⟨d, ⟨i, hi, getElem?_of_prefix (L.scope hq hseen) hd⟩, hrest⟩

theorem Folds.mono (h : L.Folds p e arguments type) (hq : L.Later p q) :
    L.Folds q e arguments type := by
  cases h with
  | leaf hoperands hnumber hscalar => exact .leaf hoperands hnumber hscalar
  | unary ha hop hcheck hscalar => exact .unary (ha.mono hq) hop hcheck hscalar
  | swizzle ha hcount hkind hscalar => exact .swizzle (ha.mono hq) hcount hkind hscalar
  | binary ha hb hop hfirst hsecond hscalar =>
    exact .binary (ha.mono hq) (hb.mono hq) hop hfirst hsecond hscalar
  | clamp ha hb hc hlax hfirst hscalar =>
    exact .clamp (ha.mono hq) (hb.mono hq) (hc.mono hq) hlax hfirst hscalar

theorem Reading.mono {cs : List Code} {ts : List String} (h : L.Reading literal cs type ts p)
    (hq : L.Later p q) : L.Reading literal cs type ts q :=
  ⟨fun c hc => (h.codes c hc).mono hq, fun htype => (h.typed htype).mono hq, fun t ht =>
    Reads.mono (h.texts t ht) hq⟩

theorem Folds.isTexture_eq {C : ctx.Concerns} (h : C.Folds p e arguments type) :
    e.isTexture = false := by
  cases h with
  | leaf _ hnumber => exact hnumber
  | _ => rfl

end Concerns

namespace Logic

open Concerns

variable {ctx : Context} (L : ctx.Logic) {α β : Type} {m : PassM α} {f : α → PassM β}
variable {p q : Pass} {Q S : α → Pass → Prop} {R : β → Pass → Prop} {literal : Bool}
variable {a b c : Code} {type : ValueType} {text : String} {cs : List Code} {ts : List String}
variable {problem : Problem} {u : Uniform} {pattern : String} {op : BinaryOp}
variable {greater less equal threshold : Code}

/-! ### Steps -/

theorem mono (hm : L.Ends p m Q) (h : ∀ a q, L.Later p q → Q a q → S a q) : L.Ends p m S := by
  have hend := L.bind hm fun a q hq ha => L.pure (h a q hq ha)
  rwa [bind_pure] at hend

/-- A step that leaves the state as it is. -/
theorem read {T : α → Prop} (hm : L.Ends p m fun a q => q = p ∧ T a)
    (hf : ∀ a, T a → L.Ends p (f a) R) : L.Ends p (m >>= f) R :=
  L.bind hm fun a _ _ ⟨hq, ha⟩ => hq.symm ▸ hf a ha

/-- There is no code, and that was reported. -/
theorem missing (h : L.Failed p) : L.Ends p (Pure.pure none) (L.Holds literal) :=
  L.pure (.of_failed h)

theorem reported (h : problem.isOrdinary) : L.Ends p (ctx.report problem) (L.Holds literal) :=
  L.mono (L.report h) fun _ _ _ hc => hc.1.of_literal

/-- Something is reported besides. -/
theorem report_bind (h : problem.isOrdinary) {f : Code → PassM β}
    (hf : ∀ c q, L.Failed q → L.Ends q (f c) R) : L.Ends p (ctx.report problem >>= f) R :=
  L.bind (L.report h) fun c q _ hq => hf c q hq.2

theorem register {u : Pass → Pass} (hu : ctx.Registers u) {f : PUnit → PassM β}
    (hf : ∀ q, L.Later p q → L.Ends q (f ⟨⟩) R) : L.Ends p (modify u >>= f) R :=
  L.bind (L.registers hu) fun _ q hq _ => hf q hq

/-! ### Reading -/

theorem chunk_bind {i : Nat} (h : L.Points literal (some i) p) {f : Chunk → PassM β}
    (hf : ∀ d, L.Sight i d p → L.Ends p (f d) R) : L.Ends p (ctx.chunk i >>= f) R :=
  L.read (L.chunk h.weaken) hf

theorem typeOf (h : L.Points literal c p) :
    L.Ends p (ctx.typeOf c) fun type q => q = p ∧ L.Typed c type p := by
  cases c with
  | none => exact L.pure ⟨rfl, fun _ => nofun, fun _ => nofun⟩
  | some i =>
    refine L.chunk_bind h fun d hd => L.pure ⟨rfl, fun hseen j hj => ?_, fun hloud _ => ?_⟩
    · cases hj
      exact ⟨d, hd.found hseen, rfl⟩
    · exact hd.known hloud

theorem uniformOf (h : L.Points literal c p) :
    L.Ends p (ctx.uniformOf c) fun u? q => q = p ∧ ∀ u, u? = some u → L.Stands c u p := by
  cases c with
  | none => exact L.pure ⟨rfl, nofun⟩
  | some i =>
    refine L.chunk_bind h fun d hd => L.pure ⟨rfl, fun u hu => ⟨fun hseen => ?_, ?_⟩⟩
    · exact ⟨d, ⟨i, rfl, hd.found hseen⟩, hu⟩
    · intro hreads _ j hj
      cases hj
      exact ⟨d, hd.found (.inr hreads), (hd.literal (by simp [hu]) hreads).literal⟩

theorem constantOf (h : L.Points literal c p) :
    L.Ends p (ctx.constantOf c) fun _ q => q = p ∧ True := by
  cases c with
  | none => exact L.pure ⟨rfl, trivial⟩
  | some i => exact L.chunk_bind h fun _ _ => L.pure ⟨rfl, trivial⟩

theorem readOff {i : Nat} {f : Chunk → β} (h : L.Points literal (some i) p)
    (hf : ∀ d q, L.Reads literal (plainText d) q → R (f d) q) : L.Ends p (ctx.readOff f i) R := by
  refine L.chunk_bind h fun d hd => ?_
  split
  · refine L.bind (L.readSlot h.weaken) fun r q _ ⟨hr, hsome⟩ => ?_
    split
    case h_1 j =>
      refine L.chunk_bind hr.toPoints fun e he => L.pure (hf _ _ fun hreads => ?_)
      exact .of_literal (he.text hr.toPoints hreads).literal
    case h_2 => exact L.throw rfl fun hstrict => by cases hsome hstrict
  · exact L.pure (hf _ _ (hd.text h))

theorem textOf (h : L.Points literal c p) : L.Ends p (ctx.textOf c) (L.Reads literal) := by
  cases c with
  | none => exact L.pure fun _ => .fixed (by decide)
  | some i => exact L.readOff h fun _ _ => id

theorem digestOf (h : L.Points literal c p) : L.Ends p (ctx.digestOf c) fun _ _ => True := by
  cases c with
  | none => exact L.pure trivial
  | some i => exact L.readOff h fun _ _ _ => trivial

/-! ### Emission -/

/-- Text of a type that is known. -/
theorem emitKnown (h : type ≠ .textureVirtual ∧ type ≠ .unknown) (htext : L.Reads false text p) :
    L.Ends p (ctx.emitInline type text) L.Good :=
  L.emitInline h.1 (fun htype => absurd htype h.2) htext nofun

theorem emitFixed (h : type ≠ .textureVirtual ∧ type ≠ .unknown)
    (htext : Text.isFixed text = true) : L.Ends p (ctx.emitInline type text) L.Good :=
  L.emitKnown h fun _ => .fixed htext

theorem emitFloat (h : type.isFloat) (htext : L.Reads literal text p)
    (hplaced : literal = true → L.Placed p) :
    L.Ends p (ctx.emitInline type text) (L.Holds literal) :=
  L.emitInline (ne_textureVirtual_of_isFloat h) (fun htype => absurd htype (known_of_isFloat h))
    htext hplaced

theorem emitTemporary (htype : type = .unknown → L.Failed p) (htext : L.Reads false text p)
    (hsolid : text ≠ "") : L.Ends p (ctx.emitTemporary type text) L.Good :=
  L.mono (L.emitWith htype htext hsolid) fun _ _ _ h => h.1

/-- A pattern filled with the texts that were read. -/
theorem emitFilled (hpattern : Text.Fills pattern) (h : L.Reading false cs type ts p) :
    L.Ends p (ctx.emitTemporary type (Text.fill pattern ts)) L.Good :=
  L.emitTemporary h.typed (h.fill hpattern.1) (Text.fill_ne_empty hpattern.2 ts)

/-- A folded expression. -/
theorem emitMath {arguments : List SharedUniform} {operands : PassM (List String)}
    (hu : L.Folds p u arguments type) (hpattern : Text.isPattern pattern = true)
    (htype : type = .unknown → L.Failed p)
    (hoperands : L.Ends p operands (L.Reading true cs type)) :
    L.Ends p (ctx.emitMath u arguments type pattern operands) L.Good := by
  unfold Context.emitMath
  split
  · refine L.bind hoperands fun ts q hq h => ?_
    exact L.emitUniform (hu.mono hq) h.typed (h.fill hpattern)
  · exact L.emitUniform hu htype fun _ => .fixed (by decide)

/-- An expression without operands that is no texture. -/
theorem emitLeaf {digest : Digest} (hu : u.operands = [] ∧ u.isTexture = false)
    (hscalar : L.handles → u.Coherent ∧ (type = .float → u.isScalar))
    (htype : type = .unknown → L.Failed p) (htext : L.Reads true text p) :
    L.Ends p (ctx.emitUniform u [] type digest text) L.Good :=
  L.emitUniform (.leaf hu.1 hu.2 hscalar) htype htext

/-! ### Casts -/

theorem convertPlain (h : L.Holds literal c p) (hplaced : literal = true → L.Placed p)
    (source target : ValueType) :
    L.Ends p (ctx.convertPlain c source target) (L.Holds literal) := by
  have htext := L.textOf h.toPoints
  unfold Context.convertPlain
  split
  case isTrue hfloats =>
    have htarget : target.isFloat := (Bool.and_eq_true_iff.1 hfloats).2
    split
    · refine L.bind htext fun t q hq ht => ?_
      refine L.emitFloat htarget (fun hreads => ?_) fun hliteral => (hplaced hliteral).mono hq
      exact Text.Reads.before (ht hreads) (isBack_componentSuffix _)
    split
    · split
      · exact L.reported rfl
      · refine L.bind htext fun t q hq ht => ?_
        refine L.emitFloat htarget (fun hreads => ?_) fun hliteral => (hplaced hliteral).mono hq
        exact Text.Reads.between (reads_repeated _ (ht hreads)) (isFront_sourceName _) (by decide)
    · exact L.pure h
  split
  · exact L.pure h
  · exact L.reported rfl

theorem convert (h : L.Holds literal c p) (target : ValueType) :
    L.Ends p (ctx.convert c target) (L.Holds literal) := by
  cases c with
  | none => exact L.pure h
  | some i =>
    refine L.chunk_bind h.toPoints fun d hd => ?_
    dsimp only
    split
    · exact L.pure h
    split
    · split
      · exact L.pure h
      · refine L.bind (L.readSlot h.toPoints.weaken) fun r q hq ⟨hr, _⟩ => ?_
        exact L.convertPlain hr.of_literal (fun _ => hd.placed.mono hq) _ _
    · exact L.convertPlain h (fun _ => hd.placed) _ _

theorem resizePlain (h : L.Good c p) (target : ValueType) (flags : ResizeFlags) :
    L.Ends p (ctx.resizePlain c target flags) L.Good := by
  refine L.read (L.typeOf h.toPoints) fun source _ => ?_
  split
  · exact L.pure h
  split
  · exact L.pure h
  split
  case isTrue hfloats =>
    have htarget : target.isFloat := (Bool.and_eq_true_iff.1 hfloats).2
    refine L.bind (L.textOf h.toPoints) fun t q hq ht => ?_
    split
    · refine L.emitFloat htarget (fun hreads => ?_) nofun
      exact Text.Reads.before (ht hreads) (isBack_componentSuffix _)
    split
    · refine L.emitFloat htarget (fun hreads => ?_) nofun
      refine Text.Reads.between (.intercalate (by decide) (by decide) fun s hs => ?_)
        (isFront_sourceName _) (by decide)
      rcases List.mem_cons.1 hs with rfl | hs
      · exact ht hreads
      · rw [(List.mem_replicate.1 hs).2]
        split
        · exact ht hreads
        · exact .fixed (by decide)
    · exact L.pure (h.mono hq)
  split
  · exact L.pure h
  · exact L.reported rfl

theorem resize (h : L.Good c p) (target : ValueType) (flags : ResizeFlags) :
    L.Ends p (ctx.resize c target flags) L.Good := by
  cases c with
  | none => exact L.pure h
  | some i =>
    refine L.chunk_bind h.toPoints fun d hd => ?_
    split
    · exact L.bind (L.readSlot h.toPoints) fun r q _ hr => L.resizePlain hr.1.weaken _ _
    · exact L.resizePlain h _ _

/-- The text of an operand. -/
theorem widened (h : L.Points literal c p) (target : ValueType) :
    L.Ends p (ctx.widened c target) (L.Reads literal) := by
  refine L.read (L.typeOf h) fun source _ => ?_
  split
  · exact L.textOf h
  split
  · refine L.bind (L.textOf h) fun t q _ ht => ?_
    split
    · exact L.pure fun hreads => Text.Reads.between (ht hreads) (by decide) (by decide)
    split
    · exact L.pure fun hreads => Text.Reads.between (reads_repeated _ (ht hreads))
        (isFront_sourceName _) (by decide)
    · exact L.pure ht
  · exact L.bind (L.textOf h) fun _ _ _ _ => L.report_bind rfl fun _ _ _ =>
      L.pure fun _ => .fixed (by decide)

/-- An arithmetic expression has a type if its operands are numbers; and if not, that was
reported. -/
theorem commonType (s t : ValueType) :
    L.Ends p (ctx.commonType s t) fun type q =>
      (type = .unknown → L.Failed q) ∧ (type ≠ .unknown → isNumeric s ∧ isNumeric t) ∧
        (type = .float → s = .float ∧ t = .float) := by
  unfold Context.commonType
  split
  case h_1 type htype =>
    obtain ⟨hs, ht, hknown, hfloat⟩ := arithmeticType_ok htype
    exact L.pure ⟨fun h => absurd h hknown, fun _ => ⟨hs, ht⟩, hfloat⟩
  case h_2 problem hproblem =>
    exact L.report_bind (arithmeticType_error hproblem) fun _ _ hq =>
      L.pure ⟨fun _ => hq, fun h => absurd rfl h, nofun⟩

/-! ### Literals and parameters -/

theorem constant (v : Value) (hv : L.handles → type = .float → v.IsScalar)
    (htype : type = .unknown → L.Failed p) : L.Ends p (ctx.constant v type) L.Good :=
  L.emitLeaf ⟨rfl, rfl⟩ (fun h => ⟨hv h, decide_eq_true⟩) htype fun _ => reads_value_literal v _

theorem constant1 (x : Single) : L.Ends p (ctx.constant1 x) L.Good :=
  L.constant _ (fun _ _ => Value.replicate_isScalar x) nofun

theorem constant2 (x y : Single) : L.Ends p (ctx.constant2 x y) L.Good :=
  L.constant _ (fun _ => nofun) nofun

theorem constant3 (x y z : Single) : L.Ends p (ctx.constant3 x y z) L.Good :=
  L.constant _ (fun _ => nofun) nofun

theorem constant4 (v : Value) : L.Ends p (ctx.constant4 v) L.Good :=
  L.constant v (fun _ => nofun) nofun

theorem scalarParameter (name : String) (default : Single) :
    L.Ends p (ctx.scalarParameter name default) L.Good :=
  L.emitLeaf ⟨rfl, rfl⟩ (fun _ => ⟨trivial, fun _ => rfl⟩) nofun fun _ => .fixed (by decide)

theorem vectorParameter (name : String) (default : Value) :
    L.Ends p (ctx.vectorParameter name default) L.Good :=
  L.emitLeaf ⟨rfl, rfl⟩ (fun _ => ⟨trivial, nofun⟩) nofun fun _ => .fixed (by decide)

theorem staticBool (value : Bool) : L.Ends p (ctx.staticBool value) L.Good :=
  L.emitFixed (by decide) (by cases value <;> decide)

/-- Without the value of a static boolean something was reported. -/
theorem staticBoolValue (h : L.Good c p) :
    L.Ends p (ctx.staticBoolValue c) fun value q => value = none → L.Failed q := by
  unfold Context.staticBoolValue
  split
  case isTrue hc => exact L.pure fun _ => h.absent hc
  refine L.read (L.typeOf h.toPoints) fun type _ => ?_
  split
  · exact L.report_bind rfl fun _ _ hq => L.pure fun _ => hq
  · exact L.bind (L.textOf h.toPoints) fun _ _ _ _ => L.pure nofun

/-! ### Operands -/

theorem textOf_bind (h : L.Reading literal cs type ts p) (hc : c ∈ cs) {f : String → PassM β}
    (hf : ∀ s q, L.Later p q → L.Reading literal cs type (ts ++ [s]) q → L.Ends q (f s) R) :
    L.Ends p (ctx.textOf c >>= f) R :=
  L.bind (L.textOf (h.codes c hc)) fun s q hq hs => hf s q hq ((h.mono hq).concat hs)

theorem widened_bind (h : L.Reading literal cs type ts p) (hc : c ∈ cs) (target : ValueType)
    {f : String → PassM β}
    (hf : ∀ s q, L.Later p q → L.Reading literal cs type (ts ++ [s]) q → L.Ends q (f s) R) :
    L.Ends p (ctx.widened c target >>= f) R :=
  L.bind (L.widened (h.codes c hc) target) fun s q hq hs => hf s q hq ((h.mono hq).concat hs)

/-- The text of a single operand. -/
theorem operand (h : L.Reading literal cs type [] p) (hc : c ∈ cs) :
    L.Ends p (do return [← ctx.textOf c]) (L.Reading literal cs type) :=
  L.textOf_bind h hc fun _ _ _ h => L.pure h

theorem textsOf (h : L.Reading literal cs type [] p) (ha : a ∈ cs) (hb : b ∈ cs) :
    L.Ends p (ctx.textsOf a b) (L.Reading literal cs type) :=
  L.textOf_bind h ha fun _ _ _ h => L.textOf_bind h hb fun _ _ _ h => L.pure h

/-! ### The four operations -/

theorem arithmetic (hop : op.count ≤ 4 ∧ op.yieldsScalar) (hpattern : Text.Fills pattern)
    (ha : L.Good a p) (hb : L.Good b p) : L.Ends p (ctx.arithmetic op pattern a b) L.Good := by
  unfold Context.arithmetic
  split
  case isTrue h => exact L.missing (failed_or ha.absent hb.absent h)
  refine L.read (L.typeOf ha.toPoints) fun s hs => L.read (L.typeOf hb.toPoints) fun t ht => ?_
  refine L.bind (L.commonType s t) fun type q hq ⟨htype, hnumeric, hscalar⟩ => ?_
  have ha := (ha.mono hq).toPoints
  have hb := (hb.mono hq).toPoints
  refine L.read (L.uniformOf ha) fun u? hu => L.read (L.uniformOf hb) fun v? hv => ?_
  split
  case h_1 u v =>
    have hu := hu u rfl
    have hv := hv v rfl
    refine L.emitMath (.binary (hu.operand (hs.mono hq)) (hv.operand (ht.mono hq)) hop.1
      (.inl fun h _ => ?_) (.inl fun h _ => ?_) fun h => ?_) hpattern.1 htype
      (L.textsOf (.cons (hu.points ha) (.cons (hv.points hb) (.nil htype))) (by simp) (by simp))
    · exact ValueType.isTextureKind_of_isNumeric (hnumeric h).1
    · exact ValueType.isTextureKind_of_isNumeric (hnumeric h).2
    · exact ⟨hop.2, fun _ => (hscalar h).1, fun _ => (hscalar h).2⟩
  case h_2 =>
    have h : L.Reading false [a, b] type [] q := .cons ha (.cons hb (.nil htype))
    refine L.bind (L.digestOf ha) fun _ q₁ h₁ _ => ?_
    refine L.bind (L.digestOf (hb.mono h₁)) fun _ q₂ h₂ _ => ?_
    refine L.bind (L.textsOf ((h.mono h₁).mono h₂) (by simp) (by simp)) fun ts r _ h => ?_
    exact L.mono (L.emitWith h.typed (h.fill hpattern.1) (Text.fill_ne_empty hpattern.2 ts))
      fun _ _ _ hc => hc.1

/-! ### Products of vectors -/

theorem dotOperand (h : L.Holds literal c p) (target : ValueType) :
    L.Ends p (ctx.dotOperand c target) (L.Reads literal) := by
  refine L.read (L.typeOf h.toPoints) fun source _ => ?_
  split
  · exact L.bind (L.convert h target) fun r q _ hr => L.textOf hr.toPoints
  · exact L.widened h.toPoints target

theorem dotOperands (ha : L.Holds literal a p) (hb : L.Holds literal b p) (s t : ValueType) :
    L.Ends p (ctx.dotOperands a b s t) (L.Reading literal [] .float) := by
  have hfloat : ∀ q, L.Reading literal [] .float [] q := fun _ => .nil nofun
  unfold Context.dotOperands
  split
  · refine L.bind (L.dotOperand ha t) fun x q hq hx => ?_
    exact L.bind (L.textOf (hb.mono hq).toPoints) fun y r hr hy =>
      L.pure (((hfloat r).concat (Reads.mono hx hr)).concat hy)
  · refine L.bind (L.textOf ha.toPoints) fun x q hq hx => ?_
    exact L.bind (L.dotOperand (hb.mono hq) s) fun y r hr hy =>
      L.pure (((hfloat r).concat (Reads.mono hx hr)).concat hy)

theorem dot (hlax : L.lax) (ha : L.Good a p) (hb : L.Good b p) :
    L.Ends p (ctx.dot a b) L.Good := by
  unfold Context.dot
  split
  case isTrue h => exact L.missing (failed_or ha.absent hb.absent h)
  refine L.read (L.typeOf ha.toPoints) fun s hs => L.read (L.typeOf hb.toPoints) fun t ht => ?_
  refine L.read (L.uniformOf ha.toPoints) fun u? hu => ?_
  refine L.read (L.uniformOf hb.toPoints) fun v? hv => ?_
  split
  case h_1 u v =>
    have hu := hu u rfl
    have hv := hv v rfl
    have ha' := hu.points ha.toPoints
    have hb' := hv.points hb.toPoints
    split
    case isTrue hscalars =>
      simp only [Bool.and_eq_true, decide_eq_true_eq] at hscalars
      refine L.emitMath (.binary (hu.operand hs) (hv.operand ht) (by decide) (.inl fun _ _ => ?_)
        (.inl fun _ _ => ?_) fun _ => ?_) (by decide) nofun
        (L.textsOf (.cons ha' (.cons hb' (.nil nofun))) (by simp) (by simp))
      · rw [hscalars.1]
        decide
      · rw [hscalars.2]
        decide
      · exact ⟨rfl, fun _ => hscalars.1, fun _ => hscalars.2⟩
    case isFalse =>
      exact L.emitMath (.binary (hu.operand hs) (hv.operand ht) (components_le _)
        (.inr ⟨hlax, rfl⟩) (.inr ⟨hlax, rfl⟩) fun _ => ⟨rfl, nofun, nofun⟩) (by decide) nofun
        (L.dotOperands ⟨ha', ha.failed⟩ ⟨hb', hb.failed⟩ s t)
  case h_2 => exact L.bind (L.dotOperands ha hb s t) fun _ _ _ h => L.emitFilled (by decide) h

theorem cross (ha : L.Good a p) (hb : L.Good b p) : L.Ends p (ctx.cross a b) L.Good := by
  unfold Context.cross
  split
  case isTrue h => exact L.missing (failed_or ha.absent hb.absent h)
  refine L.read (L.uniformOf ha.toPoints) fun u? hu => ?_
  refine L.read (L.uniformOf hb.toPoints) fun v? hv => ?_
  split
  case h_1 u v =>
    refine L.read (L.typeOf ha.toPoints) fun s hs => L.read (L.typeOf hb.toPoints) fun t ht => ?_
    have hu := hu u rfl
    have hv := hv v rfl
    refine L.bind (L.commonType s t) fun type q hq ⟨_, hnumeric, _⟩ => ?_
    split
    · exact L.reported rfl
    case isFalse htypes =>
      obtain ⟨hs', ht'⟩ := hnumeric fun h => htypes (by rw [h]; decide)
      exact L.emitMath (.binary ((hu.operand hs).mono hq) ((hv.operand ht).mono hq) (by decide)
        (.inl fun _ _ => ValueType.isTextureKind_of_isNumeric hs')
        (.inl fun _ _ => ValueType.isTextureKind_of_isNumeric ht') nofun) (by decide) nofun
        (L.textsOf (.cons ((hu.points ha.toPoints).mono hq)
          (.cons ((hv.points hb.toPoints).mono hq) (.nil nofun))) (by simp) (by simp))
  case h_2 =>
    have h : L.Reading false [a, b] .float3 [] p :=
      .cons ha.toPoints (.cons hb.toPoints (.nil nofun))
    exact L.widened_bind h (by simp) _ fun _ _ _ h => L.widened_bind h (by simp) _ fun _ _ _ h =>
      L.emitFilled (by decide) h

/-! ### Functions -/

theorem power (ha : L.Good a p) (hb : L.Good b p) : L.Ends p (ctx.power a b) L.Good := by
  unfold Context.power
  split
  case isTrue h => exact L.missing (failed_or ha.absent hb.absent h)
  refine L.read (L.typeOf ha.toPoints) fun type htype => ?_
  have h : L.Reading false [a, b] type [] p :=
    .cons ha.toPoints (.cons hb.toPoints (.nil (htype.failed ha)))
  exact L.textOf_bind h (by simp) fun _ _ _ h => L.widened_bind h (by simp) _ fun _ _ _ h =>
    L.emitFilled (by decide) h

theorem unaryAs {uop : UnaryOp} {s : ValueType} (h : L.Points literal c p)
    (htype : type = .unknown → L.Failed p)
    (hu : ∀ u, L.Operand c s u p → L.Folds p (.unary uop type u.expr) [u] type)
    (hs : L.Typed c s p) : L.Ends p (ctx.unaryAs uop type c) L.Good := by
  have hpattern : Text.Fills (uop.opcode.name ++ "(%s)") := by
    cases uop.opcode <;> decide
  refine L.read (L.uniformOf h) fun u? hstands => ?_
  split
  case h_1 u =>
    have hstands := hstands u rfl
    exact L.emitMath (hu u (hstands.operand hs)) hpattern.1 htype
      (L.operand (.cons (hstands.points h) (.nil htype)) (by simp))
  case h_2 =>
    exact L.bind (L.operand (.cons h.weaken (.nil htype)) (by simp)) fun _ _ _ h =>
      L.emitFilled hpattern h

theorem unary {uop : UnaryOp} (hop : uop.count ≤ 4) (h : L.Good c p) :
    L.Ends p (ctx.unary uop c) L.Good := by
  unfold Context.unary
  split
  case isTrue hc => exact L.missing (h.absent hc)
  refine L.read (L.typeOf h.toPoints) fun type htype => ?_
  refine L.unaryAs h.toPoints (htype.failed h) (fun u hu => ?_) htype
  exact .unary hu hop (.inl fun _ => ValueType.isTextureKind_of_isTexture) fun h _ => h

theorem length (hlax : L.lax) (h : L.Good c p) : L.Ends p (ctx.length c) L.Good := by
  unfold Context.length
  split
  case isTrue hc => exact L.missing (h.absent hc)
  refine L.read (L.typeOf h.toPoints) fun type htype => ?_
  refine L.unaryAs h.toPoints nofun (fun u hu => ?_) htype
  exact .unary hu (components_le _) (.inr ⟨hlax, rfl⟩) fun _ => nofun

theorem binaryOfFirst (hlax : L.lax) (hop : op.count ≤ 4 ∧ op.yieldsScalar)
    (hsecond : op.checksSecond = false) (hpattern : Text.Fills pattern) (ha : L.Good a p)
    (hb : L.Good b p) : L.Ends p (ctx.binaryOfFirst op pattern a b) L.Good := by
  unfold Context.binaryOfFirst
  split
  case isTrue h => exact L.missing (failed_or ha.absent hb.absent h)
  refine L.read (L.typeOf ha.toPoints) fun type htype => ?_
  refine L.read (L.uniformOf ha.toPoints) fun u? hu => ?_
  refine L.read (L.uniformOf hb.toPoints) fun v? hv => ?_
  have hoperands : ∀ literal, L.Points literal a p → L.Points literal b p → L.Ends p (do
      let s ← ctx.textOf a
      let t ← ctx.widened b type
      return [s, t]) (L.Reading literal [a, b] type) := fun literal ha' hb' =>
    L.textOf_bind (.cons ha' (.cons hb' (.nil (htype.failed ha)))) (by simp) fun _ _ _ h =>
      L.widened_bind h (by simp) _ fun _ _ _ h => L.pure h
  split
  case h_1 u v =>
    have hu := hu u rfl
    have hv := hv v rfl
    obtain ⟨t, ht⟩ := hv.exists_operand
    exact L.emitMath (.binary (hu.operand htype) ht hop.1
      (.inl fun _ => ValueType.isTextureKind_of_isTexture) (.inr ⟨hlax, hsecond⟩)
      fun h => ⟨hop.2, fun _ => h, by simp [hsecond]⟩) hpattern.1 (htype.failed ha)
      (hoperands true (hu.points ha.toPoints) (hv.points hb.toPoints))
  case h_2 =>
    exact L.bind (hoperands false ha.toPoints hb.toPoints) fun _ _ _ h => L.emitFilled hpattern h

theorem clamp (hlax : L.lax) {lo hi : Code} (hc : L.Good c p) (hlo : L.Good lo p)
    (hhi : L.Good hi p) : L.Ends p (ctx.clamp c lo hi) L.Good := by
  unfold Context.clamp
  split
  case isTrue h => exact L.missing (failed_or (failed_or hc.absent hlo.absent) hhi.absent h)
  refine L.read (L.typeOf hc.toPoints) fun type htype => ?_
  refine L.read (L.uniformOf hc.toPoints) fun u? hu => ?_
  refine L.read (L.uniformOf hlo.toPoints) fun v? hv => ?_
  refine L.read (L.uniformOf hhi.toPoints) fun w? hw => ?_
  have hoperands : ∀ literal, L.Points literal c p → L.Points literal lo p →
      L.Points literal hi p → L.Ends p (do
        let s ← ctx.textOf c
        let t ← ctx.widened lo type
        let r ← ctx.widened hi type
        return [s, t, r]) (L.Reading literal [c, lo, hi] type) := fun literal hc' hlo' hhi' =>
    L.textOf_bind (.cons hc' (.cons hlo' (.cons hhi' (.nil (htype.failed hc))))) (by simp)
      fun _ _ _ h => L.widened_bind h (by simp) _ fun _ _ _ h => L.widened_bind h (by simp) _
      fun _ _ _ h => L.pure h
  split
  case h_1 u v w =>
    have hu := hu u rfl
    have hv := hv v rfl
    have hw := hw w rfl
    obtain ⟨s, hs⟩ := hv.exists_operand
    obtain ⟨t, ht⟩ := hw.exists_operand
    exact L.emitMath (.clamp (hu.operand htype) hs ht hlax ValueType.isTextureKind_of_isTexture id)
      (by decide) (htype.failed hc) (hoperands true (hu.points hc.toPoints) (hv.points hlo.toPoints)
        (hw.points hhi.toPoints))
  case h_2 =>
    exact L.bind (hoperands false hc.toPoints hlo.toPoints hhi.toPoints) fun _ _ _ h =>
      L.emitFilled (by decide) h

/-! ### Choices -/

section

variable (ha : L.Good a p) (hb : L.Good b p)

include ha hb

theorem lerp {alpha : Code} (halpha : L.Good alpha p) : L.Ends p (ctx.lerp a b alpha) L.Good := by
  unfold Context.lerp
  split
  case isTrue h => exact L.missing (failed_or (failed_or ha.absent hb.absent) halpha.absent h)
  split
  · exact L.pure ha
  refine L.read (L.typeOf ha.toPoints) fun s _ => L.read (L.typeOf hb.toPoints) fun t _ =>
    L.read (L.constantOf ha.toPoints) fun _ _ => L.read (L.constantOf hb.toPoints) fun _ _ => ?_
  split
  · exact L.pure ha
  refine L.bind (L.commonType s t) fun type q hq ⟨htype, _⟩ => ?_
  have ha := ha.mono hq
  have hb := hb.mono hq
  have halpha := halpha.mono hq
  refine L.read (L.typeOf halpha.toPoints) fun r _ => L.read (L.constantOf halpha.toPoints)
    fun v? _ => ?_
  dsimp only
  split
  case h_1 c hc =>
    -- A constant selects one of the two values.
    have hselected : c = a ∨ c = b := by grind
    rcases hselected with rfl | rfl
    · exact L.pure ha
    · exact L.pure hb
  · have h : L.Reading false [a, b, alpha] type [] q :=
      .cons ha.toPoints (.cons hb.toPoints (.cons halpha.toPoints (.nil htype)))
    exact L.widened_bind h (by simp) _ fun _ _ _ h => L.widened_bind h (by simp) _ fun _ _ _ h =>
      L.widened_bind h (by simp) _ fun _ _ _ h => L.emitFilled (by decide) h

theorem chooseTwo (hg : L.Good greater p) (hl : L.Good less p) :
    L.Ends p (ctx.chooseTwo a b greater less) L.Good := by
  refine L.read (L.typeOf hg.toPoints) fun s _ => L.read (L.typeOf hl.toPoints) fun t _ =>
    L.bind (L.commonType s t) fun type q hq ⟨htype, _⟩ => ?_
  refine L.bind (L.resize (hg.mono hq) type {}) fun g q₁ h₁ hg => ?_
  refine L.bind (L.resize ((hl.mono hq).mono h₁) type {}) fun l r h₂ hl => ?_
  have hg := hg.mono h₂
  split
  case isTrue h => exact L.missing (failed_or hg.absent hl.absent h)
  have hr := L.trans (L.trans hq h₁) h₂
  have h : L.Reading false [a, b, g, l] type [] r :=
    .cons (ha.mono hr).toPoints (.cons (hb.mono hr).toPoints (.cons hg.toPoints
      (.cons hl.toPoints (.nil fun h => (htype h).mono (L.trans h₁ h₂)))))
  exact L.textOf_bind h (by simp) fun _ _ _ h => L.textOf_bind h (by simp) fun _ _ _ h =>
    L.textOf_bind h (by simp) fun _ _ _ h => L.textOf_bind h (by simp) fun _ _ _ h =>
      L.emitFilled (by decide) h

theorem chooseThree (hg : L.Good greater p)
    (he : L.Good equal p) (hl : L.Good less p) (ht : L.Good threshold p) :
    L.Ends p (ctx.chooseThree a b greater equal less threshold) L.Good := by
  unfold Context.chooseThree
  split
  case isTrue h => exact L.missing (ht.absent h)
  refine L.read (L.typeOf he.toPoints) fun s _ => L.read (L.typeOf hl.toPoints) fun t _ =>
    L.bind (L.commonType s t) fun inner q hq _ => ?_
  refine L.read (L.typeOf (hg.mono hq).toPoints) fun s _ =>
    L.bind (L.commonType s inner) fun type q₀ h₀ ⟨htype, _⟩ => ?_
  have h₀ := L.trans hq h₀
  refine L.bind (L.resize (hg.mono h₀) type {}) fun g q₁ h₁ hg => ?_
  refine L.bind (L.resize ((he.mono h₀).mono h₁) type {}) fun e q₂ h₂ he => ?_
  have h₂ := L.trans h₁ h₂
  refine L.bind (L.resize ((hl.mono h₀).mono h₂) type {}) fun l r h₃ hl => ?_
  have hg := hg.mono (L.trans ‹_› h₃)
  have he := he.mono h₃
  split
  case isTrue h => exact L.missing (failed_or (failed_or hg.absent he.absent) hl.absent h)
  have hr := L.trans h₀ (L.trans h₂ h₃)
  have h : L.Reading false [a, b, threshold, g, l, e] type [] r :=
    .cons (ha.mono hr).toPoints (.cons (hb.mono hr).toPoints (.cons (ht.mono hr).toPoints
      (.cons hg.toPoints (.cons hl.toPoints (.cons he.toPoints
        (.nil fun h => (htype h).mono (L.trans h₂ h₃)))))))
  exact L.textOf_bind h (by simp) fun _ _ _ h => L.textOf_bind h (by simp) fun _ _ _ h =>
    L.textOf_bind h (by simp) fun _ _ _ h => L.textOf_bind h (by simp) fun _ _ _ h =>
    L.textOf_bind h (by simp) fun _ _ _ h => L.textOf_bind h (by simp) fun _ _ _ h =>
    L.textOf_bind h (by simp) fun _ _ _ h => L.textOf_bind h (by simp) fun _ _ _ h =>
      L.emitFilled (by decide) h

theorem choose (hg : L.Good greater p)
    (he : equal.isSome → L.Good equal p) (hl : L.Good less p)
    (ht : equal.isSome → L.Good threshold p) :
    L.Ends p (ctx.choose a b greater equal less threshold) L.Good := by
  unfold Context.choose
  split
  case isTrue h =>
    exact L.missing (failed_or (failed_or (failed_or ha.absent hb.absent) hg.absent) hl.absent h)
  split
  case isTrue h => exact L.chooseThree ha hb hg (he h) hl (ht h)
  case isFalse => exact L.chooseTwo ha hb hg hl

end

/-! ### Components -/

theorem componentMask (h : L.Good c p) (mask : Mask) :
    L.Ends p (ctx.componentMask c mask) L.Good := by
  unfold Context.componentMask
  split
  case isTrue hc => exact L.missing (h.absent hc)
  refine L.read (L.typeOf h.toPoints) fun type htype => ?_
  split
  · exact L.bind (L.textOf h.toPoints) fun _ _ _ _ => L.reported rfl
  case isFalse hcomponents =>
  dsimp only
  generalize hsources : (mask.selected.map fun i => if type = .float then 0 else i) = sources
  have hlength : sources.length = mask.selected.length := by rw [← hsources, List.length_map]
  split
  · exact L.reported rfl
  case isFalse hempty =>
  have hmask : mask.selected ≠ [] := by
    intro hnil
    rw [hnil] at hlength
    exact hempty (by simpa using hlength)
  have hknown : ValueType.ofComponents sources.length ≠ .unknown := by
    rw [hlength]
    exact ValueType.ofComponents_selected hmask
  have hoperands : ∀ literal, L.Points literal c p → L.Ends p (do
      return [← ctx.textOf c,
        String.ofList (sources.map fun i => ['r', 'g', 'b', 'a'].getD i 'r')])
      (L.Reading literal [c] (.ofComponents sources.length)) := fun literal hc =>
    L.textOf_bind (.cons hc (.nil fun h => absurd h hknown)) (by simp) fun _ _ _ h =>
      L.pure (h.concat fun _ => reads_componentLetters sources)
  refine L.read (L.uniformOf h.toPoints) fun u? hu => ?_
  split
  case h_1 u =>
    have hu := hu u rfl
    refine L.emitMath (.swizzle (hu.operand htype) ?_ ?_ ValueType.eq_one_of_ofComponents)
      (by decide) (absurd · hknown) (hoperands true (hu.points h.toPoints))
    · exact Nat.le_trans (Nat.le_of_eq hlength) (length_selected_le mask)
    · exact ValueType.isTextureKind_of_mask (Bool.eq_false_iff.2 hcomponents) hmask
  case h_2 =>
    refine L.bind (hoperands false h.toPoints) fun ts q _ h => ?_
    exact L.emitKnown ⟨ValueType.ofComponents_ne_textureVirtual _, hknown⟩ (h.fill (by decide))

theorem append (ha : L.Good a p) (hb : L.Good b p) : L.Ends p (ctx.append a b) L.Good := by
  unfold Context.append
  split
  case isTrue h => exact L.missing (failed_or ha.absent hb.absent h)
  refine L.read (L.typeOf ha.toPoints) fun s hs => L.read (L.typeOf hb.toPoints) fun t ht => ?_
  dsimp only
  split
  · exact L.reported rfl
  case isFalse htypes =>
  simp only [Bool.or_eq_true, decide_eq_true_eq, not_or] at htypes
  obtain ⟨⟨hs₀, ht₀⟩, hknown⟩ := htypes
  have hwide : ValueType.ofComponents (s.components + t.components) ≠ .float := fun h => by
    have hsum := ValueType.eq_one_of_ofComponents h
    omega
  have hpattern : Text.isPattern s!"MaterialFloat{s.components + t.components}(%s,%s)" = true := by
    have hn : s.components + t.components ≤ 8 :=
      Nat.add_le_add (components_le s) (components_le t)
    generalize s.components + t.components = n at hn ⊢
    match n with
    | 0 | 1 | 2 | 3 | 4 | 5 | 6 | 7 | 8 => decide
  refine L.read (L.uniformOf ha.toPoints) fun u? hu => ?_
  refine L.read (L.uniformOf hb.toPoints) fun v? hv => ?_
  split
  case h_1 u v =>
    have hu := hu u rfl
    have hv := hv v rfl
    exact L.emitMath (.binary (hu.operand hs) (hv.operand ht) (components_le s)
      (.inl fun _ _ => ValueType.isTextureKind_of_components hs₀)
      (.inl fun _ _ => ValueType.isTextureKind_of_components ht₀) (absurd · hwide)) hpattern
      (absurd · hknown)
      (L.textsOf (.cons (hu.points ha.toPoints) (.cons (hv.points hb.toPoints)
        (.nil (absurd · hknown)))) (by simp) (by simp))
  case h_2 =>
    have h : L.Reading false [a, b] (.ofComponents (s.components + t.components)) [] p :=
      .cons ha.toPoints (.cons hb.toPoints (.nil (absurd · hknown)))
    refine L.bind (L.textsOf h (by simp) (by simp)) fun ts q _ h => ?_
    exact L.emitKnown ⟨ValueType.ofComponents_ne_textureVirtual _, hknown⟩ (h.fill hpattern)

theorem maskOutput (h : L.Good c p) (e : Expression) (output : Int) :
    L.Ends p (ctx.maskOutput e output c) L.Good := by
  unfold Context.maskOutput
  split
  · exact L.componentMask h _
  · exact L.pure h

/-! ### What the renderer supplies -/

theorem vertexColor : L.Ends p ctx.vertexColor L.Good := by
  have hemit : ∀ q, L.Ends q (ctx.emitInline .float4 "Parameters.VertexColor") L.Good := fun _ =>
    L.emitFixed (by decide) (by decide)
  unfold Context.vertexColor
  split
  · exact L.register (.usage fun u => { u with vertexColor := true }) fun q _ => hemit q
  · exact hemit p

theorem positionIn {space : String} (h : ∀ without, Text.isFixed
    (ctx.positionFunction space without ++ "(Parameters)") = true) (without : Bool) :
    L.Ends p (ctx.positionIn space without) L.Good := by
  have hemit : ∀ q without, L.Ends q (do
      modify fun p => { p with usage := { p.usage with vertexPosition := true } }
      ctx.emitInline .float3 (ctx.positionFunction space without ++ "(Parameters)")) L.Good :=
    fun _ _ => L.register (.usage fun u => { u with vertexPosition := true }) fun _ _ =>
      L.emitFixed (by decide) (h _)
  unfold Context.positionIn
  dsimp only
  split
  · exact L.register (.usage fun u => { u with positionWithoutOffsets := true }) fun q _ =>
      hemit q _
  · exact hemit p _

theorem worldPosition (kind : WorldPosition) : L.Ends p (ctx.worldPosition kind) L.Good := by
  have hworld : ∀ without, Text.isFixed
      (ctx.positionFunction "WorldPosition" without ++ "(Parameters)") = true := by
    intro without
    unfold positionFunction
    split <;> split <;> decide
  have htranslated : ∀ without, Text.isFixed
      (ctx.positionFunction "TranslatedWorldPosition" without ++ "(Parameters)") = true := by
    intro without
    unfold positionFunction
    split <;> split <;> decide
  cases kind with
  | other code => exact L.reported rfl
  | plain => exact L.positionIn hworld false
  | withoutOffsets => exact L.positionIn hworld true
  | cameraRelative => exact L.positionIn htranslated false
  | cameraRelativeWithoutOffsets => exact L.positionIn htranslated true

theorem pixelDepth : L.Ends p ctx.pixelDepth L.Good := by
  unfold Context.pixelDepth
  split
  case h_1 | h_2 | h_3 => exact L.emitFixed (by decide) (by decide)
  case h_4 | h_5 => exact L.reported rfl

theorem textureCoordinate (index : Int) (mirror : Mirror) :
    L.Ends p (ctx.textureCoordinate index mirror) L.Good := by
  unfold Context.textureCoordinate
  split
  · exact L.reported rfl
  rename_i hrange
  have hplain : ∀ {q}, L.Reads false
      ("Parameters.TexCoords[" ++ toString index.toNat ++ "].xy") q := fun _ =>
    (Text.Reads.natText _).between (by decide) (by decide)
  refine L.register (.coordinate (by simp at hrange; omega)) fun q _ => ?_
  split
  case h_1 function hfunction =>
    refine L.emitKnown (by decide) fun hreads => Text.Reads.between (hplain hreads) ?_ (by decide)
    cases mirror <;> cases hfunction <;> decide
  case h_2 => exact L.emitKnown (by decide) hplain

theorem time (clock : Clock) (period? : Option Single) :
    L.Ends p (ctx.time clock period?) L.Good := by
  have hview : Text.isFixed ((if ctx.previousFrame then "View.PrevFrame" else "View.") ++
      clock.name) = true ∧ Text.isFront ("fmod(" ++ ((if ctx.previousFrame then "View.PrevFrame"
      else "View.") ++ clock.name) ++ ",") = true := by
    cases clock <;> split <;> decide
  unfold Context.time
  dsimp only
  split
  · exact L.emitFixed (by decide) hview.1
  split
  · exact L.constant1 _
  · refine L.bind (L.constant1 _) fun c q _ hc => L.bind (L.textOf hc.toPoints) fun t r _ ht => ?_
    exact L.emitKnown (by decide) fun hreads => Text.Reads.between (ht hreads) hview.2 (by decide)

theorem shadingModel (m : ShadingModel) : L.Ends p (ctx.shadingModel m) L.Good :=
  L.register (.shadingModel m) fun _ _ => L.emitKnown (by decide) fun _ => .natText _

/-! ### Properties -/

theorem compileDefault (property : Property) : L.Ends p (ctx.compileDefault property) L.Good := by
  cases property
  case shadingModel => exact L.shadingModel _
  case customizedUV index => exact L.textureCoordinate index.val .none
  case refraction => exact L.constant2 _ _
  all_goals
    first | exact L.constant1 _ | exact L.constant3 _ _ _

theorem castProperty (h : L.Good c p) (target : ValueType) :
    L.Ends p (ctx.castProperty c target) L.Good := by
  unfold Context.castProperty castLiteral
  split
  case isTrue hc => exact L.missing (h.absent hc)
  refine L.read (L.constantOf h.toPoints) fun v? _ => ?_
  split
  · refine L.read (L.typeOf h.toPoints) fun source _ => ?_
    dsimp only
    split
    · exact L.pure h
    split
    · exact L.componentMask h _
    · exact L.resize h _ _
  · exact L.resize h _ _

end Logic

end Context

end ShaderGraph
