import ShaderGraph.Proofs.Stacks

/-!
# Handles point into their scopes

Code is a handle: a place in a scope, or nothing. This module says what is asked of a state for its
handles to be good (`Pass.Fit`), and how to say of a step that it keeps them good.

`Context.Meets t p m Q` says of the step `m` from the state `p`: it does not break off over a handle
or over code that comes too late, it leaves the frames as they are, and its result and the state
after it are as `Q` says. Most often `Q` is `Context.Holds`: the code points into the scope of the
context, and if there is none, that was reported.

Texture references are handles too. An operation folds without looking at the types of all its
operands, so a texture can end up under it; `Uniform.texturesUnchecked` says under which.
-/

namespace ShaderGraph

/-! ### Textures under operations -/

/-- What is asked of a compilation. -/
structure Terms where
  /-- Wherever code is missing, that was reported. -/
  loud : Prop
  /-- There are operations that do not check all of their operands. -/
  lax : Prop
  /-- The references to virtual textures that the renderer is said to have laid out. -/
  laid : TextureRef → Prop := fun _ => True
  /-- The stacks are in order. -/
  ordered : Prop := True

/-- Every texture that the renderer is said to have laid out has an index. -/
def Terms.marked (t : Terms) : Prop := ∀ ref, t.laid ref → ref.index ≠ -1

namespace Uniform

variable {u : Uniform}

/-- Whether textures are operands of operations only where those do not check them. -/
def texturesUnchecked : Uniform → Bool
  | unary op _ a => !(op.checksOperand && a.isTexture) && a.texturesUnchecked
  | binary op _ a b =>
    !(op.checksFirst && a.isTexture) && !(op.checksSecond && b.isTexture) &&
      a.texturesUnchecked && b.texturesUnchecked
  | clamp _ a lo hi =>
    !a.isTexture && a.texturesUnchecked && lo.texturesUnchecked && hi.texturesUnchecked
  | swizzle _ a => !a.isTexture && a.texturesUnchecked
  | _ => true

/-- An expression that operations can have come to. -/
structure Admitted (t : Terms) (u : Uniform) : Prop where
  unchecked : u.texturesUnchecked
  free : t.lax ∨ u.isTexture ∨ u.isTextureFree

namespace Admitted

variable {t : Terms} {a b c : Uniform} {type : ValueType}

/-- An expression that is no texture has one in it only if operations are lax. -/
theorem free_of_number (h : a.Admitted t) (hnumber : a.isTexture = false) :
    t.lax ∨ a.isTextureFree := by
  rcases h.free with hlax | htexture | hfree
  · exact .inl hlax
  · rw [hnumber] at htexture
    cases htexture
  · exact .inr hfree

theorem leaf (hoperands : a.operands = []) (hnumber : a.isTexture = false) : a.Admitted t := by
  cases a with
  | unary | binary | clamp | swizzle => cases hoperands
  | texture => cases hnumber
  | _ => exact ⟨rfl, .inr (.inr rfl)⟩

/-- The operand is a number, or it is not checked. -/
theorem unary {op : UnaryOp} (h : a.Admitted t)
    (hcheck : a.isTexture = false ∨ t.lax ∧ op.checksOperand = false) :
    (Uniform.unary op type a).Admitted t := by
  rcases hcheck with hnumber | ⟨hlax, hop⟩
  · refine ⟨by simp [texturesUnchecked, hnumber, h.unchecked], ?_⟩
    exact (h.free_of_number hnumber).imp_right .inr
  · exact ⟨by simp [texturesUnchecked, hop, h.unchecked], .inl hlax⟩

theorem swizzle (pattern : Swizzle) (h : a.Admitted t) (hnumber : a.isTexture = false) :
    (Uniform.swizzle pattern a).Admitted t := by
  refine ⟨by simp [texturesUnchecked, hnumber, h.unchecked], ?_⟩
  exact (h.free_of_number hnumber).imp_right .inr

/-- Each operand is a number, or it is not checked. -/
theorem binary {op : BinaryOp} (ha : a.Admitted t) (hb : b.Admitted t)
    (hfirst : a.isTexture = false ∨ t.lax ∧ op.checksFirst = false)
    (hsecond : b.isTexture = false ∨ t.lax ∧ op.checksSecond = false) :
    (Uniform.binary op type a b).Admitted t := by
  refine ⟨?_, ?_⟩
  · have hfirst' : (op.checksFirst && a.isTexture) = false := by
      rcases hfirst with h | ⟨-, h⟩ <;> simp [h]
    have hsecond' : (op.checksSecond && b.isTexture) = false := by
      rcases hsecond with h | ⟨-, h⟩ <;> simp [h]
    simp [texturesUnchecked, hfirst', hsecond', ha.unchecked, hb.unchecked]
  · rcases hfirst with hfirst | ⟨hlax, -⟩
    · rcases hsecond with hsecond | ⟨hlax, -⟩
      · rcases ha.free_of_number hfirst with hlax | hfree
        · exact .inl hlax
        · refine (hb.free_of_number hsecond).imp_right fun hfree' => .inr ?_
          simp [isTextureFree, hfree, hfree']
      · exact .inl hlax
    · exact .inl hlax

theorem clamp (hlax : t.lax) (ha : a.Admitted t) (hb : b.Admitted t) (hc : c.Admitted t)
    (hnumber : a.isTexture = false) : (Uniform.clamp type a b c).Admitted t :=
  ⟨by simp [texturesUnchecked, hnumber, ha.unchecked, hb.unchecked, hc.unchecked], .inl hlax⟩

end Admitted

theorem isTexture_of_sameRoot {v : Uniform} (h : u.sameRoot v) : u.isTexture = v.isTexture := by
  unfold sameRoot at h
  split at h <;> first | rfl | cases h

theorem eq_texture_of_sameRoot {ref : TextureRef} (h : u.sameRoot (texture ref)) :
    u = texture ref := by
  cases u with
  | texture other => exact congrArg texture (eq_of_beq h)
  | _ => cases h

theorem exists_ref_of_isTexture (h : u.isTexture) : ∃ ref, u = texture ref := by
  cases u with
  | texture ref => exact ⟨ref, rfl⟩
  | _ => cases h

end Uniform

/-- A reference can stand for a texture of a kind: it names one, or the renderer is said to have
laid it out. -/
def Terms.Allows (t : Terms) (env : Environment) (ref : TextureRef) (type : ValueType) : Prop :=
  env.Names ref type ∨ type = .textureVirtual ∧ env.options.virtualTexturing ∧ t.laid ref

/-! ### States whose handles are good -/

/-- A chunk as emission leaves it: it has a type, and that of a texture is one of a texture. -/
structure Chunk.Fits (t : Terms) (env : Environment) (c : Chunk) : Prop where
  known : c.type ≠ .unknown
  /-- An expression with the type of a texture is a reference to one. -/
  texture : ∀ u, c.uniform? = some u → c.type.isTexture →
    ∃ ref, u.expr = .texture ref ∧ t.Allows env ref c.type
  uniform : env.material.TexturesTyped → ∀ u, c.uniform? = some u →
    u.expr.Admitted t ∧ (u.expr.isTexture → c.type.isTextureKind)
  /-- An expression with the type of a scalar is one. -/
  coherent : ∀ u, c.uniform? = some u →
    u.expr.Coherent ∧ (c.type = .float → u.expr.isScalar)

/-- The message of the log about a property. -/
def propertyMessage : String := "compiled property"

namespace Pass

/-- A state whose handles are good, while code is emitted. -/
structure Sane (t : Terms) (env : Environment) (p : Pass) : Prop where
  unfinished : p.finished = false
  /-- A pass that failed says why. -/
  failed : p.success = false → p.diagnostics ≠ []
  chunks : ∀ k, ∀ c ∈ p.scope k, c.Fits t env
  uniforms : env.material.TexturesTyped → ∀ u ∈ p.uniforms, u.expr.Admitted t
  coherent : ∀ u ∈ p.uniforms, u.expr.Coherent
  slots : env.material.TexturesTyped → ∀ u ∈ p.slots.scalars ++ p.slots.vectors,
    u.expr.Admitted t ∧ u.expr.isTexture = false
  /-- The page table of a stack is in the scope of the stack. -/
  pageTables : ∀ e ∈ p.stackEntries, ∃ i, e.pageTable = some i ∧ i < (p.scope e.key.scope).length
  stacked : t.ordered → p.Stacked t.marked
  interpolators : ∀ i ∈ p.interpolators, i.type ≠ .unknown
  /-- No texture coordinates are read that there are not. -/
  coordinates : ∀ ctx : Context, ctx.env = env → p.pixelCoordinates.bound ≤ ctx.coordinateSets
  /-- The result of a property is in the scope of its stage, and needs no slot. -/
  results : ∀ property i, p.results.get property = some i → ∃ d,
    (p.scope (p.stageScopes.get property.stage))[i]? = some d ∧ d.deferred? = none

theorem Sane.pageTable_lt {t : Terms} {env : Environment} {p : Pass} (hp : p.Sane t env)
    {e : StackEntry} (he : e ∈ p.stackEntries) {i : Nat} (hi : e.pageTable = some i) :
    i < (p.scope e.key.scope).length := by
  obtain ⟨j, hj, hlt⟩ := hp.pageTables e he
  rwa [← Option.some.inj (hi.symm.trans hj)] at hlt

/-- A state in which code can be emitted into a scope. -/
structure Fit (t : Terms) (env : Environment) (k : Nat) (p : Pass) : Prop extends Sane t env p where
  placed : k < p.scopes.length
  /-- Reports are not held back. -/
  audible : t.loud → p.sink = none

/-- What holds of a later state, whatever was compiled in between. -/
structure Since (p q : Pass) : Prop where
  scopes : ∀ k, p.scope k <+: q.scope k
  length_scopes : p.scopes.length ≤ q.scopes.length
  failed : p.success = false → q.success = false
  stageScopes : q.stageScopes = p.stageScopes
  results : q.results = p.results
  log : ∀ e ∈ q.log, e.message = propertyMessage → e ∈ p.log
  /-- Reports are held back only if they were before. -/
  sink : p.sink = none → q.sink = none
  virtuals : p.slots.texturesVirtual <+: q.slots.texturesVirtual

/-- A later state with the same frames. -/
structure Later (p q : Pass) : Prop extends Since p q where
  frames : q.frames = p.frames
  openFrames : q.openFrames = p.openFrames

section Order

variable {p q r : Pass} {k i : Nat}

theorem Since.refl (p : Pass) : Since p p :=
  ⟨fun _ => List.prefix_rfl, Nat.le_refl _, id, rfl, rfl, fun _ h _ => h, id,
    List.prefix_rfl⟩

theorem Since.trans (h : Since p q) (h' : Since q r) : Since p r :=
  ⟨fun k => (h.scopes k).trans (h'.scopes k), Nat.le_trans h.length_scopes h'.length_scopes,
    fun hp => h'.failed (h.failed hp), h'.stageScopes.trans h.stageScopes,
    h'.results.trans h.results, fun e he hm => h.log e (h'.log e he hm) hm,
    fun hp => h'.sink (h.sink hp), h.virtuals.trans h'.virtuals⟩

theorem Since.getElem?_scope (h : Since p q) {c : Chunk} (hc : (p.scope k)[i]? = some c) :
    (q.scope k)[i]? = some c := by
  obtain ⟨rest, hrest⟩ := h.scopes k
  rw [← hrest, List.getElem?_append_left (List.getElem?_eq_some_iff.1 hc).1, hc]

theorem Since.lt_scope (h : Since p q) (hi : i < (p.scope k).length) :
    i < (q.scope k).length := Nat.lt_of_lt_of_le hi (h.scopes k).length_le

theorem Later.refl (p : Pass) : Later p p := ⟨.refl p, rfl, rfl⟩

theorem Later.trans (h : Later p q) (h' : Later q r) : Later p r :=
  ⟨h.toSince.trans h'.toSince, h'.frames.trans h.frames, h'.openFrames.trans h.openFrames⟩

end Order

/-- The part of a state that a later one is compared with. -/
structure Ground where
  scopes : List Scope
  stageScopes : StageTable Nat
  success : Bool
  results : PropertyTable Code
  frames : List Frame
  openFrames : StageTable (List Nat)
  log : List LogEntry
  sink : Option (List Diagnostic)
  virtuals : List SharedUniform

/-- The part of a state that its handles are judged by. -/
structure Account extends Ground where
  finished : Bool
  diagnostics : List Diagnostic
  uniforms : UniformTable
  scalars : List SharedUniform
  vectors : List SharedUniform
  kept : StackState
  interpolators : List Interpolator
  coordinates : FlagSet

/-- The part of a state that a later one is compared with. -/
def ground (p : Pass) : Ground :=
  ⟨p.scopes, p.stageScopes, p.success, p.results, p.frames, p.openFrames, p.log, p.sink,
   p.slots.texturesVirtual⟩

/-- The part of a state that its handles are judged by. -/
def account (p : Pass) : Account :=
  ⟨p.ground, p.finished, p.diagnostics, p.uniforms, p.slots.scalars, p.slots.vectors,
   p.kept, p.interpolators, p.pixelCoordinates⟩

section Updates

variable {t t' : Terms} {env : Environment} {k : Nat} {p q : Pass} {c : Chunk}

/-- Handles are not judged by what has to be reported. -/
theorem Sane.of_lax (h : p.Sane t env) (hlax : t.lax = t'.lax) (hlaid : t.laid = t'.laid)
    (hstacked : t'.ordered → p.Stacked t'.marked) : p.Sane t' env := by
  have hadmitted : ∀ {u : Uniform}, u.Admitted t → u.Admitted t' := fun hu =>
    ⟨hu.unchecked, hlax ▸ hu.free⟩
  refine { h with chunks := fun k c hc => ⟨(h.chunks k c hc).known, fun u hu htype => ?_,
                    fun htyped u hu => ?_, (h.chunks k c hc).coherent⟩,
                  uniforms := fun htyped u hu => hadmitted (h.uniforms htyped u hu),
                  slots := fun htyped u hu => ?_, stacked := hstacked }
  · obtain ⟨ref, href, hallowed⟩ := (h.chunks k c hc).texture u hu htype
    exact ⟨ref, href, hallowed.imp_right fun hlaidOut => hlaid ▸ hlaidOut⟩
  · obtain ⟨hu, htexture⟩ := (h.chunks k c hc).uniform htyped u hu
    exact ⟨hadmitted hu, htexture⟩
  · obtain ⟨hu, htexture⟩ := h.slots htyped u hu
    exact ⟨hadmitted hu, htexture⟩

/-- What leaves the stacks and the slots of virtual textures alone. -/
theorem Sane.stacked_of_eq (hp : p.Sane t env)
    (h : (q.kept, q.slots.texturesVirtual) = (p.kept, p.slots.texturesVirtual)) :
    t.ordered → q.Stacked t.marked := fun ht =>
  (hp.stacked ht).of_eq (Prod.mk.inj h).1 ((Prod.mk.inj h).2 ▸ List.prefix_rfl)

theorem scope_of_ground_eq (h : q.ground = p.ground) : q.scope = p.scope := by
  have hscopes : q.scopes = p.scopes := congrArg Ground.scopes h
  funext k
  simp only [scope, hscopes]

theorem Later.of_ground_eq (h : q.ground = p.ground) : Later p q := by
  have hscopes : q.scopes = p.scopes := congrArg Ground.scopes h
  have hlog : q.log = p.log := congrArg Ground.log h
  refine ⟨⟨fun k => ?_, ?_, fun hp => (congrArg Ground.success h).trans hp,
    congrArg Ground.stageScopes h, congrArg Ground.results h, fun e he _ => ?_,
    fun hp => (congrArg Ground.sink h).trans hp, ?_⟩, congrArg Ground.frames h,
    congrArg Ground.openFrames h⟩
  · exact scope_of_ground_eq h ▸ List.prefix_rfl
  · exact Nat.le_of_eq (congrArg List.length hscopes.symm)
  · exact hlog ▸ he
  · have hvirtuals : q.slots.texturesVirtual = p.slots.texturesVirtual := congrArg Ground.virtuals h
    exact hvirtuals ▸ List.prefix_rfl

/-- What a later state is compared by may be that of another one. -/
theorem Since.of_ground_eq {r : Pass} (h : Since p q) (hr : r.ground = q.ground) : Since p r :=
  h.trans (Later.of_ground_eq hr).toSince

theorem Sane.of_account_eq (hp : p.Sane t env) (h : q.account = p.account) : q.Sane t env := by
  have hground : q.ground = p.ground := congrArg Account.toGround h
  have hscope := scope_of_ground_eq hground
  have hstages : q.stageScopes = p.stageScopes := congrArg Ground.stageScopes hground
  have hresults : q.results = p.results := congrArg Ground.results hground
  have hfailed : q.success = p.success := congrArg Ground.success hground
  have hscalars : q.slots.scalars = p.slots.scalars := congrArg Account.scalars h
  have hvectors : q.slots.vectors = p.slots.vectors := congrArg Account.vectors h
  have hkept : q.kept = p.kept := congrArg Account.kept h
  have htables : q.stackEntries = p.stackEntries := congrArg StackState.entries hkept
  have hdiagnostics : q.diagnostics = p.diagnostics := congrArg Account.diagnostics h
  have huniforms : q.uniforms = p.uniforms := congrArg Account.uniforms h
  have hinterpolators : q.interpolators = p.interpolators := congrArg Account.interpolators h
  have hcoordinates : q.pixelCoordinates = p.pixelCoordinates := congrArg Account.coordinates h
  exact
    { unfinished := (congrArg Account.finished h).trans hp.unfinished
      failed := by rw [hfailed, hdiagnostics]; exact hp.failed
      chunks := by rw [hscope]; exact hp.chunks
      uniforms := by rw [huniforms]; exact hp.uniforms
      coherent := by rw [huniforms]; exact hp.coherent
      slots := by rw [hscalars, hvectors]; exact hp.slots
      pageTables := by rw [htables, hscope]; exact hp.pageTables
      stacked := fun ht => (hp.stacked ht).of_eq hkept (Later.of_ground_eq hground).virtuals
      interpolators := by rw [hinterpolators]; exact hp.interpolators
      coordinates := by rw [hcoordinates]; exact hp.coordinates
      results := by rw [hresults, hstages, hscope]; exact hp.results }

theorem Fit.of_account_eq (hp : p.Fit t env k) (h : q.account = p.account) : q.Fit t env k := by
  have hscopes : q.scopes = p.scopes := congrArg (fun a : Account => a.scopes) h
  refine ⟨hp.toSane.of_account_eq h, ?_, fun hloud => ?_⟩
  · rw [hscopes]
    exact hp.placed
  · exact (congrArg (fun a : Account => a.sink) h).trans (hp.audible hloud)

/-- Reporting changes the reports alone. -/
theorem Sane.reported (hp : p.Sane t env) {ds : List Diagnostic} (hds : ds ≠ [])
    (log : List LogEntry) :
    Sane t env { p with success := false, diagnostics := ds, log := log } :=
  { hp with
    failed := fun _ => hds
    stacked := hp.stacked_of_eq rfl }

theorem Later.reported (ds : List Diagnostic) {log : List LogEntry}
    (hlog : ∀ e ∈ log, e.message = propertyMessage → e ∈ p.log) :
    Later p { p with success := false, diagnostics := ds, log := log } :=
  ⟨⟨fun _ => List.prefix_rfl, Nat.le_refl _, fun _ => rfl, rfl, rfl, hlog, id, List.prefix_rfl⟩,
    rfl, rfl⟩

theorem scope_le_append (p : Pass) (k j : Nat) (c : Chunk) :
    p.scope j <+: (p.append k c).scope j := by
  rcases p.scope_append k j c with h | ⟨-, h⟩
  · exact h ▸ List.prefix_rfl
  · exact h ▸ List.prefix_append _ _

theorem Later.append (p : Pass) (k : Nat) (c : Chunk) : Later p (p.append k c) :=
  ⟨⟨fun j => p.scope_le_append k j c, Nat.le_of_eq (p.length_scopes_append k c).symm, id, rfl, rfl,
    fun _ h _ => h, id, List.prefix_rfl⟩, rfl, rfl⟩

theorem Sane.append (hp : p.Sane t env) (hc : c.Fits t env) (k : Nat) :
    (p.append k c).Sane t env := by
  have hlater := Later.append p k c
  refine { hp with chunks := fun j d hd => ?_, pageTables := fun e he => ?_, results := ?_,
                   stacked := hp.stacked_of_eq rfl }
  · rcases p.scope_append k j c with h | ⟨-, h⟩
    · exact hp.chunks j d (h ▸ hd)
    · rw [h] at hd
      rcases List.mem_append.1 hd with hd | hd
      · exact hp.chunks j d hd
      · exact List.mem_singleton.1 hd ▸ hc
  · obtain ⟨i, hi, hlt⟩ := hp.pageTables e he
    exact ⟨i, hi, hlater.lt_scope hlt⟩
  · intro property i hi
    obtain ⟨d, hd, hread⟩ := hp.results property i hi
    exact ⟨d, hlater.getElem?_scope hd, hread⟩

theorem Fit.append (hp : p.Fit t env k) (hc : c.Fits t env) : (p.append k c).Fit t env k :=
  ⟨hp.toSane.append hc k, by rw [length_scopes_append]; exact hp.placed, hp.audible⟩

end Updates

end Pass

open Pass

/-! ### Handles -/

namespace Context

variable {t : Terms} {ctx : Context} {p q : Pass} {c : Code} {d : Chunk}

/-- Code points into the scope of the context. -/
def Points (ctx : Context) (c : Code) (p : Pass) : Prop :=
  ∀ i, c = some i → i < (p.scope ctx.scope).length

/-- Code points into the scope of the context; and if there is none, that was reported. -/
def Holds (t : Terms) (ctx : Context) (c : Code) (p : Pass) : Prop :=
  ctx.Points c p ∧ (t.loud → c = none → p.success = false)

theorem Sees.mono (h : ctx.Sees c d p) (hq : Since p q) : ctx.Sees c d q := by
  obtain ⟨i, hi, hd⟩ := h
  exact ⟨i, hi, hq.getElem?_scope hd⟩

theorem Points.mono (h : ctx.Points c p) (hq : Since p q) : ctx.Points c q :=
  fun i hi => hq.lt_scope (h i hi)

theorem Holds.mono (h : ctx.Holds t c p) (hq : Since p q) : ctx.Holds t c q :=
  ⟨h.1.mono hq, fun hloud hc => hq.failed (h.2 hloud hc)⟩

theorem Points.none : ctx.Points none p := fun i hi => by cases hi

theorem Sees.points (h : ctx.Sees c d p) : ctx.Points c p := by
  obtain ⟨i, rfl, hd⟩ := h
  intro j hj
  cases hj
  exact (List.getElem?_eq_some_iff.1 hd).1

theorem Sees.holds (h : ctx.Sees c d p) : ctx.Holds t c p := by
  refine ⟨h.points, fun _ hc => ?_⟩
  obtain ⟨i, rfl, -⟩ := h
  cases hc

/-- Missing code that was reported. -/
theorem Holds.of_failed (h : t.loud → p.success = false) : ctx.Holds t none p :=
  ⟨.none, fun hloud _ => h hloud⟩

/-- Code points to a chunk, unless there is none. -/
theorem Points.sees (h : ctx.Points c p) (hc : c.isNone = false) : ∃ d, ctx.Sees c d p := by
  cases c with
  | none => cases hc
  | some i => exact ⟨_, i, rfl, List.getElem?_eq_getElem (h i rfl)⟩

theorem Sees.fits {env : Environment} (h : ctx.Sees c d p) (hp : p.Sane t env) : d.Fits t env := by
  obtain ⟨i, -, hd⟩ := h
  exact hp.chunks _ d (List.mem_of_getElem? hd)

/-! ### Steps -/

variable {α β : Type} {m : PassM α} {f : α → PassM β}

/-- From `p`, a step does not break off over scopes or frames, and leads to a later state and a
result as `Q` says. -/
def Meets (t : Terms) (ctx : Context) (p : Pass) (m : PassM α) (Q : α → Pass → Prop) : Prop :=
  p.Fit t ctx.env ctx.scope →
    (∀ a q, m p = .ok a q → q.Fit t ctx.env ctx.scope ∧ Later p q ∧ Q a q) ∧
    ∀ e q, m p = .error e q → e.isExcluded = false

namespace Meets

variable {Q : α → Pass → Prop} {R : β → Pass → Prop} {u : Pass → Pass}

/-- A step whose result is known. -/
theorem of_eq {a : α} (h : m p = .ok a q)
    (hq : p.Fit t ctx.env ctx.scope → q.Fit t ctx.env ctx.scope) (hlater : Later p q)
    (ha : Q a q) : ctx.Meets t p m Q := by
  intro hp
  constructor
  · intro b r hr
    cases h.symm.trans hr
    exact ⟨hq hp, hlater, ha⟩
  · intro e r hr
    rw [h] at hr
    cases hr

theorem pure {a : α} (h : Q a p) : ctx.Meets t p (pure a) Q := of_eq rfl id (.refl p) h

theorem throw {e : Fault} (h : e.isExcluded = false) : ctx.Meets t p (throw e : PassM α) Q := by
  refine fun _ => ⟨fun a q hq => (by cases hq), fun e' q hq => ?_⟩
  cases hq
  exact h

theorem bind (hm : ctx.Meets t p m Q)
    (hf : ∀ a q, Later p q → Q a q → ctx.Meets t q (f a) R) : ctx.Meets t p (m >>= f) R := by
  intro hp
  obtain ⟨hok, herror⟩ := hm hp
  change (∀ b r, EStateM.bind m f p = .ok b r → _) ∧ ∀ e r, EStateM.bind m f p = .error e r → _
  unfold EStateM.bind
  cases hmp : m p with
  | error e q =>
    refine ⟨fun b r hr => (by cases hr), fun e' r hr => ?_⟩
    cases hr
    exact herror e q hmp
  | ok a q =>
    obtain ⟨hq, hlater, ha⟩ := hok a q hmp
    obtain ⟨hok', herror'⟩ := hf a q hlater ha hq
    refine ⟨fun b r hr => ?_, herror'⟩
    obtain ⟨hr', hlater', hb⟩ := hok' b r hr
    exact ⟨hr', hlater.trans hlater', hb⟩

theorem mono {S : α → Pass → Prop} (hm : ctx.Meets t p m Q)
    (h : ∀ a q, Later p q → Q a q → S a q) : ctx.Meets t p m S := by
  refine fun hp => ⟨fun a q hq => ?_, (hm hp).2⟩
  obtain ⟨hfit, hlater, ha⟩ := (hm hp).1 a q hq
  exact ⟨hfit, hlater, h a q hlater ha⟩

/-- The state before a step is fit. -/
theorem of_fit (h : p.Fit t ctx.env ctx.scope → ctx.Meets t p m Q) : ctx.Meets t p m Q :=
  fun hp => h hp hp

/-- A step that only reads the state. -/
theorem read {a : α} (h : m p = .ok a p) (hf : ctx.Meets t p (f a) R) :
    ctx.Meets t p (m >>= f) R := by
  unfold Meets at hf ⊢
  rwa [bind_of_ok h]

theorem get_bind {g : Pass → PassM β} (h : ctx.Meets t p (g p) R) : ctx.Meets t p (get >>= g) R := h

theorem set_bind {g : PUnit → PassM β}
    (hq : p.Fit t ctx.env ctx.scope → q.Fit t ctx.env ctx.scope) (hlater : Later p q)
    (hg : ctx.Meets t q (g ⟨⟩) R) : ctx.Meets t p (set q >>= g) R := by
  have hset : ctx.Meets t p (set q : PassM PUnit) fun _ r => r = q := of_eq rfl hq hlater rfl
  refine hset.bind fun _ r _ hr => ?_
  subst hr
  exact hg

theorem update_bind {g : PUnit → PassM β}
    (hq : p.Fit t ctx.env ctx.scope → (u p).Fit t ctx.env ctx.scope) (hlater : Later p (u p))
    (hg : ctx.Meets t (u p) (g ⟨⟩) R) :
    ctx.Meets t p (modify u >>= g) R := set_bind hq hlater hg

/-- An update of what handles are not judged by. -/
theorem modify_bind {g : PUnit → PassM β} (h : (u p).account = p.account)
    (hg : ctx.Meets t (u p) (g ⟨⟩) R) : ctx.Meets t p (modify u >>= g) R :=
  set_bind (fun hp => hp.of_account_eq h) (.of_ground_eq (congrArg Account.toGround h)) hg

/-- Steps for all members of a list, in whatever state they start. -/
theorem forM {xs : List α} {f : α → PassM PUnit}
    (h : ∀ a p, ctx.Meets t p (f a) fun _ _ => True) :
    ctx.Meets t p (xs.forM f) fun _ _ => True := by
  induction xs generalizing p with
  | nil => exact .pure trivial
  | cons a xs ih => exact (h a p).bind fun _ q _ _ => ih

end Meets

end Context

end ShaderGraph
