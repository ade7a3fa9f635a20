import Mathlib.Logic.Relation
import ShaderGraph.Proofs.Declarations
import ShaderGraph.Proofs.Interning
import ShaderGraph.Proofs.Preshader

/-!
# What the steps of a pass do to its code and its records

The code of a pass is what ends up in the shader: the scopes, the uniforms and their slots, the
results and the functions generated apart. Beside it a pass keeps records: what it has reported,
what the pixel stage reads of coordinates and interpolators, what stacks are found by, and the names
of the custom outputs. There are few ways in which compiling changes either, and `Effect` lists
them, each with what it is known to keep to. A pass evolves by such effects, and what all of them
keep, compiling keeps (`Pass.Sound`, `Pass.Evolves.sound`).

`Pass.Yields p m Q` says that the step `m`, if it ends without a fault, has made the pass evolve
from `p`, and that its result and the state after it are as `Q` says. It composes along the steps
that `m` is made from.
-/

namespace ShaderGraph

open Relation

/-! ### Results of properties -/

namespace Property

/-- The type of what is recorded for a property: two properties have a parameter appended to what
they are connected to. -/
def resultType : Property → ValueType
  | subsurfaceColor => .float4
  | refraction => .float2
  | property => property.type

/-- A chunk can stand for a property where a type is asked for: it goes with that type. A shading
model may also be a scalar literal, which is widened to four components. -/
def Admits (property : Property) (type : ValueType) (d : Chunk) : Prop :=
  d.type.shares type ∨ property = .shadingModel ∧ d.type = .float4 ∧ d.folded?.isSome

end Property

namespace Pass

/-! ### Code -/

/-- The part of the state that ends up in the shader. -/
structure CodeState where
  scopes : List Scope
  stageScopes : StageTable Nat
  nextTemporary : Nat
  uniforms : UniformTable
  slots : UniformSet
  results : PropertyTable Code
  normalEnd : Nat
  implementations : List String

/-- The code of a pass. -/
def code (p : Pass) : CodeState :=
  ⟨p.scopes, p.stageScopes, p.nextTemporary, p.uniforms, p.slots, p.results, p.normalEnd,
   p.implementations⟩

/-- The part of the state that is kept beside the code. -/
structure RecordState where
  success : Bool
  diagnostics : List Diagnostic
  pixelCoordinates : FlagSet
  interpolators : List Interpolator
  interpolatedScalars : Nat
  stackEntries : List StackEntry
  customOutputNames : List String

/-- The records of a pass. -/
def records (p : Pass) : RecordState :=
  ⟨p.success, p.diagnostics, p.pixelCoordinates, p.interpolators, p.interpolatedScalars,
   p.stackEntries, p.customOutputNames⟩

/-- The pass with a chunk added to a scope. -/
def append (p : Pass) (k : Nat) (c : Chunk) : Pass :=
  { p with scopes := p.scopes.modify k (· ++ [c]) }

theorem scope_append_self {p : Pass} {k : Nat} (h : k < p.scopes.length) (c : Chunk) :
    (p.append k c).scope k = p.scope k ++ [c] := by
  simp [scope, append, h]

theorem getElem?_append {p : Pass} {k : Nat} (h : k < p.scopes.length) (c : Chunk) :
    ((p.append k c).scope k)[(p.scope k).length]? = some c := by
  rw [scope_append_self h]
  exact List.getElem?_concat_length

theorem scope_append_of_ne (p : Pass) {k j : Nat} (h : k ≠ j) (c : Chunk) :
    (p.append k c).scope j = p.scope j := by
  simp [scope, append, h]

/-- A chunk is added to one scope, if that scope is there. -/
theorem scope_append (p : Pass) (k j : Nat) (c : Chunk) :
    (p.append k c).scope j = p.scope j ∨
      j = k ∧ (p.append k c).scope j = p.scope j ++ [c] := by
  by_cases hkj : k = j
  · subst hkj
    rcases Nat.lt_or_ge k p.scopes.length with hlt | hge
    · exact .inr ⟨rfl, scope_append_self hlt c⟩
    · left
      simp [scope, append, hge]
  · exact .inl (scope_append_of_ne p hkj c)

@[simp] theorem length_scopes_append (p : Pass) (k : Nat) (c : Chunk) :
    (p.append k c).scopes.length = p.scopes.length := by simp [append]

/-- The pass that has failed over a diagnostic; one with its message is not added again. -/
def withReport (p : Pass) (d : Diagnostic) : Pass :=
  { p with
    success := false,
    diagnostics := if p.diagnostics.any fun known => known.message == d.message then p.diagnostics
      else p.diagnostics ++ [d] }

/-- A diagnostic is left out only if there is one with its message. -/
theorem diagnostics_withReport_ne_nil (p : Pass) (d : Diagnostic) :
    (p.withReport d).diagnostics ≠ [] := by
  unfold withReport
  split
  case isTrue hknown =>
    intro hnil
    rw [show p.diagnostics = [] from hnil] at hknown
    cases hknown
  case isFalse => simp

/-- The pass with another stack at a place. -/
def withLayers (p : Pass) (stack : Nat) (s : LayerStack) : Pass :=
  { p with slots := { p.slots with layerStacks := p.slots.layerStacks.set stack s } }

/-- The pass with a result recorded. -/
def withResult (p : Pass) (property : Property) (c : Code) : Pass :=
  { p with results := p.results.set property c }

/-- Code of a scope, if there is any, is that of a chunk as `T` says. -/
def Refers (p : Pass) (k : Nat) (T : Chunk → Prop) (c : Code) : Prop :=
  ∀ i, c = some i → ∃ d, (p.scope k)[i]? = some d ∧ T d

/-- Code can be recorded for a property. -/
def Suits (p : Pass) (property : Property) (c : Code) : Prop :=
  p.Refers (p.stageScopes.get property.stage) (property.Admits property.resultType) c

/-- A slot of the virtual textures holds a reference. -/
def HoldsTexture (p : Pass) (slot : Int) (ref : TextureRef) : Prop :=
  ∃ u, p.slots.texturesVirtual[slot.toNat]? = some u ∧ u.expr = .texture ref

/-! ### Effects -/

/-- How compiling can change the code and the records of a pass. -/
inductive Effect (p : Pass) : Pass → Prop where
  /-- Both stay as they are. -/
  | idle {p' : Pass} (h : p'.code = p.code) (hrecords : p'.records = p.records) : Effect p p'
  | newScope : Effect p { p with scopes := p.scopes ++ [[]] }
  /-- Text is emitted that is put in place. -/
  | inline {k : Nat} {c : Chunk} (hform : c.form = .inline)
      (hreads : Text.Reads (· ∈ (p.scope k).temporaries) c.text) : Effect p (p.append k c)
  /-- A temporary is emitted, with a number of its own. -/
  | temporary {k : Nat} {c : Chunk} (hform : c.form = .temporary p.nextTemporary)
      (hreads : Text.Reads (· ∈ (p.scope k).temporaries) c.text) :
      Effect p { p.append k c with nextTemporary := p.nextTemporary + 1 }
  /-- A uniform expression of the table is emitted. -/
  | known {k : Nat} {c : Chunk} {u : SharedUniform} (hform : c.form = .uniform u)
      (hmem : u ∈ p.uniforms) (hliteral : Text.Reads (fun _ => False) c.text) :
      Effect p (p.append k c)
  /-- A uniform expression is emitted and added to the table. -/
  | fresh {k : Nat} {c : Chunk} {u : SharedUniform} (hform : c.form = .uniform u)
      (hnew : u.IsNew p.uniforms) (hcounts : u.expr.isWellCounted)
      (hliteral : Text.Reads (fun _ => False) c.text) :
      Effect p { p.append k c with uniforms := p.uniforms ++ [u] }
  /-- A deferred uniform expression of a scope is given a slot. -/
  | slot {k i : Nat} {c : Chunk} {u : SharedUniform} {kind : SlotKind}
      (hc : (p.scope k)[i]? = some c) (hu : c.deferred? = some u)
      (hkind : SlotKind.ofType? c.type = some kind) :
      Effect p { p with slots := p.slots.withTable kind (addSlot (p.slots.table kind) u).2 }
  /-- A function is generated whose body is closed. -/
  | implementation {type : ValueType} {name parameters : String} {body : Body}
      (h : body.Closed "") :
      Effect p { p with
        implementations := p.implementations ++ [functionText type name parameters body] }
  /-- The result of another property than the normal is recorded. -/
  | result {property : Property} {c : Code} (hproperty : property ≠ .normal)
      (hsuits : p.Suits property c) : Effect p (p.withResult property c)
  /-- A problem is reported. -/
  | report (d : Diagnostic) : Effect p (p.withReport d)
  /-- A set of texture coordinates is read by another stage than the vertex stage. -/
  | coordinate (i : Nat) :
      Effect p { p with pixelCoordinates := p.pixelCoordinates.insert i }
  /-- An interpolator is added, with the number of its place. -/
  | newInterpolator {i : Interpolator} (hindex : i.index = p.interpolators.length)
      (hunread : i.offset = none) :
      Effect p { p with interpolators := p.interpolators ++ [i] }
  /-- An interpolator is read for the first time, and put after all that were read before. -/
  | readInterpolator {k : Nat} {i : Interpolator} (hi : p.interpolators[k]? = some i)
      (hunread : i.offset = none) :
      Effect p { p with
        interpolators := p.interpolators.set k { i with offset := some p.interpolatedScalars },
        interpolatedScalars := p.interpolatedScalars + i.size }
  /-- A stack without layers is added. -/
  | newStack (buckets : Buckets) (preallocated : Int) :
      Effect p { p with
        stackBuckets := buckets,
        slots := { p.slots with
          layerStacks := p.slots.layerStacks ++ [LayerStack.fresh preallocated] } }
  /-- What a stack is found by is added. -/
  | newEntry (entry : StackEntry) : Effect p { p with stackEntries := p.stackEntries ++ [entry] }
  /-- The name of a custom output is taken. -/
  | outputName (name : String) :
      Effect p { p with customOutputNames := name :: p.customOutputNames }
  /-- A virtual texture is bound to the next layer of a stack. -/
  | nextLayer {stack layer : Nat} {texture : Int} {s taken bound : LayerStack}
      (hs : p.slots.layerStacks[stack]? = some s) (htaken : s.addLayer = .ok (layer, taken))
      (hbound : taken.setLayer layer texture = .ok bound) : Effect p (p.withLayers stack bound)
  /-- A virtual texture is bound to its own layer of a stack that is laid out for it. -/
  | ownLayer {stack : Nat} {texture : Int} {ref : TextureRef} {entry : StackEntry}
      {s bound : LayerStack} (hs : p.slots.layerStacks[stack]? = some s)
      (hentry : p.stackEntries[stack]? = some entry) (hindex : entry.key.preallocated = ref.index)
      (htexture : p.HoldsTexture texture ref) (hbound : s.setLayer ref.layer texture = .ok bound) :
      Effect p (p.withLayers stack bound)

/-- The code of the second pass came about from that of the first by effects. -/
def Evolves : Pass → Pass → Prop := ReflTransGen Effect

namespace Evolves

variable {p q r : Pass}

@[refl] theorem refl (p : Pass) : p.Evolves p := ReflTransGen.refl

@[trans] theorem trans (h : p.Evolves q) (h' : q.Evolves r) : p.Evolves r := ReflTransGen.trans h h'

theorem single (h : Effect p q) : p.Evolves q := ReflTransGen.single h

theorem idle (h : q.code = p.code) (hrecords : q.records = p.records) :
    p.Evolves q := single (.idle h hrecords)

end Evolves

/-! ### What effects keep -/

/-- What a list has, one that it is a prefix of has at the same place. -/
theorem getElem?_of_prefix {α : Type} {l more : List α} (h : l <+: more) {i : Nat} {a : α}
    (ha : l[i]? = some a) : more[i]? = some a := by
  obtain ⟨hlt, rfl⟩ := List.getElem?_eq_some_iff.mp ha
  exact List.prefix_iff_getElem?.mp h i hlt

/-- What the stores of the first pass hold is held by those of the second, in the same places. -/
structure Retains (p q : Pass) : Prop where
  scopeCount : p.scopes.length ≤ q.scopes.length
  scopes : ∀ k, p.scope k <+: q.scope k
  uniforms : p.uniforms <+: q.uniforms
  /-- The scalars, the vectors and the six kinds of textures. -/
  slots : ∀ kind, p.slots.table kind <+: q.slots.table kind
  stackEntries : p.stackEntries <+: q.stackEntries
  nextTemporary : p.nextTemporary ≤ q.nextTemporary

section Retains

variable {p q r : Pass}

@[refl] theorem Retains.refl (p : Pass) : p.Retains p :=
  ⟨Nat.le_refl _, fun _ => List.prefix_rfl, List.prefix_rfl, fun _ => List.prefix_rfl,
    List.prefix_rfl, Nat.le_refl _⟩

@[trans] theorem Retains.trans (h : p.Retains q) (h' : q.Retains r) : p.Retains r :=
  ⟨Nat.le_trans h.scopeCount h'.scopeCount, fun k => (h.scopes k).trans (h'.scopes k),
    h.uniforms.trans h'.uniforms, fun kind => (h.slots kind).trans (h'.slots kind),
    h.stackEntries.trans h'.stackEntries, Nat.le_trans h.nextTemporary h'.nextTemporary⟩

theorem Retains.of_eq (h : q.scopes = p.scopes) (huniforms : q.uniforms = p.uniforms)
    (hslots : ∀ kind, q.slots.table kind = p.slots.table kind)
    (hentries : q.stackEntries = p.stackEntries) (hnext : q.nextTemporary = p.nextTemporary) :
    p.Retains q := by
  have hscope : ∀ k, q.scope k = p.scope k := fun k => congrArg (·.getD k []) h
  exact ⟨Nat.le_of_eq (congrArg List.length h.symm), fun k => hscope k ▸ List.prefix_rfl,
    huniforms ▸ List.prefix_rfl, fun kind => hslots kind ▸ List.prefix_rfl,
    hentries ▸ List.prefix_rfl, Nat.le_of_eq hnext.symm⟩

/-- A chunk is added behind those of its scope. -/
theorem Retains.append (p : Pass) (j : Nat) (c : Chunk) : p.Retains (p.append j c) := by
  refine { Retains.refl p with scopeCount := by simp, scopes := fun k => ?_ }
  rcases p.scope_append j k c with h | ⟨-, h⟩
  · exact h ▸ List.prefix_rfl
  · exact h ▸ List.prefix_append _ _

/-- **One effect** only adds to the stores. -/
theorem Effect.retains (h : Effect p q) : p.Retains q := by
  cases h with
  | idle h hrecords =>
    have hslots : q.slots = p.slots := congrArg CodeState.slots h
    exact .of_eq (congrArg CodeState.scopes h) (congrArg CodeState.uniforms h)
      (fun kind => by rw [hslots]) (congrArg RecordState.stackEntries hrecords)
      (congrArg CodeState.nextTemporary h)
  | newScope =>
    refine { Retains.refl p with scopeCount := by simp, scopes := fun k => ?_ }
    rcases Nat.lt_or_ge k p.scopes.length with hlt | hge
    · simp [scope, List.getElem?_append_left hlt]
    · simp [scope, List.getElem?_eq_none hge]
  | inline | known => exact .append p _ _
  | temporary => exact { Retains.append p _ _ with nextTemporary := Nat.le_succ _ }
  | fresh => exact { Retains.append p _ _ with uniforms := List.prefix_append _ _ }
  | @slot k i c u given =>
    refine { Retains.refl p with slots := fun kind => ?_ }
    by_cases hkind : kind = given
    · subst hkind
      rw [UniformSet.table_withTable_self]
      exact prefix_addSlot _ _
    · simp only [UniformSet.table_withTable_of_ne _ hkind, List.prefix_rfl]
  | newStack | nextLayer | ownLayer =>
    exact .of_eq rfl rfl (fun kind => by cases kind <;> rfl) rfl rfl
  | newEntry => exact { Retains.refl p with stackEntries := List.prefix_append _ _ }
  | _ => exact .of_eq rfl rfl (fun _ => rfl) rfl rfl

end Retains

/-- What is fixed before the properties are compiled stays, and so do the result of the normal and
the parameters of the slots. -/
theorem Effect.fixed {p q : Pass} (h : Effect p q) :
    q.stageScopes = p.stageScopes ∧ q.normalEnd = p.normalEnd ∧
      q.results.get .normal = p.results.get .normal ∧
      q.slots.parameters = p.slots.parameters := by
  cases h with
  | idle h _ =>
    exact ⟨congrArg CodeState.stageScopes h, congrArg CodeState.normalEnd h,
      congrArg (fun s : CodeState => s.results.get .normal) h,
      congrArg (fun s : CodeState => s.slots.parameters) h⟩
  | result hproperty => exact ⟨rfl, rfl, PropertyTable.get_set_of_ne _ hproperty.symm _, rfl⟩
  | @slot k i c u kind => exact ⟨rfl, rfl, rfl, by cases kind <;> rfl⟩
  | _ => exact ⟨rfl, rfl, rfl, rfl⟩

namespace Evolves

variable {p q : Pass}

section

variable (h : p.Evolves q)

include h

/-- And so **effects** only add to the stores. -/
theorem retains : p.Retains q := by
  induction h with
  | refl => exact .refl p
  | tail _ hstep ih => exact ih.trans hstep.retains

theorem fixed :
    q.stageScopes = p.stageScopes ∧ q.normalEnd = p.normalEnd ∧
      q.results.get .normal = p.results.get .normal ∧
      q.slots.parameters = p.slots.parameters := by
  induction h with
  | refl => exact ⟨rfl, rfl, rfl, rfl⟩
  | tail _ hstep ih =>
    obtain ⟨h₁, h₂, h₃, h₄⟩ := hstep.fixed
    exact ⟨h₁.trans ih.1, h₂.trans ih.2.1, h₃.trans ih.2.2.1, h₄.trans ih.2.2.2⟩

/-- A chunk is found where it was. -/
theorem getElem?_scope {k i : Nat} {c : Chunk} (hc : (p.scope k)[i]? = some c) :
    (q.scope k)[i]? = some c :=
  getElem?_of_prefix (h.retains.scopes k) hc

theorem refers {k : Nat} {T : Chunk → Prop} {c : Code} (hc : p.Refers k T c) : q.Refers k T c := by
  intro i hi
  obtain ⟨d, hd, hT⟩ := hc i hi
  exact ⟨d, h.getElem?_scope hd, hT⟩

theorem suits {property : Property} {c : Code} (hc : p.Suits property c) : q.Suits property c := by
  unfold Suits
  rw [h.fixed.1]
  exact h.refers hc

/-- And so is a virtual texture. -/
theorem holdsTexture {slot : Int} {ref : TextureRef} (href : p.HoldsTexture slot ref) :
    q.HoldsTexture slot ref := by
  obtain ⟨u, hu, hexpr⟩ := href
  exact ⟨u, getElem?_of_prefix (h.retains.slots .virtualTexture) hu, hexpr⟩

end

end Evolves

/-! ### Soundness -/

/-- What holds of the code of a pass from its start on. -/
structure Sound (p : Pass) : Prop where
  /-- The chunks of every scope are in order. -/
  ordered : ∀ k, (p.scope k).Ordered
  /-- Temporaries have numbers that were given out. -/
  numbered : ∀ k, ∀ n ∈ (p.scope k).temporaries, n < p.nextTemporary
  /-- The uniform expressions of chunks and slots are in the table. -/
  listed : ∀ k, ∀ c ∈ p.scope k, ∀ u, c.uniform? = some u → u ∈ p.uniforms
  slotted : ∀ kind, ∀ u ∈ p.slots.table kind, u ∈ p.uniforms
  /-- The table holds each uniform expression once, and a slot is given to each once. -/
  interned : p.uniforms.Interned
  single : p.slots.Slotted
  /-- No uniform expression states more components than a value has. -/
  counted : ∀ u ∈ p.uniforms, u.expr.isWellCounted
  /-- Functions generated apart have closed bodies. -/
  implemented : ∀ f ∈ p.implementations, ∃ type name parameters body,
    f = functionText type name parameters body ∧ body.Closed ""

namespace Sound

variable {p q : Pass}

theorem of_code_eq (hp : p.Sound) (h : q.code = p.code) : q.Sound := by
  have hscopes : q.scopes = p.scopes := congrArg CodeState.scopes h
  have hscope : ∀ k, q.scope k = p.scope k := fun k => by simp [scope, hscopes]
  have hnext : q.nextTemporary = p.nextTemporary := congrArg CodeState.nextTemporary h
  have huniforms : q.uniforms = p.uniforms := congrArg CodeState.uniforms h
  have hslots : q.slots = p.slots := congrArg CodeState.slots h
  have himpl : q.implementations = p.implementations := congrArg CodeState.implementations h
  constructor
  · exact fun k => hscope k ▸ hp.ordered k
  · exact fun k => hscope k ▸ hnext ▸ hp.numbered k
  · exact fun k => hscope k ▸ huniforms ▸ hp.listed k
  · exact fun kind => hslots ▸ huniforms ▸ hp.slotted kind
  · exact huniforms ▸ hp.interned
  · exact hslots ▸ hp.single
  · exact huniforms ▸ hp.counted
  · exact himpl ▸ hp.implemented

/-- Results do not matter to soundness. -/
theorem with_results (hp : p.Sound) (results : PropertyTable Code) (normalEnd : Nat) :
    Sound { p with results := results, normalEnd := normalEnd } :=
  ⟨hp.ordered, hp.numbered, hp.listed, hp.slotted, hp.interned, hp.single, hp.counted,
    hp.implemented⟩

/-- Nor do slots, as long as their tables are the same. -/
theorem with_slots (hp : p.Sound) {slots : UniformSet} {buckets : Buckets}
    (h : ∀ kind, slots.table kind = p.slots.table kind) :
    Sound { p with slots := slots, stackBuckets := buckets } :=
  ⟨hp.ordered, hp.numbered, hp.listed, fun kind => (h kind).symm ▸ hp.slotted kind, hp.interned,
    ⟨fun kind => h kind ▸ hp.single.nodup kind, fun kind => h kind ▸ hp.single.deferred kind⟩,
    hp.counted, hp.implemented⟩

/-- A chunk that can follow is added, and the numbers and uniform expressions it needs. -/
theorem append (hp : p.Sound) {k : Nat} {c : Chunk} {next : Nat} {table : UniformTable}
    (hfollows : c.Follows (p.scope k))
    (hnext : p.nextTemporary ≤ next) (hnumber : ∀ n, c.temporary? = some n → n < next)
    (htable : ∀ u ∈ p.uniforms, u ∈ table) (hinterned : table.Interned)
    (huniform : ∀ u, c.uniform? = some u → u ∈ table)
    (hcounts : ∀ u ∈ table, u.expr.isWellCounted) :
    Sound { p.append k c with nextTemporary := next, uniforms := table } := by
  have hscope := fun j => p.scope_append k j c
  refine ⟨fun j => ?_, fun j n hn => ?_, fun j d hd u hu => ?_, fun kind u hu => ?_, hinterned,
    hp.single, hcounts, hp.implemented⟩
  · show ((p.append k c).scope j).Ordered
    rcases hscope j with h | ⟨rfl, h⟩
    · exact h ▸ hp.ordered j
    · exact h ▸ (hp.ordered j).push hfollows
  · change n ∈ ((p.append k c).scope j).temporaries at hn
    rcases hscope j with h | ⟨rfl, h⟩
    · exact Nat.lt_of_lt_of_le (hp.numbered j n (h ▸ hn)) hnext
    · rw [h, Scope.temporaries_append, List.mem_append] at hn
      rcases hn with hn | hn
      · exact Nat.lt_of_lt_of_le (hp.numbered j n hn) hnext
      · exact hnumber n (Scope.mem_temporaries_singleton.mp hn)
  · change d ∈ (p.append k c).scope j at hd
    rcases hscope j with h | ⟨rfl, h⟩
    · exact htable u (hp.listed j d (h ▸ hd) u hu)
    · rw [h, List.mem_append, List.mem_singleton] at hd
      rcases hd with hd | rfl
      · exact htable u (hp.listed j d hd u hu)
      · exact huniform u hu
  · exact htable u (hp.slotted kind u hu)

end Sound

/-- Every effect keeps the code sound. -/
theorem Effect.sound {p q : Pass} (h : Effect p q) (hp : p.Sound) : q.Sound := by
  cases h with
  | idle h _ => exact hp.of_code_eq h
  | newScope =>
    have hscope : ∀ k, ({ p with scopes := p.scopes ++ [[]] } : Pass).scope k = p.scope k := by
      intro k
      rcases Nat.lt_trichotomy k p.scopes.length with hlt | rfl | hgt
      · simp [scope, List.getElem?_append_left hlt]
      · simp [scope]
      · have hnone : (p.scopes ++ [[]])[k]? = none := List.getElem?_eq_none (by simp; omega)
        simp [scope, hnone, List.getElem?_eq_none (Nat.le_of_lt hgt)]
    refine ⟨?_, ?_, ?_, hp.slotted, hp.interned, hp.single, hp.counted, hp.implemented⟩
    · exact fun k => (hscope k).symm ▸ hp.ordered k
    · exact fun k => (hscope k).symm ▸ hp.numbered k
    · exact fun k => (hscope k).symm ▸ hp.listed k
  | @inline k c hform hreads =>
    have hnumber : c.temporary? = none := by simp [Chunk.temporary?, hform]
    have huniform : c.uniform? = none := by simp [Chunk.uniform?, hform]
    exact hp.append ⟨hreads, by simp [huniform], by simp [hnumber]⟩
      (Nat.le_refl _) (by simp [hnumber]) (fun _ hu => hu) hp.interned (by simp [huniform])
      hp.counted
  | @temporary k c hform hreads =>
    have hnumber : c.temporary? = some p.nextTemporary := by simp [Chunk.temporary?, hform]
    have huniform : c.uniform? = none := by simp [Chunk.uniform?, hform]
    refine hp.append ⟨hreads, by simp [huniform], ?_⟩ (Nat.le_succ _) ?_
      (fun _ hu => hu) hp.interned (by simp [huniform]) hp.counted
    · intro n hn hmem
      obtain rfl : p.nextTemporary = n := by simpa [hnumber] using hn
      exact Nat.lt_irrefl _ (hp.numbered k _ hmem)
    · intro n hn
      obtain rfl : p.nextTemporary = n := by simpa [hnumber] using hn
      exact Nat.lt_succ_self _
  | @known k c u hform hmem hliteral =>
    have hnumber : c.temporary? = none := by simp [Chunk.temporary?, hform]
    exact hp.append ⟨hliteral.mono fun _ => False.elim, fun _ => hliteral, by simp [hnumber]⟩
      (Nat.le_refl _) (by simp [hnumber]) (fun _ hv => hv) hp.interned
      (by simpa [Chunk.uniform?, hform] using hmem) hp.counted
  | @fresh k c u hform hnew hcounts hliteral =>
    have hnumber : c.temporary? = none := by simp [Chunk.temporary?, hform]
    refine hp.append ⟨hliteral.mono fun _ => False.elim, fun _ => hliteral, by simp [hnumber]⟩
      (Nat.le_refl _) (by simp [hnumber]) (fun v hv => List.mem_append_left _ hv)
      (hp.interned.snoc hnew) (by simp [Chunk.uniform?, hform]) fun v hv => ?_
    rcases List.mem_append.mp hv with hv | hv
    · exact hp.counted v hv
    · obtain rfl := List.mem_singleton.mp hv
      exact hcounts
  | @slot k i c u kind hc hu hkind =>
    have hlisted : u ∈ p.uniforms :=
      hp.listed k c (List.mem_of_getElem? hc) u (Option.filter_eq_some_iff.mp hu).1
    have hdeferred : u.expr.isConstant = false := by
      simpa using (Option.filter_eq_some_iff.mp hu).2
    refine ⟨hp.ordered, hp.numbered, hp.listed, fun j v hv => ?_, hp.interned,
      hp.single.addSlot kind hdeferred, hp.counted, hp.implemented⟩
    by_cases hj : j = kind
    · subst hj
      rw [UniformSet.table_withTable_self] at hv
      rcases mem_of_mem_addSlot hv with hv | rfl
      · exact hp.slotted j v hv
      · exact hlisted
    · rw [UniformSet.table_withTable_of_ne _ hj] at hv
      exact hp.slotted j v hv
  | newStack _ preallocated =>
    have htables (kind : SlotKind) : UniformSet.table { p.slots with
        layerStacks := p.slots.layerStacks ++ [LayerStack.fresh preallocated] } kind =
          p.slots.table kind := by cases kind <;> rfl
    exact hp.with_slots htables
  | nextLayer | ownLayer => exact hp.with_slots fun kind => by cases kind <;> rfl
  | result => exact hp.with_results _ _
  | report | coordinate | newInterpolator | readInterpolator | newEntry | outputName =>
    exact hp.of_code_eq rfl
  | implementation hclosed =>
    refine ⟨hp.ordered, hp.numbered, hp.listed, hp.slotted, hp.interned, hp.single, hp.counted,
      fun f hf => ?_⟩
    rcases List.mem_append.mp hf with hf | hf
    · exact hp.implemented f hf
    · exact ⟨_, _, _, _, List.mem_singleton.mp hf, hclosed⟩

/-- **A sound pass stays sound** while it evolves. -/
theorem Evolves.sound {p q : Pass} (h : p.Evolves q) (hp : p.Sound) : q.Sound := by
  induction h with
  | refl => exact hp
  | tail _ hstep ih => exact hstep.sound ih

/-! ### Steps -/

variable {α β : Type} {p q : Pass} {m : PassM α} {f : α → PassM β} {a : α} {u : Pass → Pass}
variable {g : PUnit → PassM β} {k : Nat} {t : String}

/-- If two steps end without a fault, the first one does. -/
theorem exists_of_bind {b : β} {r : Pass} (h : (m >>= f) p = .ok b r) :
    ∃ a q, m p = .ok a q ∧ f a q = .ok b r := by
  change EStateM.bind m f p = _ at h
  unfold EStateM.bind at h
  split at h
  case h_1 a q hq => exact ⟨a, q, hq, h⟩
  case h_2 => injection h

/-- From `p`, a step that ends without a fault makes the pass evolve, and gives a result and a
state as `Q` says. -/
def Yields (p : Pass) (m : PassM α) (Q : α → Pass → Prop) : Prop :=
  p.Sound → ∀ a q, m p = .ok a q → p.Evolves q ∧ Q a q

namespace Yields

variable {Q S : α → Pass → Prop} {R : β → Pass → Prop}

/-- A step whose result is known. -/
theorem of_eq (h : m p = .ok a q) (hq : p.Evolves q) (ha : Q a q) : p.Yields m Q := by
  intro _ b r hr
  cases h.symm.trans hr
  exact ⟨hq, ha⟩

theorem pure (h : Q a p) : p.Yields (pure a) Q := of_eq rfl (.refl _) h

theorem throw (e : Fault) : p.Yields (throw e : PassM α) Q := by
  intro _ a q hq
  exact absurd hq (by intro h; injection h)

theorem bind (hm : p.Yields m Q)
    (hf : ∀ a q, p.Evolves q → Q a q → q.Yields (f a) R) : p.Yields (m >>= f) R := by
  intro hp b r hr
  obtain ⟨a, q, hq, hr⟩ := exists_of_bind hr
  obtain ⟨hevolves, ha⟩ := hm hp a q hq
  obtain ⟨hevolves', hb⟩ := hf a q hevolves ha (hevolves.sound hp) b r hr
  exact ⟨hevolves.trans hevolves', hb⟩

theorem mono (hm : p.Yields m Q) (h : ∀ a q, p.Evolves q → Q a q → S a q) : p.Yields m S := by
  intro hp a q hq
  obtain ⟨hevolves, ha⟩ := hm hp a q hq
  exact ⟨hevolves, h a q hevolves ha⟩

/-- The state before a step is sound. -/
theorem of_sound (h : p.Sound → p.Yields m Q) : p.Yields m Q := fun hp => h hp hp

theorem get_bind {g : Pass → PassM β} (h : p.Yields (g p) R) : p.Yields (get >>= g) R := h

theorem set_bind (h : p.Evolves q) (hg : q.Yields (g ⟨⟩) R) : p.Yields (set q >>= g) R := by
  intro hp b r hr
  obtain ⟨hevolves, hb⟩ := hg (h.sound hp) b r hr
  exact ⟨h.trans hevolves, hb⟩

theorem modify_bind (h : p.Evolves (u p)) (hg : (u p).Yields (g ⟨⟩) R) :
    p.Yields (modify u >>= g) R := set_bind h hg

end Yields

/-- From `p`, a step that ends without a fault gives a result and a state as `Q` says. -/
def Gives (p : Pass) (m : PassM α) (Q : α → Pass → Prop) : Prop :=
  ∀ a q, m p = .ok a q → Q a q

namespace Gives

variable {Q S : α → Pass → Prop} {R : β → Pass → Prop}

theorem pure (h : Q a p) : p.Gives (pure a) Q := by
  intro b q hq
  cases hq
  exact h

theorem throw (e : Fault) : p.Gives (throw e : PassM α) Q := by
  intro a q hq
  cases hq

theorem bind (hm : p.Gives m Q) (hf : ∀ a q, Q a q → q.Gives (f a) R) :
    p.Gives (m >>= f) R := by
  intro b r hr
  obtain ⟨a, q, hq, hr⟩ := exists_of_bind hr
  exact hf a q (hm a q hq) b r hr

theorem mono (hm : p.Gives m Q) (h : ∀ a q, Q a q → S a q) : p.Gives m S :=
  fun a q hq => h a q (hm a q hq)

theorem both (h : p.Gives m Q) (h' : p.Gives m S) : p.Gives m fun a q => Q a q ∧ S a q :=
  fun a q hq => ⟨h a q hq, h' a q hq⟩

/-- A step whose outcome is known. -/
theorem of_run (h : m p = .ok a q) (ha : Q a q) : p.Gives m Q := by
  intro a' q' hq'
  cases h.symm.trans hq'
  exact ha

theorem congr_run {m' : PassM α} (h : m p = m' q) (hm : q.Gives m' Q) : p.Gives m Q :=
  fun a r hr => hm a r (h ▸ hr)

theorem read (h : m p = .ok a q) (hf : q.Gives (f a) R) : p.Gives (m >>= f) R := by
  intro b r hr
  obtain ⟨a', q', hq', hr⟩ := exists_of_bind hr
  cases h.symm.trans hq'
  exact hf b r hr

theorem get_bind {g : Pass → PassM β} (h : p.Gives (g p) R) : p.Gives (get >>= g) R := h

theorem set_bind (h : q.Gives (g ⟨⟩) R) : p.Gives (set q >>= g) R := h

theorem modify_bind (h : (u p).Gives (g ⟨⟩) R) : p.Gives (modify u >>= g) R := h

theorem modify {Q : PUnit → Pass → Prop} (h : Q ⟨⟩ (u p)) : p.Gives (modify u) Q :=
  modify_bind (g := Pure.pure) (pure h)

end Gives

theorem chunk_gives {ctx : Context} (i : Nat) :
    p.Gives (ctx.chunk i) fun d q => q = p ∧ (p.scope ctx.scope)[i]? = some d := by
  refine .get_bind ?_
  split
  case h_1 d hd => exact .pure ⟨rfl, hd⟩
  case h_2 => exact .throw _

/-- What a step yields from a sound state. -/
theorem Yields.gives {Q : α → Pass → Prop} (h : p.Yields m Q) (hp : p.Sound) :
    p.Gives m fun a q => p.Evolves q ∧ Q a q := h hp

/-- From every sound state, the step makes the pass evolve. -/
def Safe (m : PassM α) : Prop := ∀ p : Pass, p.Yields m fun _ _ => True

namespace Safe

theorem pure (a : α) : Safe (pure a) := fun _ => .pure trivial

theorem throw (e : Fault) : Safe (throw e : PassM α) := fun _ => .throw e

theorem bind (hm : Safe m) (hf : ∀ a, Safe (f a)) : Safe (m >>= f) :=
  fun p => (hm p).bind fun a q _ _ => hf a q

theorem get_bind {g : Pass → PassM β} (h : ∀ p, Safe (g p)) : Safe (get >>= g) := fun p => h p p

/-- An update that leaves the code and the records as they are. -/
theorem modify (h : ∀ p, (u p).code = p.code) (hrecords : ∀ p, (u p).records = p.records) :
    Safe (modify u : PassM PUnit) := fun p => .of_eq rfl (.idle (h p) (hrecords p)) trivial

theorem gives (h : Safe m) (hp : p.Sound) : p.Gives m fun _ q => p.Evolves q :=
  fun a q hq => (h p hp a q hq).1

theorem of_yields {Q : Pass → α → Pass → Prop} (h : ∀ p : Pass, p.Yields m (Q p)) : Safe m :=
  fun p => (h p).mono fun _ _ _ _ => trivial

/-- A step that is taken or not. -/
theorem optional {c : Prop} [Decidable c] {step : PassM Unit} {rest : Unit → PassM β}
    (hstep : Safe step) (hrest : Safe (rest ())) :
    Safe (if c then step >>= rest else rest ()) := by
  split
  · exact hstep.bind fun _ => hrest
  · exact hrest

/-- A loop of safe steps is safe. -/
theorem forM {l : List α} {f : α → PassM PUnit} (h : ∀ a ∈ l, Safe (f a)) : Safe (l.forM f) := by
  induction l with
  | nil => exact .pure _
  | cons a l ih =>
    exact (h a (by simp)).bind fun _ => ih fun b hb => h b (by simp [hb])

end Safe

/-! ### Texts and codes -/

/-- A text mentions only temporaries of a scope, none if it is `literal`. -/
def Reads (p : Pass) (k : Nat) (literal : Bool) (t : String) : Prop :=
  Text.Reads (fun n => literal = false ∧ n ∈ (p.scope k).temporaries) t

/-- If `literal`, the code is that of a chunk of the scope which mentions no temporary. -/
def CodeReads (p : Pass) (k : Nat) (literal : Bool) (c : Code) : Prop :=
  literal = true → ∀ i, c = some i → ∃ d, (p.scope k)[i]? = some d ∧
    Text.Reads (fun _ => False) (Context.plainText d)

theorem Reads.fixed {literal : Bool} (h : Text.isFixed t = true) : p.Reads k literal t :=
  Text.Reads.fixed h

/-- A literal text can stand for any. -/
theorem Reads.of_literal {literal : Bool} (h : Text.Reads (fun _ => False) t) :
    p.Reads k literal t :=
  Text.Reads.mono (fun _ => False.elim) h

theorem Reads.temporaries {literal : Bool} (h : p.Reads k literal t) :
    Text.Reads (· ∈ (p.scope k).temporaries) t := Text.Reads.mono (fun _ hn => hn.2) h

theorem Reads.literal (h : p.Reads k true t) : Text.Reads (fun _ => False) t :=
  Text.Reads.mono (fun _ hn => absurd hn.1 (by decide)) h

theorem CodeReads.none (k : Nat) (literal : Bool) : p.CodeReads k literal none := by
  intro _ i hi
  simp at hi

/-- Nothing is asked of code that is not literal. -/
theorem CodeReads.of_false (k : Nat) (c : Code) : p.CodeReads k false c := by
  intro h
  simp at h

end Pass

end ShaderGraph
