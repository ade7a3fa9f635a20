import ShaderGraph.Proofs.Failures
import ShaderGraph.Proofs.Outcomes
import ShaderGraph.Proofs.Slots

/-!
# The textures in the tables of a shader

A table of textures lists references to textures of the material, and each of them is read as a
texture of the table's kind. Three operations make references, with checks of their own, and the
table is chosen by the type of a chunk, which is kept apart from the reference. What relates the two
is that a chunk with the type of a texture stands for a reference of that type
(`Chunk.Fits.texture`), and that a slot is given to what a chunk stands for (`Pass.Sourced`). So a
table names textures of its kind, but for those that the renderer is said to have laid out: such a
reference is taken over from its node as it is (`Graph.textureTables_named`).
-/

namespace ShaderGraph

open Pass

namespace SlotKind

variable {kind : SlotKind}

/-- The kind of textures that are listed in a table, nothing for the tables of numbers. -/
def textureType? : SlotKind → Option ValueType
  | scalar | vector => none
  | texture2D => some .texture2D
  | textureCube => some .textureCube
  | texture2DArray => some .texture2DArray
  | volumeTexture => some .volumeTexture
  | externalTexture => some .textureExternal
  | virtualTexture => some .textureVirtual

/-- The table that a type of textures is listed in is that of its kind. -/
theorem eq_of_ofType? {type listed : ValueType} (h : ofType? type = some kind)
    (hlisted : kind.textureType? = some listed) : type = listed := by
  unfold ofType? at h
  split at h <;> cases h <;> cases hlisted
  all_goals
    rename_i hbits
    exact congrArg ValueType.mk hbits

theorem isTexture_of_textureType? {type : ValueType} (h : kind.textureType? = some type) :
    type.isTexture := by
  cases kind <;> cases h <;> rfl

end SlotKind

namespace Pass

variable {p q : Pass}

/-! ### What slots are given to -/

/-- A uniform expression is that of a chunk whose type is listed in a table. -/
def Lists (p : Pass) (kind : SlotKind) (u : SharedUniform) : Prop :=
  ∃ k, ∃ c ∈ p.scope k, c.uniform? = some u ∧ SlotKind.ofType? c.type = some kind

/-- What is in a table is the expression of a chunk. -/
def Sourced (p : Pass) : Prop := ∀ kind, ∀ u ∈ p.slots.table kind, p.Lists kind u

/-- A step adds only the expression of a chunk to a table. -/
theorem Step.mem_table (h : Step p q) {kind : SlotKind} {u : SharedUniform}
    (hu : u ∈ q.slots.table kind) : u ∈ p.slots.table kind ∨ p.Lists kind u := by
  cases h with
  | effect h =>
    cases h with
    | idle hcode _ =>
      have hslots : q.slots = p.slots := congrArg CodeState.slots hcode
      exact .inl (hslots ▸ hu)
    | @slot k i c v given hc hv hgiven =>
      by_cases hkind : kind = given
      · subst hkind
        rw [UniformSet.table_withTable_self] at hu
        refine (mem_of_mem_addSlot hu).imp_right ?_
        rintro rfl
        exact ⟨k, c, List.mem_of_getElem? hc, (Option.filter_eq_some_iff.mp hv).1, hgiven⟩
      · rw [UniformSet.table_withTable_of_ne _ hkind] at hu
        exact .inl hu
    | newStack | nextLayer | ownLayer => cases kind <;> exact .inl hu
    | _ => exact .inl hu
  | programs h =>
    rw [table_withPrograms h] at hu
    exact .inl hu
  | _ => exact .inl hu

theorem Reaches.sourced (h : Reaches {} p) : p.Sourced := by
  refine h.invariant (P := Sourced) (fun p q hstep hp kind u hu => ?_) fun kind u hu => ?_
  · obtain ⟨k, c, hc, hlists⟩ := (hstep.mem_table hu).elim (hp kind u) id
    exact ⟨k, c, (hstep.retains.scopes k).subset hc, hlists⟩
  · cases kind <;> cases hu

end Pass

/-! ### Runs -/

/-- The terms on which only nodes of a graph say that a texture is laid out. -/
def Graph.layoutTerms (g : Graph) : Terms where
  loud := False
  lax := True
  laid ref := ∃ node ∈ g.nodes, node.laidOut? = some ref

theorem Graph.keeps_layout (g : Graph) : g.Keeps g.layoutTerms :=
  ⟨fun _ _ _ => trivial, False.elim, fun node hnode _ href => ⟨node, hnode, href⟩,
    trivial⟩

theorem Graph.tables_allowed (g : Graph) (env : Environment) {o : Outcome} {p : Pass}
    (h : run env (some g.expressions) {} = .ok o p) {kind : SlotKind} {type : ValueType}
    (hkind : kind.textureType? = some type) {u : SharedUniform} (hu : u ∈ o.slots.table kind) :
    ∃ ref, u.expr = .texture ref ∧ g.layoutTerms.Allows env ref type := by
  obtain ⟨l, -, -, hends⟩ := run_observed (Ledger.once_sound _) g.keeps_layout.tracked env
  obtain ⟨q, hq, hfixes, -⟩ := hends.ok h
  have ho := run_concluded (some g) h
  rw [ho.slots] at hu
  obtain ⟨k, c, hc, hform, htype⟩ := ho.reached.sourced kind u hu
  have hscope : p.scope k = q.scope k := by simp only [scope, hfixes.code]
  obtain rfl := SlotKind.eq_of_ofType? htype hkind
  exact (hq.sane.chunks k c (hscope ▸ hc)).texture u hform
    (SlotKind.isTexture_of_textureType? hkind)

/-- **The tables of textures name textures of the material**, each of the kind of its table, where
without virtual texturing a virtual texture is an ordinary one. With virtual texturing, the table of
virtual textures may also list the reference of a sample whose texture the renderer is said to have
laid out, whatever texture that is. -/
theorem Graph.textureTables_named (g : Graph) (env : Environment) {o : Outcome} {p : Pass}
    (h : run env (some g.expressions) {} = .ok o p) {kind : SlotKind} {type : ValueType}
    (hkind : kind.textureType? = some type) {u : SharedUniform} (hu : u ∈ o.slots.table kind) :
    ∃ ref, u.expr = .texture ref ∧ (env.Names ref type ∨
      type = .textureVirtual ∧ env.options.virtualTexturing = true ∧
        ∃ node ∈ g.nodes, node.laidOut? = some ref) :=
  g.tables_allowed env h hkind hu

/-- A sample of a texture, and one of a texture that the renderer is said to have laid out. -/
def Graph.twoSamples : Graph where
  nodes := [.textureSample {},
    .virtualTextureSample { textureIndex := 3, sampler := .virtualColor } 0 0]

/-- A material with one texture, a virtual one, that is sampled without virtual texturing. -/
def plainMaterial : Environment where
  material :=
    { textures := [{ name := "T", type := .textureVirtual, sizeX := 4, sizeY := 4 }]
      inputs := (PropertyTable.const Input.none).set .baseColor ⟨1, 0⟩ }

/-- The virtual texture is listed as an ordinary one. -/
theorem Graph.textureTables_named_plain :
    ∃ o p, run plainMaterial (some twoSamples.expressions) {} = .ok o p ∧ o.success = true ∧
      ∃ u ∈ o.slots.textures2D, ∃ ref, u.expr = .texture ref ∧
        plainMaterial.Names ref .texture2D := by
  obtain ⟨o, p, h, hsuccess, hlisted⟩ :
      ∃ o p, run plainMaterial (some twoSamples.expressions) {} = .ok o p ∧ o.success = true ∧
        o.slots.textures2D ≠ [] := by decide +kernel
  obtain ⟨u, hu⟩ := List.exists_mem_of_ne_nil _ hlisted
  obtain ⟨ref, href, hnamed | ⟨hvirtual, -⟩⟩ :=
    textureTables_named twoSamples plainMaterial h
      (show SlotKind.texture2D.textureType? = some .texture2D from rfl) hu
  · exact ⟨o, p, h, hsuccess, u, hu, ref, href, hnamed⟩
  · exact absurd hvirtual (by decide)

/-- A material with one ordinary texture, whose color is sampled from a fourth one. -/
def strayMaterial : Environment where
  material :=
    { textures := [{ name := "T", type := .texture2D, sizeX := 4, sizeY := 4 }]
      inputs := (PropertyTable.const Input.none).set .baseColor ⟨2, 0⟩ }
  options := { virtualTexturing := true }

/-- The fourth texture is listed, though there is none. -/
theorem Graph.textureTables_stray :
    ∃ o p, run strayMaterial (some twoSamples.expressions) {} = .ok o p ∧ o.success = true ∧
      strayMaterial.material.textures.length = 1 ∧
      ∃ u ∈ o.slots.texturesVirtual, u.expr = .texture ⟨.asset, "", 3, .virtualColor, 0, 0⟩ := by
  decide +kernel

end ShaderGraph
