import ShaderGraph.Proofs.Defaults
import ShaderGraph.Proofs.Failures

/-!
# Textures in the slots of numbers

The program of a slot computes a number or a vector, and a texture has no program. So what a
compilation ends with has no textures in these slots. But it does not always end: some operations do
not check that their operands are numbers, and fold a texture into an expression that passes for a
number. A compilation that comes to such a slot breaks off instead of reporting it
(`Builder.measured_faults`), and without such operations none does (`Graph.slots_textureFree`).
-/

namespace ShaderGraph

open Pass

/-- A set with programs has one for each scalar and vector, and no textures in them. -/
theorem UniformSet.withPrograms_textureFree {set slots : UniformSet}
    (h : set.withPrograms = .ok slots) :
    slots.scalarPrograms.length = slots.scalars.length ∧
      slots.vectorPrograms.length = slots.vectors.length ∧
      ∀ u ∈ slots.scalars ++ slots.vectors, u.expr.isTextureFree := by
  obtain ⟨hscalars, hvectors, -⟩ := withPrograms_programs h
  exact ⟨hscalars.length_eq.symm, hvectors.length_eq.symm,
    List.forall_mem_append.2 ⟨hscalars.textureFree, hvectors.textureFree⟩⟩

/-- **The slots of scalars and vectors have programs** and no textures, if the textures of the
material have the types of textures and the compilation does not break off over one that has none.
It does that only over an expression in which a texture is the operand of an operation that does
not check it, and only if the graph has such operations. -/
theorem Graph.slots_textureFree (g : Graph) (env : Environment)
    (htyped : env.material.TexturesTyped) :
    (∀ o p, run env (some g.expressions) {} = .ok o p →
      o.slots.scalarPrograms.length = o.slots.scalars.length ∧
      o.slots.vectorPrograms.length = o.slots.vectors.length ∧
      ∀ u ∈ o.slots.scalars ++ o.slots.vectors, u.expr.isTextureFree) ∧
    ∀ p, run env (some g.expressions) {} = .error .textureProgram p →
      (∃ node ∈ g.nodes, node.isLax) ∧
      ∃ u ∈ p.slots.scalars ++ p.slots.vectors,
        u.expr.isTextureFree = false ∧ u.expr.isTexture = false ∧ u.expr.texturesUnchecked := by
  have hkeeps : g.Keeps { loud := False, lax := ∃ node ∈ g.nodes, node.isLax } :=
    ⟨fun node hnode hlax => ⟨node, hnode, hlax⟩, False.elim, fun _ _ _ _ => trivial, trivial⟩
  obtain ⟨l, -, -, hends⟩ := run_observed (Ledger.once_sound _) hkeeps.tracked env
  refine ⟨fun o p hrun => ?_, fun p hrun => ?_⟩
  · obtain ⟨q, -, hfixes, texts, rfl⟩ := hends.ok hrun
    exact UniformSet.withPrograms_textureFree hfixes.programs
  · rcases hends.error hrun with hother | ⟨-, q, hq, hslots, u, hu, hfree⟩
    · cases hother
    · obtain ⟨hadmitted, hnumber⟩ := hq.sane.slots htyped u hu
      rw [hslots]
      refine ⟨?_, u, hu, hfree, hnumber, hadmitted.unchecked⟩
      rcases hadmitted.free_of_number hnumber with hlax | hfree'
      · exact hlax
      · rw [hfree] at hfree'
        cases hfree'

/-- The length of a texture. -/
def Builder.measured : Builder where
  strict := true
  graph := { nodes := [.textureObject 0 .color, .unary .length ⟨1, 0⟩] }

theorem Builder.measured_built : measured.Built true :=
  .step (.step .start (.textureObject 0 .color) rfl) (.unary .length ⟨1, 0⟩) rfl

/-- A material whose roughness is the length of its only texture. -/
def measuredMaterial : Environment where
  material :=
    { name := "measured"
      textures := [{ name := "T", type := .texture2D, sizeX := 4, sizeY := 4 }]
      inputs := (PropertyTable.const Input.none).set .roughness ⟨2, 0⟩ }

/-- A slot has the length of a texture in it. -/
theorem Graph.slots_textureFree_measured :
    measuredMaterial.material.TexturesTyped ∧
      ∃ p, run measuredMaterial (some Builder.measured.graph.expressions) {} =
          .error .textureProgram p ∧
        ∃ u ∈ p.slots.scalars ++ p.slots.vectors,
          u.expr.isTextureFree = false ∧ u.expr.texturesUnchecked := by
  have htyped : measuredMaterial.material.TexturesTyped := by decide
  obtain ⟨p, hp, -⟩ : ∃ p, run measuredMaterial (some Builder.measured.graph.expressions) {} =
      .error .textureProgram p ∧ True := by decide +kernel
  obtain ⟨-, u, hu, hfree, -, hunchecked⟩ := (slots_textureFree _ _ htyped).2 p hp
  exact ⟨htyped, p, hp, u, hu, hfree, hunchecked⟩

/-- A strict builder takes the length of a texture for a number. The compilation finds nothing to
report about it, and breaks off over its program. -/
theorem Builder.measured_faults :
    measured.Built true ∧ measuredMaterial.material.TexturesTyped ∧
      ∃ p, run measuredMaterial (some measured.graph.expressions) {} =
        .error .textureProgram p ∧ p.diagnostics = [] := by
  refine ⟨measured_built, by decide, ?_⟩
  decide +kernel

end ShaderGraph
