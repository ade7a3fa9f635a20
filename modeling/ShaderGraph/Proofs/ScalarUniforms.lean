import ShaderGraph.Proofs.CoordinateBudget

/-!
# Scalars that a compilation comes to

The types of the expressions that a compilation has in its table when it ends fit together, whatever
the graph and the material (`Pass.Sane.coherent`). So each scalar among them has a replicated value,
as long as scalars are kept apart from vectors in it (`Graph.run_scalars`).
-/

namespace ShaderGraph

open Pass

namespace Graph

/-- **The value of a scalar is replicated** for all expressions that the compilation of a graph
comes to, if scalars are kept apart from vectors in them. -/
theorem run_scalars (g : Graph) (env : Environment) {o : Outcome} {p : Pass}
    (h : run env (some g.expressions) {} = .ok o p) {u : SharedUniform} (hu : u ∈ p.uniforms)
    (hscalar : u.expr.isScalar) (happart : u.expr.keepsScalarsApart) :
    (u.expr.evaluate []).IsScalar := by
  obtain ⟨l, -, -, hends⟩ := run_observed (Ledger.once_sound .lenient) g.keeps_lenient.tracked env
  obtain ⟨q, hq, hfixes, -⟩ := hends.ok h
  exact u.expr.evaluate_isScalar (hq.sane.coherent u (hfixes.uniforms ▸ hu)) hscalar happart

/-- A scalar and a vector parameter, the length of the vector, and the smaller of the scalar and
another of them. -/
def limited (other : NodeId) : Graph where
  nodes := [.scalarParameter "Limit" .one, .vectorParameter "Tint" ⟨.one, .half, .zero, .one⟩,
    .unary .length ⟨2, 0⟩, .binary .min ⟨1, 0⟩ ⟨other, 0⟩ .zero .zero]

/-- The material that reads it for its metallic property. -/
def limitedMaterial : Environment where
  material := { inputs := (PropertyTable.const Input.none).set .metallic ⟨4, 0⟩ }

/-- The smaller of two scalars is replicated. -/
theorem run_scalars_length :
    ∃ o p, run limitedMaterial (some (limited 3).expressions) {} = .ok o p ∧ ∃ u ∈ p.uniforms,
      u.expr.text = "min(param(Limit),length(param(Tint)))" ∧ u.expr.isScalar ∧
        (u.expr.evaluate []).IsScalar := by
  obtain ⟨o, p, hrun, u, hu, htext, hscalar, happart⟩ :
      ∃ o p, run limitedMaterial (some (limited 3).expressions) {} = .ok o p ∧ ∃ u ∈ p.uniforms,
        u.expr.text = "min(param(Limit),length(param(Tint)))" ∧ u.expr.isScalar ∧
          u.expr.keepsScalarsApart := by decide +kernel
  exact ⟨o, p, hrun, u, hu, htext, hscalar, (limited 3).run_scalars _ hrun hu hscalar happart⟩

instance (v : Value) : Decidable v.IsScalar := inferInstanceAs (Decidable (v = _))

/-- The smaller of a scalar and a vector is of scalar type, and its components differ. -/
theorem run_limited_vector :
    ∃ o p, run limitedMaterial (some (limited 2).expressions) {} = .ok o p ∧ o.success = true ∧
      ∃ u ∈ p.uniforms, u.expr.isScalar ∧ ¬(u.expr.evaluate []).IsScalar := by
  decide +kernel

end Graph

end ShaderGraph
