import ShaderGraph.Proofs.Closure
import ShaderGraph.Proofs.Construction
import ShaderGraph.Proofs.Scoping

/-!
# Failures are reported

A property that is compiled can end without code, which is written as zero. Over a graph that a
strict builder made, that never goes unnoticed: the compilation fails, and says why
(`Builder.failures_reported`).

What a strict builder does for that is to refuse an interpolator of nothing. All other nodes report
it themselves when they give no code, or the node that they have no code from did; and what was held
back while an interpolator was tried out is reported where it is read.
-/

namespace ShaderGraph

variable {property : Property}

open Pass

/-- **What a strict builder makes** reports whatever gives no code. -/
theorem Builder.Built.keeps {b : Builder} (h : b.Built true) :
    b.graph.Keeps { loud := True, lax := True } :=
  ⟨fun _ _ _ => trivial, fun _ => h.inOrder.2, fun _ _ _ _ => trivial, trivial⟩

/-! ### What is reported -/

instance (log : List LogEntry) (property : Property) : Decidable (Logged log property) :=
  inferInstanceAs (Decidable (∃ e ∈ log, _))

/-- The log of an outcome says of no more properties that they were compiled than its state. -/
theorem Outcome.logged_of_ofPass {p : Pass} {m : Material}
    (h : Logged (Outcome.ofPass p m).log property) : Logged p.log property := by
  obtain ⟨e', he', hmessage, hattribute⟩ := h
  obtain ⟨e, he, rfl⟩ := List.mem_map.1 he'
  refine ⟨e, he, hmessage, (List.mem_cons.1 hattribute).resolve_left fun heq => ?_⟩
  exact absurd (Prod.mk.inj heq).1 (by decide)

/-- A property without code is written as zero. -/
theorem Pass.Completed.value_eq_zero {env : Environment} {o : Outcome} {p : Pass}
    (hp : Completed env o p) (h : p.results.get property = none) :
    (o.properties.get property).value = "0" := by
  by_cases hnormal : property = .normal
  · subst hnormal
    have hbody : p.normalBody = .ok (o.properties.get .normal) := hp.propertyBody .normal
    rw [normalBody, h] at hbody
    rw [← Except.ok.inj hbody]
    rfl
  · have hbody := hp.body_of_ne hnormal
    rw [h] at hbody
    rw [← Except.ok.inj hbody]

/-- **Nothing fails silently.** If a property is compiled and ends without code, the compilation of
a graph that a strict builder made has failed and says why. So if it succeeds, every property that
was compiled has code. -/
theorem Builder.failures_reported {b : Builder} (hb : b.Built true) (env : Environment)
    {o : Outcome} {p : Pass} (h : run env (some b.graph.expressions) {} = .ok o p) :
    (∀ property, Logged o.log property → p.results.get property = none →
      (o.properties.get property).value = "0" ∧ o.success = false ∧ o.diagnostics ≠ []) ∧
    (o.success → ∀ property, Logged o.log property → ∃ i d, p.results.get property = some i ∧
      (p.scope (p.stageScopes.get property.stage))[i]? = some d) := by
  obtain ⟨l, -, -, hends⟩ := run_observed (Ledger.once_sound _) hb.keeps.tracked env
  obtain ⟨q, hq, hfixes, texts, rfl⟩ := hends.ok h
  have hcompleted := run_completed b.graph.expressions_safe h
  have hfailed : ∀ property, Logged (texts.outcome p env.material).log property →
      p.results.get property = none → p.success = false := by
    intro property hlog hnone
    rw [hfixes.results] at hnone
    obtain ⟨e, he, hmessage, hattribute⟩ := Outcome.logged_of_ofPass hlog
    rw [hfixes.success]
    exact hq.reported trivial property ⟨e, hfixes.log e he hmessage, hmessage, hattribute⟩ hnone
  refine ⟨fun property hlog hnone => ?_, fun hsuccess property hlog => ?_⟩
  · have hfail := hfailed property hlog hnone
    refine ⟨hcompleted.value_eq_zero hnone, hfail, ?_⟩
    have hdiagnostics := hq.sane.failed (hfixes.success.symm.trans hfail)
    rwa [← hfixes.diagnostics] at hdiagnostics
  · cases hresult : p.results.get property with
    | none => exact absurd hsuccess (Bool.eq_false_iff.1 (hfailed property hlog hresult))
    | some i =>
      rw [hfixes.results] at hresult
      obtain ⟨d, hd, -⟩ := hq.sane.results property i hresult
      rw [hfixes.stageScopes]
      obtain ⟨hlt, -⟩ := List.getElem?_eq_some_iff.1 hd
      exact ⟨i, _, rfl, List.getElem?_eq_getElem (hfixes.lt_scope hlt)⟩

/-- The absolute value of a boolean, which there is none of. -/
def Builder.misused : Builder where
  strict := true
  graph := { nodes := [.staticBool true, .unary .abs ⟨1, 0⟩] }

theorem Builder.misused_built : misused.Built true :=
  .step (.step .start (.staticBool true) rfl) (.unary .abs ⟨1, 0⟩) rfl

/-- A material with one node for two properties. -/
def misusedMaterial : Environment where
  material :=
    { inputs := ((PropertyTable.const Input.none).set .metallic ⟨2, 0⟩).set .roughness ⟨2, 0⟩ }

/-- The node is compiled once and reported once, and both properties are without code. -/
theorem Builder.failures_reported_misused :
    ∃ o p, run misusedMaterial (some misused.graph.expressions) {} = .ok o p ∧
      Logged o.log .roughness ∧ p.results.get .roughness = none ∧ o.diagnostics.length = 1 ∧
      (o.properties.get .roughness).value = "0" ∧ o.success = false := by
  obtain ⟨o, p, h, hlog, hnone, hone⟩ :
      ∃ o p, run misusedMaterial (some misused.graph.expressions) {} = .ok o p ∧
        Logged o.log .roughness ∧ p.results.get .roughness = none ∧
        o.diagnostics.length = 1 := by decide +kernel
  obtain ⟨hzero, hfailed, -⟩ := (failures_reported misused_built _ h).1 _ hlog hnone
  exact ⟨o, p, h, hlog, hnone, hone, hzero, hfailed⟩

end ShaderGraph
