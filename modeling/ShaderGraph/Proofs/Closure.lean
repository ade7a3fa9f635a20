import ShaderGraph.Proofs.Phases

/-!
# Generated code is closed

Whatever the graph is, each temporary that the code of a property reads is declared exactly once, on
an earlier line of its own definitions or, for what shares the scope of the normal, of those of the
normal before them. So is what functions generated apart read. Since the scopes of a completed
pass are in order, all that is left is where a body starts and stops.
-/

namespace ShaderGraph

/-- A body is that of a chunk of the scope. -/
theorem Scope.lt_of_body {s : Scope} {start stop i : Nat} {b : Body}
    (h : s.body start stop (some i) = .ok b) : i < s.length := by
  apply Nat.lt_of_not_le
  intro hge
  simp [Scope.body, List.getElem?_eq_none hge] at h

/-- The declarations that the code of a property stands after. -/
def Outcome.definitionsBefore (o : Outcome) (property : Property) : String :=
  if property.isShared && property != .normal then (o.properties.get .normal).definitions else ""

namespace Pass

variable {p : Pass} {env : Environment} {o : Outcome}

/-- What is fixed for a property stays so while other properties are. -/
theorem propertyBody_of_foldlM {properties : List Property} {first bodies : PropertyTable Body}
    (h : properties.foldlM
      (fun table property => return table.set property (← p.propertyBody property)) first =
        .ok bodies) {property : Property}
    (hproperty : property ∈ properties ∨ p.propertyBody property = .ok (first.get property)) :
    p.propertyBody property = .ok (bodies.get property) := by
  induction properties generalizing first with
  | nil =>
    cases h
    simpa using hproperty
  | cons other rest ih =>
    obtain ⟨second, hsecond, hrest⟩ := exists_of_bind_ok h
    obtain ⟨body, hbody, hset⟩ := exists_of_bind_ok hsecond
    cases hset
    refine ih hrest ?_
    by_cases heq : property = other
    · subst heq
      exact .inr (by rw [hbody, PropertyTable.get_set_self])
    · rw [PropertyTable.get_set_of_ne _ heq]
      simpa [heq] using hproperty

namespace Completed

variable {property : Property}

theorem propertyBody (hp : Completed env o p) (property : Property) :
    p.propertyBody property = .ok (o.properties.get property) := by
  refine propertyBody_of_foldlM hp.bodies (.inl ?_)
  cases property with
  | customizedUV i => revert i; decide
  | _ => decide

/-- The definitions of the normal are all declarations up to its end. -/
theorem normal_body (hp : Completed env o p) :
    (o.properties.get .normal).definitions =
        (p.scope (p.stageScopes.get .pixel)).declarations 0 p.normalEnd ∧
      Text.Reads (· ∈ Scope.temporaries ((p.scope (p.stageScopes.get .pixel)).take p.normalEnd))
        (o.properties.get .normal).value := by
  have hnormal : p.normalBody = .ok (o.properties.get .normal) := hp.propertyBody .normal
  have hordered := hp.sound.ordered (p.stageScopes.get .pixel)
  obtain ⟨body, hbody, hset⟩ := exists_of_bind_ok hnormal
  rw [← Except.ok.inj hset]
  rcases hordered.body_ok hbody hp.normal with ⟨hdefinitions, hvalue⟩ | ⟨hdefinitions, hvalue⟩
  · rw [if_pos hdefinitions]
    exact ⟨rfl, hvalue.mono fun _ => False.elim⟩
  · split
    · exact ⟨rfl, hvalue⟩
    · exact ⟨hdefinitions, hvalue⟩

/-- The body of a property that is not the normal. -/
theorem body_of_ne (hp : Completed env o p) (h : property ≠ .normal) :
    (p.scope (p.stageScopes.get property.stage)).body
      (if property.isShared then p.normalEnd else 0)
      (p.scope (p.stageScopes.get property.stage)).length (p.results.get property) =
        .ok (o.properties.get property) := by
  have hbody := hp.propertyBody property
  rwa [Pass.propertyBody, if_neg h] at hbody

theorem stage_of_isShared (h : property.isShared = true) : property.stage = .pixel := by
  cases property <;> first | rfl | simp [Property.isShared] at h

/-- **The code of every property is closed** after the declarations that it stands after. -/
theorem closed_property (hp : Completed env o p) (property : Property) :
    (o.properties.get property).Closed (o.definitionsBefore property) := by
  have hordered := fun k => hp.sound.ordered k
  by_cases hnormal : property = .normal
  · subst hnormal
    obtain ⟨hdefinitions, hvalue⟩ := hp.normal_body
    refine ((hordered _).take p.normalEnd).closed_of_isLines ?_ hvalue
    have hlines := (hordered (p.stageScopes.get .pixel)).isLines_declarations 0 p.normalEnd
    rw [List.drop_zero, ← hdefinitions] at hlines
    simpa [Outcome.definitionsBefore] using hlines
  · have hbody := hp.body_of_ne hnormal
    cases hshared : property.isShared with
    | true =>
      rw [stage_of_isShared hshared, hshared, if_pos rfl] at hbody
      have hclosed := (hordered _).closed_body hbody hp.normalEnd_le fun i hi =>
        Scope.lt_of_body (hi ▸ hbody)
      rw [← hp.normal_body.1] at hclosed
      simpa [Outcome.definitionsBefore, hshared, hnormal] using hclosed
    | false =>
      rw [hshared, if_neg (by decide)] at hbody
      have hclosed := (hordered _).closed_body hbody (Nat.zero_le _) fun i hi =>
        Scope.lt_of_body (hi ▸ hbody)
      simpa [Outcome.definitionsBefore, hshared, Scope.declarations] using hclosed

end Completed

/-- **Generated code is closed and ordered.** In the outcome of a compilation over any graph, what
the code of a property reads is declared exactly once and before, and so is what the functions
generated for custom outputs and interpolators read. -/
theorem run_closed (env : Environment) (g : Graph) {o : Outcome} {p : Pass}
    (h : run env (some g.expressions) {} = .ok o p) :
    (∀ property, (o.properties.get property).Closed (o.definitionsBefore property)) ∧
      (∀ f ∈ p.implementations, ∃ type name parameters body,
        f = functionText type name parameters body ∧ body.Closed "") ∧
      o.source = (o.parts env p).source := by
  have hp := run_completed g.expressions_safe h
  exact ⟨hp.closed_property, hp.sound.implemented, hp.source⟩

/-- A normal, an emissive color that is computed from it, an interpolator and a custom output. -/
def squaredCoordinate : Graph where
  nodes :=
    [.textureCoordinate 0 .none .one .one, .binary .add ⟨1, 0⟩ ⟨1, 0⟩ .zero .one,
     .binary .multiply ⟨2, 0⟩ ⟨2, 0⟩ .zero .one, .vertexInterpolator ⟨3, 0⟩,
     .customOutput { name := "Square", stageCode := 3 } [⟨3, 0⟩]]

/-- The material that compiles all of them. -/
def squaredMaterial : Material where
  inputs := ((PropertyTable.const Input.none).set .normal ⟨2, 0⟩).set .emissiveColor ⟨3, 0⟩
  interpolators := [4]
  customOutputs := [5]

/-- The emissive color reads a temporary whose declaration reads one of the normal. -/
theorem run_closed_squaredCoordinate :
    ∃ o p, run ⟨squaredMaterial, {}⟩ (some squaredCoordinate.expressions) {} = .ok o p ∧
      Text.Mentions (o.properties.get .emissiveColor).value.toList 3 ∧
      Text.Mentions (o.properties.get .emissiveColor).definitions.toList 2 ∧
      p.implementations.length = 2 ∧
      (∀ property, (o.properties.get property).Closed (o.definitionsBefore property)) ∧
      ∀ f ∈ p.implementations, ∃ type name parameters body,
        f = functionText type name parameters body ∧ body.Closed "" := by
  obtain ⟨o, p, h, hvalue, hdefinitions, himplementations⟩ :
      ∃ o p, run ⟨squaredMaterial, {}⟩ (some squaredCoordinate.expressions) {} = .ok o p ∧
        Text.Mentions (o.properties.get .emissiveColor).value.toList 3 ∧
        Text.Mentions (o.properties.get .emissiveColor).definitions.toList 2 ∧
        p.implementations.length = 2 := by decide +kernel
  obtain ⟨hproperties, hfunctions, -⟩ := run_closed _ _ h
  exact ⟨o, p, h, hvalue, hdefinitions, himplementations, hproperties, hfunctions⟩

end Pass

end ShaderGraph
