import ShaderGraph.Proofs.Outcomes

/-!
# Types of results

Whatever a property is connected to, what is recorded for it is a chunk of the scope of its stage
that goes with its type, or with that type and an appended parameter (`Pass.run_results`). A shading
model is the exception: connected to a scalar literal it is recorded as a literal of four
components, which no shading model is (`Pass.run_literalModel`).
-/

namespace ShaderGraph

namespace Pass

/-- Every result is one that its property admits. -/
def Typed (p : Pass) : Prop := ∀ property, p.Suits property (p.results.get property)

namespace Typed

variable {p q : Pass}

/-- A result may be recorded if it suits its property. -/
theorem withResult (hp : p.Typed) {property : Property} {c : Code} (h : p.Suits property c) :
    (p.withResult property c).Typed := by
  intro other
  by_cases heq : other = property
  · subst heq
    rw [Pass.withResult, PropertyTable.get_set_self]
    exact h
  · rw [Pass.withResult, PropertyTable.get_set_of_ne _ heq]
    exact hp other

/-- What leaves the results alone leaves them typed, since chunks stay where they are. -/
theorem of_results (hp : p.Typed) (h : Effect p q) (hresults : q.results = p.results) :
    q.Typed := by
  intro property
  rw [hresults]
  exact (Evolves.single h).suits (hp property)

theorem effect (hp : p.Typed) (h : Effect p q) : q.Typed := by
  have hkept := hp.of_results h
  cases h with
  | idle hcode _ => exact hkept (congrArg CodeState.results hcode)
  | result _ hsuits => exact hp.withResult hsuits
  | _ => exact hkept rfl

theorem step (hp : p.Typed) (h : Step p q) : q.Typed := by
  cases h with
  | effect h => exact hp.effect h
  | stage stage k hresults =>
    intro property
    rw [show p.results.get property = none from hresults property]
    exact .none
  | normal hsuits => exact hp.withResult hsuits
  | normalEnd => exact hp
  | programs => exact hp

end Typed

theorem Reaches.typed {p : Pass} (h : Reaches {} p) : p.Typed :=
  h.invariant (fun _ _ hstep hp => hp.step hstep) fun _ => .none

/-- **Results have the types of their properties.** When a compilation ends, the code recorded for a
property is a chunk of the scope of its stage. The type of the chunk goes with that of the property,
where a subsurface color has a fourth component and a refraction a second one; only a shading model
can be a literal of four components instead. -/
theorem run_results (env : Environment) (g? : Option Graph) {o : Outcome} {p : Pass}
    (h : run env (g?.map Graph.expressions) {} = .ok o p) (property : Property) (i : Nat)
    (hi : p.results.get property = some i) :
    ∃ d, (p.scope (p.stageScopes.get property.stage))[i]? = some d ∧
      (d.type.shares property.resultType ∨
        property = .shadingModel ∧ d.type = .float4 ∧ d.folded?.isSome) :=
  (run_concluded g? h).reached.typed property i hi

/-- The type of what is recorded for a property. -/
def typeOfResult? (p : Pass) (property : Property) : Option ValueType :=
  (p.results.get property).bind fun i =>
    ((p.scope (p.stageScopes.get property.stage))[i]?).map (·.type)

theorem exists_of_typeOfResult? {p : Pass} {property : Property} {type : ValueType}
    (h : p.typeOfResult? property = some type) :
    ∃ i d, p.results.get property = some i ∧
      (p.scope (p.stageScopes.get property.stage))[i]? = some d ∧ d.type = type := by
  obtain ⟨i, hi, hd⟩ := Option.bind_eq_some_iff.mp h
  obtain ⟨d, hd, htype⟩ := Option.map_eq_some_iff.mp hd
  exact ⟨i, d, hi, hd, htype⟩

/-- A scalar parameter and a scalar literal. -/
def waxed : Graph where
  nodes := [.scalarParameter "Wax" .half, .constant .half]

/-- A translucent material with a subsurface color. -/
def waxedMaterial : Environment where
  material :=
    { inputs := ((PropertyTable.const Input.none).set .subsurfaceColor ⟨1, 0⟩).set .refraction
        ⟨2, 0⟩,
      shadingModels := .single .subsurface, blendMode := .translucent }

/-- A scalar becomes a subsurface color with its profile. -/
theorem run_results_waxed :
    ∃ o p, run waxedMaterial (some waxed.expressions) {} = .ok o p ∧ o.success = true ∧
      p.typeOfResult? .refraction = some .float2 ∧
      ∃ i d, p.results.get .subsurfaceColor = some i ∧
        (p.scope (p.stageScopes.get .pixel))[i]? = some d ∧ d.type.shares .float4 := by
  obtain ⟨o, p, h, hsuccess, hrefraction, hcolor⟩ :
      ∃ o p, run waxedMaterial (some waxed.expressions) {} = .ok o p ∧ o.success = true ∧
        p.typeOfResult? .refraction = some .float2 ∧
        (p.results.get .subsurfaceColor).isSome := by decide +kernel
  obtain ⟨i, hi⟩ := Option.isSome_iff_exists.mp hcolor
  obtain ⟨d, hd, htype | ⟨hother, -⟩⟩ := run_results waxedMaterial (some waxed) h _ i hi
  · exact ⟨o, p, h, hsuccess, hrefraction, i, d, hi, hd, htype⟩
  · exact absurd hother (by decide)

/-- A scalar literal. -/
def literalModel : Graph where
  nodes := [.constant .one]

/-- The material that has it for its shading model. -/
def literalModelMaterial : Environment where
  material := { inputs := (PropertyTable.const Input.none).set .shadingModel ⟨1, 0⟩ }

/-- A scalar literal is widened to four components where a shading model is asked for, and nothing
is reported. -/
theorem run_literalModel :
    ∃ o p, run literalModelMaterial (some literalModel.expressions) {} = .ok o p ∧
      o.success = true ∧ ∃ i d, p.results.get .shadingModel = some i ∧
        (p.scope (p.stageScopes.get Property.shadingModel.stage))[i]? = some d ∧
        d.type.shares Property.shadingModel.type = false := by
  obtain ⟨o, p, h, hsuccess, htype⟩ :
      ∃ o p, run literalModelMaterial (some literalModel.expressions) {} = .ok o p ∧
        o.success = true ∧ p.typeOfResult? .shadingModel = some .float4 := by decide +kernel
  obtain ⟨i, d, hi, hd, htype⟩ := exists_of_typeOfResult? htype
  exact ⟨o, p, h, hsuccess, i, d, hi, hd, htype ▸ by decide⟩

end Pass

end ShaderGraph
