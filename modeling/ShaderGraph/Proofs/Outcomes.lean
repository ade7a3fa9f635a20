import ShaderGraph.Proofs.Phases

/-!
# What an outcome says of success

Success, the diagnostics, the last phase and the error of an outcome are kept in different places:
a problem may be held back, replayed or dropped as one that was reported before, and the phase is
settled when the material has been checked as a whole. They agree nevertheless (`Pass.run_agrees`),
since a diagnostic is added in one place only, which marks the pass as failed (`Pass.Candid`).
-/

namespace ShaderGraph

namespace Pass

/-- How a compilation ends, with or without a graph. -/
structure Concluded (o : Outcome) (p : Pass) : Prop where
  reached : Reaches {} p
  slots : o.slots = p.slots
  success : o.success = p.success
  diagnostics : o.diagnostics = p.diagnostics
  phase : o.phase = if p.success then .success else .failed
  trace : o.trace.getLast? = some o.phase

theorem run_concluded {env : Environment} (g? : Option Graph) {o : Outcome} {p : Pass}
    (h : run env (g?.map Graph.expressions) {} = .ok o p) : Concluded o p := by
  cases g? with
  | none =>
    obtain ⟨_, p₁, hinit, h⟩ := exists_of_bind h
    obtain ⟨_, p₂, hreport, h⟩ := exists_of_bind h
    obtain ⟨_, p₃, hfailed, h⟩ := exists_of_bind h
    have hp₁ := (enter_safe _).ready _ ready_init _ _ hinit
    have hp₂ := (reportGlobally_safe _).ready p₁ hp₁ _ _ hreport
    have hp₃ := (enter_safe _).ready p₂ hp₂ _ _ hfailed
    obtain ⟨log, -, heq⟩ := addDiagnostic_eq
      ⟨(Problem.noGraph env.material.name).message, 0, (Problem.noGraph env.material.name).kind⟩ p₁
    cases heq.symm.trans hreport
    cases hfailed
    cases h
    exact ⟨hp₃.reached, rfl, rfl, rfl, rfl, List.getLast?_concat⟩
  | some g =>
    have hp := run_completed g.expressions_safe h
    have hrest := hp.rest
    refine ⟨hp.reached, hp.slots, ?_, ?_, ?_, ?_⟩
    · exact congrArg Outcome.success hrest
    · exact congrArg Outcome.diagnostics hrest
    · exact (congrArg Outcome.phase hrest).trans hp.phase
    · rw [show o.trace = p.trace from congrArg Outcome.trace hrest,
        show o.phase = p.phase from congrArg Outcome.phase hrest]
      exact hp.trace

/-- A pass has failed exactly if it has a diagnostic, and no message comes up twice. -/
structure Candid (p : Pass) : Prop where
  success : p.success = true ↔ p.diagnostics = []
  distinct : (p.diagnostics.map (·.message)).Nodup

namespace Candid

variable {p q : Pass}

theorem of_records (hp : p.Candid) (h : q.records = p.records) : q.Candid := by
  have hsuccess : q.success = p.success := congrArg RecordState.success h
  have hdiagnostics : q.diagnostics = p.diagnostics := congrArg RecordState.diagnostics h
  exact ⟨hsuccess ▸ hdiagnostics ▸ hp.success, hdiagnostics ▸ hp.distinct⟩

/-- A report fails the pass, and adds a diagnostic only if its message is new. -/
theorem withReport (hp : p.Candid) (d : Diagnostic) : (p.withReport d).Candid := by
  unfold Pass.withReport
  split
  case isTrue hknown =>
    refine ⟨⟨nofun, fun hnone => ?_⟩, hp.distinct⟩
    rw [show p.diagnostics = [] from hnone] at hknown
    cases hknown
  case isFalse hnew =>
    refine ⟨⟨nofun, by simp⟩, ?_⟩
    have habsent : ∀ e ∈ p.diagnostics, e.message ≠ d.message := by simpa using hnew
    simpa [List.nodup_append] using ⟨hp.distinct, habsent⟩

theorem step (hp : p.Candid) (h : Step p q) : q.Candid := by
  cases h with
  | effect h =>
    cases h with
    | idle _ hrecords => exact hp.of_records hrecords
    | report d => exact hp.withReport d
    | _ => exact ⟨hp.success, hp.distinct⟩
  | _ => exact ⟨hp.success, hp.distinct⟩

end Candid

theorem Reaches.candid {p : Pass} (h : Reaches {} p) : p.Candid :=
  h.invariant (fun _ _ hstep hp => hp.step hstep) ⟨by simp, by simp⟩

/-- **The parts of an outcome agree.** Whatever the material, the options and the problems, success
means that there are no diagnostics, that the last phase is that of success and that there is no
error. The phase is the last of the trace and one of two, and no two diagnostics have one
message. -/
theorem run_agrees (env : Environment) (g? : Option Graph) {o : Outcome} {p : Pass}
    (h : run env (g?.map Graph.expressions) {} = .ok o p) :
    (o.success = true ↔ o.diagnostics = []) ∧
    (o.diagnostics = [] ↔ o.phase = .success) ∧
    (o.phase = .success ↔ o.error? = none) ∧
    o.trace.getLast? = some o.phase ∧ (o.phase = .success ∨ o.phase = .failed) ∧
    (o.diagnostics.map (·.message)).Nodup := by
  have ho := run_concluded g? h
  have hcandid := ho.reached.candid
  have hsuccess : o.success = true ↔ o.diagnostics = [] := by
    rw [ho.success, ho.diagnostics]
    exact hcandid.success
  have hphase : o.success = true ↔ o.phase = .success := by
    rw [ho.phase, ho.success]
    cases p.success <;> simp
  have herror : o.success = true ↔ o.error? = none := by
    unfold Outcome.error? Outcome.diagnosticText?
    cases hfailed : o.success with
    | true => simp
    | false =>
      have hne : o.diagnostics ≠ [] := fun hnone => by simp [hsuccess.mpr hnone] at hfailed
      simpa using hne
  refine ⟨hsuccess, hsuccess.symm.trans hphase, hphase.symm.trans herror, ho.trace, ?_, ?_⟩
  · rw [ho.phase]
    cases p.success <;> simp
  · rw [ho.diagnostics]
    exact hcandid.distinct

/-- Two interpolators of what has no absolute value. -/
def twiceMisused : Graph where
  nodes := [.staticBool true, .unary .abs ⟨1, 0⟩, .vertexInterpolator ⟨2, 0⟩,
    .vertexInterpolator ⟨2, 0⟩]

/-- The material that reads both. -/
def twiceMisusedMaterial : Environment where
  material :=
    { inputs := ((PropertyTable.const Input.none).set .metallic ⟨3, 0⟩).set .roughness ⟨4, 0⟩,
      interpolators := [3, 4] }

/-- What is wrong with either interpolator is held back and replayed, but reported only once. -/
theorem run_agrees_twiceMisused :
    ∃ o p, run twiceMisusedMaterial (some twiceMisused.expressions) {} = .ok o p ∧
      o.diagnostics.length = 2 ∧ (o.diagnostics.map (·.message)).Nodup ∧ o.success = false ∧
      o.trace.getLast? = some .failed ∧ o.error?.isSome := by
  obtain ⟨o, p, h, htwo⟩ :
      ∃ o p, run twiceMisusedMaterial (some twiceMisused.expressions) {} = .ok o p ∧
        o.diagnostics.length = 2 := by decide +kernel
  obtain ⟨hsuccess, hphase, herror, htrace, hlast, hdistinct⟩ :=
    run_agrees twiceMisusedMaterial (some twiceMisused) h
  have hne : o.diagnostics ≠ [] := fun hnone => by simp [hnone] at htwo
  have hfailed : o.phase = .failed := hlast.resolve_left fun h => hne (hphase.mpr h)
  refine ⟨o, p, h, htwo, hdistinct, Bool.eq_false_iff.mpr fun h => hne (hsuccess.mp h),
    hfailed ▸ htrace, Option.isSome_iff_ne_none.mpr fun hnone => ?_⟩
  exact hne (hphase.mpr (herror.mpr hnone))

end Pass

end ShaderGraph
