import ShaderGraph.Proofs.Descent
import ShaderGraph.Proofs.Emission

/-!
# What is done within a licence

A step that knows nothing of frames leaves them as they are, and abides by its licence
(`Pass.Steps.remains`). No licence is about frames, so a whole compilation abides by the licence of
the steps that it is made from (`Graph.compileAt_minds`): each needs one to sample, and one to
generate functions only where no property is compiled.
-/

namespace ShaderGraph

namespace Pass

/-! ### Steps -/

/-- A state with the same frames that a step with the given licence can lead to. -/
structure Remains (L : Licence) (p q : Pass) : Prop extends Abides L p q where
  frames : q.frames = p.frames
  openFrames : q.openFrames = p.openFrames

section Steps

variable {L : Licence} {p q r : Pass} {α β : Type} {m : PassM α} {f : α → PassM β} {a : α}

theorem Remains.refl (p : Pass) : Remains L p p := ⟨.refl p, rfl, rfl⟩

theorem Remains.trans (h : Remains L p q) (h' : Remains L q r) : Remains L p r :=
  ⟨h.toAbides.trans h'.toAbides, h'.frames.trans h.frames, h'.openFrames.trans h.openFrames⟩

/-- A diagnostic is not held back. -/
theorem addDiagnostic_remains (hL : L.reports = true ∨ p.sink = none) (d : Diagnostic) :
    p.Gives (addDiagnostic d) fun _ q =>
      Remains L p q ∧ q.success = false ∧ ∃ d' ∈ q.diagnostics, d'.message = d.message := by
  obtain ⟨log, -, h⟩ := addDiagnostic_eq d p
  intro u q hq
  cases h.symm.trans hq
  have habides : ∀ {diagnostics : List Diagnostic}, p.diagnostics <+: diagnostics →
      Abides L p { p with success := false, diagnostics, log } := fun hprefix =>
    { Abides.refl p with
      failed := fun _ => rfl
      diagnostics := hprefix
      withholds := fun hreports held hheld => by
        rcases hL with hL | hsink
        · cases hL.symm.trans hreports
        · cases hsink.symm.trans hheld }
  unfold withReport
  split
  case isTrue hknown =>
    obtain ⟨d', hmem, hsame⟩ := List.any_eq_true.1 hknown
    exact ⟨⟨habides List.prefix_rfl, rfl, rfl⟩, rfl, d', hmem, eq_of_beq hsame⟩
  case isFalse =>
    exact ⟨⟨habides (List.prefix_append _ _), rfl, rfl⟩, rfl, d, List.mem_concat_self, rfl⟩

/-- A report gives no code, and the pass has failed if it is not held back. -/
theorem report_remains (ctx : Context) (problem : Problem) :
    p.Gives (ctx.report problem) fun c q =>
      Remains L p q ∧ c = none ∧ (p.sink = none → q.success = false) := by
  refine .get_bind ?_
  split
  split
  case h_1 held hsink =>
    refine .set_bind (.pure ⟨⟨?_, rfl, rfl⟩, rfl, fun h => ?_⟩)
    · exact { Abides.refl p with
        sink := fun h => by cases hsink.symm.trans h
        withholds := fun _ held' h => by
          cases hsink.symm.trans h
          exact ⟨⟨_, rfl⟩, rfl, rfl⟩ }
    · cases hsink.symm.trans h
  case h_2 hsink =>
    exact (addDiagnostic_remains (.inr hsink) _).bind fun _ q hq =>
      .pure ⟨hq.1, rfl, fun _ => hq.2.1⟩

/-- **Steps that know nothing of frames** leave them as they are, and abide by their licence. -/
theorem Steps.remains (hm : Steps L m) : p.Gives m fun _ q => Remains L p q := by
  induction hm generalizing p with
  | pure => exact .pure (.refl p)
  | throw => exact .throw _
  | read _ _ ih => exact .get_bind (ih p)
  | @change u hapart _ habides =>
    refine .modify ⟨habides p, ?_, ?_⟩
    · exact congrArg Apart.frames (hapart p)
    · exact congrArg Apart.openFrames (hapart p)
  | note => exact .modify ⟨.of_gauge_eq rfl, rfl, rfl⟩
  | report ctx => exact (report_remains ctx _).mono fun _ _ h => h.1
  | reportGlobally hL => exact (addDiagnostic_remains (.inl hL) _).mono fun _ _ h => h.1
  | seq _ _ ihm ihf =>
    intro b r hr
    obtain ⟨a, q, hq, hr⟩ := exists_of_bind hr
    exact (ihm a q hq).trans (ihf a ⟨p, q, hq⟩ b r hr)

/-! ### Compilations -/

/-- Wherever a step ends, it has abided by a licence. -/
def Minds (L : Licence) (m : PassM α) : Prop := ∀ p : Pass, p.Gives m fun _ q => Abides L p q

namespace Minds

theorem pure (a : α) : Minds L (pure a) := fun p => .pure (.refl p)

theorem throw (e : Fault) : Minds L (throw e : PassM α) := fun _ => .throw e

theorem bind (hm : Minds L m) (hf : ∀ a, Minds L (f a)) : Minds L (m >>= f) := by
  intro p b r hr
  obtain ⟨a, q, hq, hr⟩ := exists_of_bind hr
  exact (hm p a q hq).trans (hf a q b r hr)

theorem get_bind {g : Pass → PassM α} (h : ∀ p, Minds L (g p)) : Minds L (get >>= g) :=
  fun p => h p p

theorem of_steps (hm : Steps L m) : Minds L m := fun _ => hm.remains.mono fun _ _ h => h.toAbides

theorem of_plain (hm : Plain m) : Minds L m := of_steps hm.licensed

/-- Nothing is changed that a licence is about. -/
theorem modify {u : Pass → Pass} (hgauge : ∀ p, (u p).gauge = p.gauge) :
    Minds L (modify u : PassM PUnit) := fun p => .modify (.of_gauge_eq (hgauge p))

end Minds

end Steps

end Pass

open Pass

namespace Context

variable {L : Licence} {ctx : Context} {p : Pass}

/-- The interpolator that is placed stays the same node's. -/
theorem interpolatorOffset_remains {index : Nat} {i : Interpolator}
    (h : p.interpolators[index]? = some i) :
    p.Gives (interpolatorOffset index i) fun _ q => Remains L p q := by
  unfold interpolatorOffset
  split
  · exact .pure (.refl p)
  refine .get_bind (.set_bind (.pure ⟨{ Abides.refl p with listed := fun _ => ?_ }, rfl, rfl⟩))
  obtain ⟨hlt, rfl⟩ := List.getElem?_eq_some_iff.1 h
  have hlt' : index < (p.interpolators.map (·.node)).length := by rwa [List.length_map]
  rw [List.map_set]
  simpa only [List.getElem_map] using List.set_getElem_self hlt'

/-- What was held back is not any more. -/
theorem forM_addDiagnostic_remains (hL : L.reports = true ∨ p.sink = none)
    (held : List Diagnostic) :
    p.Gives (held.forM addDiagnostic) fun _ q => Remains L p q ∧
      ∀ d ∈ held, ∃ d' ∈ q.diagnostics, d'.message = d.message := by
  induction held generalizing p with
  | nil => exact .pure ⟨.refl p, nofun⟩
  | cons d held ih =>
    refine (addDiagnostic_remains hL d).bind fun _ q ⟨hq, _, d', hd', hmessage⟩ => ?_
    refine (ih (hL.imp_right hq.sink)).mono fun _ r ⟨hr, hheld⟩ => ⟨hq.trans hr, ?_⟩
    rintro e (_ | ⟨_, he⟩)
    · exact ⟨d', hr.diagnostics.subset hd', hmessage⟩
    · exact hheld e he

theorem readInterpolator_remains (hL : L.reports = true ∨ p.sink = none ∨ ctx.stage ≠ .pixel) :
    p.Gives ctx.readInterpolator fun _ q => Remains L p q := by
  unfold readInterpolator
  split
  · exact (report_remains ctx _).mono fun _ _ h => h.1
  case isFalse hstage =>
  have hL : L.reports = true ∨ p.sink = none :=
    hL.imp_right fun h => h.resolve_right fun h => hstage (by simpa using h)
  refine .get_bind ?_
  split
  · split
    case h_1 hi =>
      refine (interpolatorOffset_remains (L := L) hi).bind fun _ q hq => ?_
      exact (emitTemporary_plain _ _).licensed.remains.mono fun _ _ hr => hq.trans hr
    case h_2 => exact (report_remains ctx _).mono fun _ _ h => h.1
  · exact (forM_addDiagnostic_remains hL _).bind fun _ q hq =>
      (report_remains ctx _).mono fun _ _ hr => hq.1.trans hr.1

end Context

end ShaderGraph
