import ShaderGraph.Proofs.Phases
import ShaderGraph.Proofs.TrackedPhases

/-!
# Probed properties

What is compiled for a property is brought to its type, read through its slot if it needs one, and
recorded. So a result is code that can be put in place, and a property without one was reported
(`Pass.compileProperty_observed`).
-/

namespace ShaderGraph

open Pass

/-! ### Results -/

namespace Context

variable {t : Terms} {ctx : Context} {p : Pass} {c : Code}

theorem readResult_plain (c : Code) : Plain (ctx.readResult c) := by
  cases c with
  | none => exact .pure _
  | some i =>
    refine (isDeferred_plain _).bind fun deferred => ?_
    split
    · exact readSlot_plain i
    · exact .pure _

/-- What is recorded needs no slot. -/
theorem readResult_meets (h : ctx.Holds t c p) :
    ctx.Meets t p (ctx.readResult c) fun read q => ctx.Holds t read q ∧
      ∀ i, read = some i → ∃ d, (q.scope ctx.scope)[i]? = some d ∧ d.deferred? = none := by
  cases c with
  | none => exact .pure ⟨h, fun i hi => by cases hi⟩
  | some i =>
    have hd := List.getElem?_eq_getElem (h.1 i rfl)
    refine .read (isDeferred_eq ⟨i, rfl, hd⟩) ?_
    split
    · refine (readSlot_meets hd).mono fun read q _ hread => ?_
      obtain ⟨⟨d, hsees, -, hform⟩, -⟩ := hread
      refine ⟨hsees.holds, fun j hj => ?_⟩
      obtain ⟨j', rfl, hget⟩ := hsees
      cases hj
      exact ⟨d, hget, by simp [Chunk.deferred?, Chunk.uniform?, hform]⟩
    case isFalse hread =>
      refine .pure ⟨h, fun j hj => ?_⟩
      cases hj
      exact ⟨_, hd, by simpa using hread⟩

end Context

/-- A property is told by its name. -/
theorem Property.eq_of_name_eq {a b : Property} (h : a.name = b.name) : a = b := by
  have hall : ∀ property : Property, property ∈ Property.all := by
    intro property
    cases property with
    | customizedUV index =>
      have hindex : ∀ index : Fin 8, customizedUV index ∈ all := by decide
      exact hindex index
    | _ => decide
  have hnodup : (Property.all.map Property.name).Nodup := by decide +kernel
  exact List.inj_on_of_nodup_map hnodup (hall a) (hall b) h

namespace Pass

section Results

variable {t : Terms} {env : Environment} {l : Ledger} {p : Pass} {property : Property}

/-- The result of a property may be recorded, unless there is none and that was not reported. -/
theorem Idle.withResult (hp : p.Idle t env none l) {c : Code}
    (hread : ∀ i, c = some i → ∃ d, (p.scope (p.stageScopes.get property.stage))[i]? = some d ∧
      d.deferred? = none)
    (hfailed : t.loud → c = none → p.success = false) :
    Idle t env none l { p with results := p.results.set property c } := by
  have hs := hp.sane
  refine { hp with
    sane := { hs with results := fun other i hi => ?_, stacked := hs.stacked_of_eq rfl }
    orderly := { hp.orderly with }
    reported := fun hloud other hlog hnone => ?_ }
  · by_cases heq : other = property
    · subst heq
      exact hread i ((PropertyTable.get_set_self ..).symm.trans hi)
    · exact hs.results other i ((PropertyTable.get_set_of_ne _ heq _).symm.trans hi)
  · by_cases heq : other = property
    · subst heq
      exact hfailed hloud ((PropertyTable.get_set_self ..).symm.trans hnone)
    · exact hp.reported hloud other hlog ((PropertyTable.get_set_of_ne _ heq _).symm.trans hnone)

theorem Idle.noted (hp : p.Idle t env none l)
    (hresult : t.loud → p.results.get property = none → p.success = false) (useDefault ok : Bool) :
    Idle t env none l { p with
      log := p.log ++ [⟨.debug, propertyMessage, propertyAttributes property useDefault ok⟩] } := by
  refine { hp with
    sane := { hp.sane with stacked := hp.sane.stacked_of_eq rfl }
    orderly := { hp.orderly with }
    reported := fun hloud other hlog hnone => ?_ }
  obtain ⟨e, he, hmessage, hname⟩ := hlog
  rcases List.mem_append.1 he with he | he
  · exact hp.reported hloud other ⟨e, he, hmessage, hname⟩ hnone
  · obtain rfl := List.mem_singleton.1 he
    have hother : other = property := by
      refine Property.eq_of_name_eq ?_
      simpa [propertyAttributes] using hname
    subst hother
    exact hresult hloud hnone

end Results

/-! ### Properties -/

section Properties

variable {t : Terms} {env : Environment} {l : Ledger} {p : Pass} {c : Compiler}
variable {d : Ledger → Probe → Compiler} {ctx : Context} {code : Code} {property : Property}

/-- A context of the scope that a property is compiled in. -/
structure PropertyContext (env : Environment) (property : Property) (ctx : Context) (p : Pass) :
    Prop where
  environment : ctx.env = env
  scope : ctx.scope = p.stageScopes.get property.stage

section

variable (hp : p.Idle t env none l) (hsink : p.sink = none)
  (hctx : PropertyContext env property ctx p) (hcode : ctx.Holds t code p)

include hp hsink hctx hcode

theorem setResult_observed :
    Observed l p (ctx.setResult property code) (fun _ _ => ctx.setResult property code)
      fun _ l' q => (q.Idle t env none l' ∧ q.sink = none) ∧
        (PropertyContext env property ctx q ∧ ctx.Holds t code q) ∧
        (t.loud → q.results.get property = none → q.success = false) := by
  have hplaced : ctx.scope < p.scopes.length := hctx.scope ▸ hp.placed property.stage
  unfold Context.setResult
  refine (hp.meets hsink hctx.environment hplaced (Context.readResult_plain code).oblivious
    (Context.readResult_meets hcode)).bind
      fun read l₁ q₁ _ ⟨⟨hq₁, hsink₁⟩, ⟨_, hlater⟩, hholds, hread⟩ => ?_
  have hscope : ctx.scope = q₁.stageScopes.get property.stage := by
    rw [hlater.stageScopes]
    exact hctx.scope
  refine .congr (s := pure ⟨⟩) (k := fun _ _ => pure ⟨⟩)
    (q := { q₁ with results := q₁.results.set property read }) rfl (fun _ _ => rfl) (.pure ?_)
  have hcode₁ : ctx.Holds t code q₁ := hcode.mono hlater.toSince
  refine ⟨⟨hq₁.withResult (hscope ▸ hread) hholds.2, hsink₁⟩,
    ⟨⟨hctx.environment, hscope⟩, hcode₁⟩, fun hloud hnone => ?_⟩
  exact hholds.2 hloud ((PropertyTable.get_set_self ..).symm.trans hnone)

theorem recordProperty_observed :
    Observed l p (recordProperty env property ctx code)
      (fun _ _ => recordProperty env property ctx code) fun x l' q =>
        (q.Idle t env none l' ∧ q.sink = none) ∧
          PropertyContext env property x.1 q ∧ x.1.Holds t x.2 q := by
  have hplaced : ctx.scope < p.scopes.length := hctx.scope ▸ hp.placed property.stage
  refine (hp.meets hsink hctx.environment hplaced (Context.castProperty_plain _ _).oblivious
    (.of_good ((Context.meeting t ctx).castProperty hcode.good property.type))).bind
      fun cast l₁ q₁ _ ⟨⟨hq₁, hsink₁⟩, ⟨_, hlater⟩, hcast⟩ => ?_
  have hctx₁ : PropertyContext env property ctx q₁ :=
    ⟨hctx.environment, by rw [hlater.stageScopes]; exact hctx.scope⟩
  refine (setResult_observed hq₁ hsink₁ hctx₁ hcast).bind
    fun _ l₂ q₂ _ ⟨⟨hq₂, hsink₂⟩, ⟨hctx₂, hcast₂⟩, hfailed⟩ => ?_
  refine (Observed.same (note_oblivious _ _ _) (Q := fun _ l' q =>
    (q.Idle t env none l' ∧ q.sink = none) ∧ PropertyContext env property ctx q ∧
      ctx.Holds t cast q) (fun _ q hq => ?_) fun e q hq => (by cases hq)).bind
        fun _ l₃ q₃ _ h => .pure h
  cases hq
  exact ⟨⟨hq₂.noted hfailed _ _, hsink₂⟩, ⟨hctx₂.environment, hctx₂.scope⟩, hcast₂⟩

end

theorem compileSource_tracked (hc : Compiler.Tracked t c d) (property : Property) (ctx : Context) :
    ctx.Tracked t l p (compileSource env c property ctx)
      (fun last b => compileSource env (d last b) property ctx) (ctx.Holds (t.within ctx)) := by
  refine .ite (fun _ => ?_) fun hconnected => ?_
  · exact .step (Context.compileDefault_plain _).oblivious
      (.of_good ((Context.meeting _ ctx).compileDefault _))
  · refine (hc ctx _ l p).mono fun _ _ _ h => h.holds fun _ => ?_
    simp only [Environment.usesDefault, Bool.or_eq_true, not_or] at hconnected
    simpa using hconnected.1

/-- **A property** has code that can be put in place, or that it has none was reported. -/
theorem compileProperty_observed (hc : Compiler.Tracked t c d) (hp : p.Idle t env none l)
    (hsink : p.sink = none) (property : Property) :
    Observed l p (compileProperty env c property)
      (fun last b => compileProperty env (d last b) property) fun x l' q =>
        (q.Idle t env none l' ∧ q.sink = none) ∧
          PropertyContext env property x.1 q ∧ x.1.Holds t x.2 q := by
  let ctx := propertyContext env property (p.stageScopes.get property.stage)
  obtain ⟨root, hroot, hlt, hscope⟩ := hp.roots property.stage
  have hfree := hscope (by simp)
  have hprepared : ctx.Prepared t (l.own root ctx.scope) p :=
    hp.prepared rfl rfl ⟨fun _ => ⟨property.stage, rfl⟩, fun _ => rfl⟩ (hp.placed _)
      (fun _ => hsink) hroot hlt hfree
  refine .congr (s := compileSource env c property ctx >>= recordProperty env property ctx)
    (k := fun last b => compileSource env (d last b) property ctx >>=
      recordProperty env property ctx) rfl (fun _ _ => rfl) ?_
  refine (hp.observed (show ctx.env = env from rfl) hroot hfree (.inr ⟨rfl, rfl⟩)
    (compileSource_tracked hc property ctx hprepared)).bind
      fun code l₁ q₁ _ ⟨⟨hq₁, _, hsince⟩, hcode⟩ => ?_
  have hctx : PropertyContext env property ctx q₁ := ⟨rfl, by rw [hsince.stageScopes]; rfl⟩
  exact recordProperty_observed hq₁ (hsince.sink hsink) hctx
    ⟨hcode.1, fun hloud => hcode.2 ⟨hloud, rfl⟩⟩

theorem appendParameter_holds (hcode : ctx.Holds t code p) (type : ValueType)
    (flags : Context.ResizeFlags) (name : String) (default : Single) :
    ctx.Meets t p (appendParameter ctx code type flags name default) (ctx.Holds t) := by
  refine (Context.resize_holds hcode type flags).bind fun first q₁ _ hfirst => ?_
  refine (Context.Meets.of_good ((Context.meeting t ctx).scalarParameter name default)).bind
    fun parameter q₂ hq₂ hparameter => ?_
  refine (Context.resize_holds hparameter _ _).bind fun second q₃ hq₃ hsecond => ?_
  have hfirst := hfirst.mono (hq₂.trans hq₃).toSince
  exact .of_good ((Context.meeting t ctx).append hfirst.good hsecond.good)

theorem compileAppended_idles (hc : Compiler.Tracked t c d) (property : Property)
    (type : ValueType) (flags : Context.ResizeFlags) (name : String) (default : Single) :
    Idles t env (compileAppended env c property type flags name default)
      fun last b => compileAppended env (d last b) property type flags name default := by
  intro l p hp hsink
  refine (compileProperty_observed hc hp hsink property).bind
    fun x l₁ q₁ _ ⟨⟨hq₁, hsink₁⟩, hctx, hcode⟩ => ?_
  have hplaced : x.1.scope < q₁.scopes.length := hctx.scope ▸ hq₁.placed property.stage
  refine (hq₁.meets hsink₁ hctx.environment hplaced (appendParameter_plain ..).oblivious
    (appendParameter_holds hcode type flags name default)).bind
      fun appended l₂ q₂ _ ⟨⟨hq₂, hsink₂⟩, ⟨_, hlater⟩, happended⟩ => ?_
  have hctx₂ : PropertyContext env property x.1 q₂ :=
    ⟨hctx.environment, by rw [hlater.stageScopes]; exact hctx.scope⟩
  exact (setResult_observed hq₂ hsink₂ hctx₂ happended).mono fun _ _ _ _ h => h.1

/-- What is compiled for properties leaves nothing in progress. -/
theorem asksNormal_idles (env : Environment) (hc : Compiler.Tracked t c d) :
    PhaseLogic.AsksNormal (fun α s (n : Ledger × Probe → PassM α) =>
      Idles t env s fun last b => n (last, b)) env c fun i => d i.1 i.2 where
  property property _ _ _ hp hsink :=
    (compileProperty_observed hc hp hsink property).bind fun _ _ _ _ h => .pure h.1
  normal _ _ hp hsink :=
    (compileProperty_observed hc hp hsink .normal).bind fun _ _ _ _ h => .pure h.1
  normalEnd := modify_idles (fun _ => rfl) (fun _ => rfl) (fun _ => rfl) fun _ => rfl
  subsurface := compileAppended_idles hc _ _ _ _ _
  refraction := compileAppended_idles hc _ _ _ _ _

end Properties

end Pass

end ShaderGraph
