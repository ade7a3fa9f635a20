import ShaderGraph.Graph.Material
import ShaderGraph.Proofs.Casts
import ShaderGraph.Proofs.ReachedStates
import ShaderGraph.Proofs.Traversal

/-!
# The phases of a compilation

Every phase but one makes the pass evolve. The exception is the normal: its result is recorded, and
where it ends is, and both stay as they are from then on. So a compilation that ends without a fault
ends in a state that is reached by its steps, is sound and has its normal before its end
(`Pass.Compiled`), and its outcome is put together from that state (`Pass.Completed`,
`Pass.run_completed`).
-/

namespace ShaderGraph

open Pass

namespace Pass

variable {p : Pass} {env : Environment} {compile : Compiler} {g : ExpressionGraph} {e : Expression}

/-- What holds after a plain step holds, and it has no licence. -/
theorem Yields.remaining {α : Type} {m : PassM α} {Q : α → Pass → Prop} (h : p.Yields m Q)
    (hm : Plain m) : p.Yields m fun a q => Q a q ∧ Remains {} p q := by
  intro hp a q hq
  obtain ⟨hevolves, ha⟩ := h hp a q hq
  exact ⟨hevolves, ha, hm.remains a q hq⟩

/-! ### Functions generated apart -/

theorem compileInterpolated_safe (hcompile : compile.IsSafe) (ctx : Context) (input : Input) :
    Safe (compileInterpolated compile ctx input) := by
  refine (hcompile _ _).bind fun code => (Context.typeOf_safe code).bind fun type => ?_
  split
  · exact (Context.report_safe _).bind fun _ => .pure _
  · exact .pure _

theorem storeInterpolator_safe (ctx : Context) (id : NodeId) (code : Code) (type : ValueType) :
    Safe (storeInterpolator ctx id code type) := by
  intro p
  unfold storeInterpolator
  split
  · refine .get_bind (((Context.functionBody_yields code).remaining
      (Context.functionBody_plain code)).bind fun body q _ hbody => ?_)
    have hindex : p.interpolators.length = q.interpolators.length := by
      simpa using congrArg List.length (hbody.2.listed rfl).symm
    refine .modify_bind (.single (.implementation hbody.1)) ?_
    exact .of_eq rfl (.single (.newInterpolator hindex rfl)) trivial
  · exact .of_eq rfl (.idle rfl rfl) trivial

theorem closeInterpolator_safe (attributes : List (String × String)) :
    Safe (closeInterpolator attributes) := fun _ =>
  .modify_bind (.idle rfl rfl) ((note_safe _ _ _).bind (fun _ => resetStack_safe _) _)

theorem compileInterpolator_safe (hcompile : compile.IsSafe) (id : NodeId) (input : Input) :
    Safe (compileInterpolator env compile id input) := by
  intro p
  refine .modify_bind (.idle rfl rfl) ?_
  refine (Context.newScope_safe _).bind fun scope q _ _ => ?_
  refine (compileInterpolated_safe hcompile _ _ q).bind fun ⟨code, type⟩ r _ _ => ?_
  exact (storeInterpolator_safe _ _ _ _).bind (fun _ => closeInterpolator_safe _) r

theorem compileInterpolators_safe (hcompile : compile.IsSafe) :
    Safe (compileInterpolators env g compile) := by
  refine .forM fun id _ => ?_
  split
  · exact compileInterpolator_safe hcompile _ _
  · exact reportGlobally_safe _

/-- A name that is in use already is reported, unless the output allows that. -/
theorem compileCustomOutput_eq (compile : Compiler) (id : NodeId) (e : Expression)
    (out : CustomOutput) (p : Pass) :
    compileCustomOutput env compile id e out p =
      if !out.allowsMultiple && p.customOutputNames.contains out.name then
        reportGlobally (.repeatedCustomOutput out.name) p
      else
        compileNamedOutput env compile id e out
          { p with customOutputNames := out.name :: p.customOutputNames } := by
  by_cases h : (!out.allowsMultiple && p.customOutputNames.contains out.name) = true
  · rw [if_pos h]
    exact congrFun (if_pos h) p
  · rw [if_neg h]
    exact congrFun (if_neg h) p

end Pass

/-! ### Properties -/

namespace Context

variable {p : Pass} {ctx : Context}

theorem compileDefault_safe (property : Property) : Safe (ctx.compileDefault property) :=
  safe_of_sounding fun _ => ctx.sounding.compileDefault property

theorem castProperty_safe (c : Code) (target : ValueType) : Safe (ctx.castProperty c target) :=
  safe_of_sounding fun _ => ctx.sounding.castProperty sounds target

/-- Once the pass has evolved, a chunk of the scope is recorded as the result of a property. -/
theorem setResult_ok {property : Property} {T : Chunk → Prop} {c : Code} {a : Unit} {q : Pass}
    (hp : p.Sound) (hT : ∀ d e : Chunk, d.deferred?.isSome → e.type = d.type → T d → T e)
    (hc : p.Refers ctx.scope T c) (h : ctx.setResult property c p = .ok a q) :
    ∃ r read, p.Evolves r ∧ r.Refers ctx.scope T read ∧ q = r.withResult property read := by
  obtain ⟨read, r, hread, hset⟩ := exists_of_bind h
  obtain ⟨hr, hrefers⟩ := readResult_refers hp hT hc read r hread
  exact ⟨r, read, hr, hrefers, (EStateM.Result.ok.inj hset).2.symm⟩

end Context

namespace Pass

variable {p q : Pass} {env : Environment} {compile : Compiler} {property : Property}
variable {ctx : Context} {code : Code} {r : Context × Code}

/-- Once the pass has evolved, the result of a property is recorded, a chunk of the scope that goes
with its type. -/
theorem recordProperty_ok (hp : p.Sound) (h : recordProperty env property ctx code p = .ok r q) :
    r.1 = ctx ∧ ∃ s read, p.Evolves s ∧
      s.Refers ctx.scope (property.Admits property.type) read ∧
      q.code = (s.withResult property read).code ∧ q.records = s.records := by
  obtain ⟨cast, p₁, hcasted, h⟩ := exists_of_bind h
  obtain ⟨_, p₂, hset, h⟩ := exists_of_bind h
  have hp₁ := (Context.castProperty_safe _ _).gives hp _ _ hcasted
  have hrefers := Context.castProperty_admits hp _ _ _ hcasted
  obtain ⟨s, read, hs, hread, rfl⟩ := Context.setResult_ok (hp₁.sound hp)
    Property.Admits.of_deferred hrefers hset
  cases h
  exact ⟨rfl, s, read, hp₁.trans hs, hread, rfl, rfl⟩

/-- What is recorded in the scope of its stage, for a property to which nothing is appended, suits
it. -/
theorem recordProperty_suits (hp : p.Sound) (hscope : ctx.scope = p.stageScopes.get property.stage)
    (htype : property.resultType = property.type)
    (h : recordProperty env property ctx code p = .ok r q) :
    ∃ s read, p.Evolves s ∧ s.Suits property read ∧
      q.code = (s.withResult property read).code ∧ q.records = s.records := by
  obtain ⟨-, s, read, hs, hread, hcode, hrecords⟩ := recordProperty_ok hp h
  refine ⟨s, read, hs, ?_, hcode, hrecords⟩
  unfold Suits
  rw [hs.fixed.1, htype, ← hscope]
  exact hread

/-- A result of any property but those that have a parameter appended is recorded on the way. -/
theorem recordProperty_reaches (hp : p.Sound)
    (hscope : ctx.scope = p.stageScopes.get property.stage)
    (htype : property.resultType = property.type)
    (h : recordProperty env property ctx code p = .ok r q) : p.Reaches q := by
  obtain ⟨s, read, hs, hsuits, hcode, hrecords⟩ := recordProperty_suits hp hscope htype h
  have hresult : Step s (s.withResult property read) := by
    by_cases hnormal : property = .normal
    · subst hnormal
      exact .normal hsuits
    · exact .effect (.result hnormal hsuits)
  exact (((Reaches.refl p).evolves hs).step hresult).evolves (.idle hcode hrecords)

section

variable (hcompile : compile.IsSafe)

include hcompile

theorem compileSource_safe (property : Property) (ctx : Context) :
    Safe (compileSource env compile property ctx) := by
  unfold compileSource
  split
  · exact Context.compileDefault_safe _
  · exact hcompile _ _

/-- A property is compiled in the scope of its stage, and then recorded. -/
theorem compileProperty_records (hp : p.Sound)
    (h : compileProperty env compile property p = .ok r q) :
    ∃ (ctx : Context) (code : Code) (s : Pass), p.Evolves s ∧
      ctx.scope = s.stageScopes.get property.stage ∧
      recordProperty env property ctx code s = .ok r q := by
  obtain ⟨p', p'', hget, h⟩ := exists_of_bind h
  cases hget
  obtain ⟨code, s, hcode, hrecord⟩ := exists_of_bind h
  have hs : p.Evolves s := (compileSource_safe hcompile _ _).gives hp _ _ hcode
  exact ⟨_, code, s, hs, by rw [hs.fixed.1]; rfl, hrecord⟩

theorem compileProperty_suits (hp : p.Sound)
    (htype : property.resultType = property.type)
    (h : compileProperty env compile property p = .ok r q) :
    ∃ s read, p.Evolves s ∧ s.Suits property read ∧
      q.code = (s.withResult property read).code ∧ q.records = s.records := by
  obtain ⟨ctx, code, t, ht, hscope, hrecord⟩ := compileProperty_records hcompile hp h
  obtain ⟨s, read, hs, hrest⟩ := recordProperty_suits (ht.sound hp) hscope htype hrecord
  exact ⟨s, read, ht.trans hs, hrest⟩

theorem compileProperty_safe (hproperty : property ≠ .normal)
    (htype : property.resultType = property.type) :
    Safe (compileProperty env compile property) := by
  intro p hp r q h
  obtain ⟨s, read, hs, hsuits, hcode, hrecords⟩ := compileProperty_suits hcompile hp htype h
  exact ⟨hs.trans ((Evolves.single (.result hproperty hsuits)).trans (.idle hcode hrecords)),
    trivial⟩

end

/-! ### Properties with a parameter appended -/

theorem withResult_withResult (p : Pass) (property : Property) (c c' : Code) :
    (p.withResult property c).withResult property c' = p.withResult property c' := by
  simp only [withResult, PropertyTable.set_set]

/-- No effect depends on a result, so one that is recorded anew might as well not be there. -/
theorem Effect.without_result {c : Code} (h : Effect (p.withResult property c) q) :
    ∃ q' c', Effect p q' ∧ q = q'.withResult property c' := by
  cases h with
  | idle hcode hrecords =>
    have hresults : q.results = p.results.set property c := congrArg CodeState.results hcode
    refine ⟨{ q with results := p.results }, c, .idle ?_ hrecords, ?_⟩
    · exact congrArg (fun s : CodeState => { s with results := p.results }) hcode
    · show q = { q with results := p.results.set property c }
      rw [← hresults]
  | newScope => exact ⟨_, c, .newScope, rfl⟩
  | inline hform hreads => exact ⟨_, c, .inline hform hreads, rfl⟩
  | temporary hform hreads => exact ⟨_, c, .temporary hform hreads, rfl⟩
  | known hform hmem hliteral => exact ⟨_, c, .known hform hmem hliteral, rfl⟩
  | fresh hform hnew hcounts hliteral => exact ⟨_, c, .fresh hform hnew hcounts hliteral, rfl⟩
  | slot hc hu hkind => exact ⟨_, c, .slot hc hu hkind, rfl⟩
  | implementation hclosed => exact ⟨_, c, .implementation hclosed, rfl⟩
  | @result other c' hproperty hsuits =>
    by_cases heq : other = property
    · subst heq
      exact ⟨p, c', .idle rfl rfl, withResult_withResult _ _ _ _⟩
    · refine ⟨_, c, .result hproperty hsuits, ?_⟩
      simp only [withResult, PropertyTable.set_comm _ heq]
  | report d => exact ⟨_, c, .report d, rfl⟩
  | coordinate i => exact ⟨_, c, .coordinate i, rfl⟩
  | newInterpolator hindex hunread => exact ⟨_, c, .newInterpolator hindex hunread, rfl⟩
  | readInterpolator hi hunread => exact ⟨_, c, .readInterpolator hi hunread, rfl⟩
  | newStack buckets preallocated => exact ⟨_, c, .newStack buckets preallocated, rfl⟩
  | newEntry entry => exact ⟨_, c, .newEntry entry, rfl⟩
  | outputName name => exact ⟨_, c, .outputName name, rfl⟩
  | nextLayer hs htaken hbound => exact ⟨_, c, .nextLayer hs htaken hbound, rfl⟩
  | ownLayer hs hentry hindex htexture hbound =>
    exact ⟨_, c, .ownLayer hs hentry hindex htexture hbound, rfl⟩

theorem Evolves.without_result {c : Code} (h : (p.withResult property c).Evolves q) :
    ∃ q' c', p.Evolves q' ∧ q = q'.withResult property c' := by
  induction h with
  | refl => exact ⟨p, c, .refl _, rfl⟩
  | tail _ hlast ih =>
    obtain ⟨s, c', hs, rfl⟩ := ih
    obtain ⟨s', c'', hs', rfl⟩ := hlast.without_result
    exact ⟨s', c'', hs.trans (.single hs'), rfl⟩

/-- A parameter can be appended to a property that is brought to a type. -/
structure Appends (property : Property) (type : ValueType) (flags : Context.ResizeFlags) :
    Prop where
  other : property ≠ .normal
  listed : type ∈ Context.propertyTypes
  width : ∃ n, (∀ t : ValueType, t.shares type →
      (flags.exact → t.components = type.components) → t.components ≠ 0 → t.components = n) ∧
    (ValueType.ofComponents (n + 1)).shares property.resultType

theorem appends_subsurface :
    Appends .subsurfaceColor .float3 { exact := true, replicate := true } :=
  ⟨by decide, by decide, 3, fun _ _ h _ => h rfl, by decide⟩

theorem appends_refraction : Appends .refraction .float1 {} :=
  ⟨by decide, by decide, 1, fun _ h _ => ValueType.components_of_shares_float1 h, by decide⟩

section

variable {type : ValueType} {flags : Context.ResizeFlags} {name : String} {default : Single}
variable (happends : Appends property type flags)

include happends

/-- The first result of such a property is replaced by the second, which suits it. -/
theorem recordAppended_evolves (hp : p.Sound)
    (hscope : ctx.scope = p.stageScopes.get property.stage) {a : Unit}
    (h : (recordProperty env property ctx code >>= recordAppended property type flags name default)
      p = .ok a q) : p.Evolves q := by
  obtain ⟨x, p₁, hfirst, h⟩ := exists_of_bind h
  obtain ⟨appended, p₂, happend, h⟩ := exists_of_bind h
  obtain ⟨hctx, s, first, hs, -, hcode, hrecords⟩ := recordProperty_ok hp hfirst
  obtain ⟨n, hwidth, hresult⟩ := happends.width
  have hs₁ : (s.withResult property first).Evolves p₁ := .idle hcode hrecords
  have hsound₁ : p₁.Sound := hs₁.sound ((hs.sound hp).with_results _ _)
  have hp₂ := (appendParameter_safe _ _ _ _ _).gives hsound₁ _ _ happend
  have hrefers := appendParameter_refers hsound₁ _ happends.listed hwidth _ _ _ _ happend
  obtain ⟨r, read, hr, hread, rfl⟩ := Context.setResult_ok (hp₂.sound hsound₁)
    (fun d e _ htype hd => htype.trans hd) hrefers h
  obtain ⟨s', last, hs', rfl⟩ := (hs₁.trans (hp₂.trans hr)).without_result
  rw [withResult_withResult]
  refine hs.trans (hs'.trans (.single (.result happends.other ?_)))
  unfold Suits
  rw [hs'.fixed.1, hs.fixed.1, ← hscope, ← hctx]
  exact Refers.mono (show s'.Refers x.1.scope _ read from hread) fun d hd => .inl (hd ▸ hresult)

theorem compileAppended_safe (hcompile : compile.IsSafe) :
    Safe (compileAppended env compile property type flags name default) := by
  intro p hp a q h
  obtain ⟨x, p₁, hfirst, h⟩ := exists_of_bind h
  obtain ⟨ctx, code, s, hs, hscope, hrecord⟩ := compileProperty_records hcompile hp hfirst
  exact ⟨hs.trans (recordAppended_evolves happends (hs.sound hp) hscope
    ((bind_of_ok hrecord).trans h)), trivial⟩

end

/-! ### Phases -/

theorem PhaseLogic.Asked.resultType_eq (h : PhaseLogic.Asked env property) :
    property.resultType = property.type := by
  obtain ⟨-, hsubsurface, hrefraction, -⟩ := h
  cases property <;> first | rfl | contradiction

/-- What phases do besides compiling nodes makes the pass evolve. -/
theorem Safe.phases : PhaseLogic fun α s (_ : Unit → PassM α) => Safe s where
  pure := .pure
  bind hs hf := hs.bind hf
  read _ h := .get_bind h
  noSuchStage := .throw _
  enter := enter_safe
  noted _ := note_safe _ _ _
  report _ := reportGlobally_safe _
  named name _ := .of_eq rfl (.single (.outputName name)) trivial
  defined _ := .modify (fun _ => rfl) fun _ => rfl

theorem asksProperties_safe (env : Environment) (hcompile : compile.IsSafe) :
    PhaseLogic.AsksProperties (fun α s (_ : Unit → PassM α) => Safe s) env compile
      fun _ => compile where
  property _ h := (compileProperty_safe hcompile h.1 h.resultType_eq).bind fun _ => .pure _
  subsurface := compileAppended_safe appends_subsurface hcompile
  refraction := compileAppended_safe appends_refraction hcompile

theorem asksOutputs_safe (env : Environment) {g : ExpressionGraph} (hg : g.IsSafe) :
    PhaseLogic.AsksOutputs (fun α s (_ : Unit → PassM α) => Safe s) env g g.compile (fun _ => g)
      fun _ => g.compile :=
  Safe.frames.asksOutputs hg.related (ExpressionGraph.compile_safe hg).related
    Context.newScope_safe fun _ _ _ => trivial

/-! ### Whole compilations -/

/-- The state of a pass in which properties can be compiled. -/
structure Ready (p : Pass) : Prop where
  reached : Reaches {} p
  sound : p.Sound
  /-- The slots have no programs yet. -/
  parameters : p.slots.parameters = []

/-- The state of a pass from the end of the normal on. -/
structure Compiled (p : Pass) : Prop extends Ready p where
  /-- The normal stands before its end. -/
  normal : ∀ i, p.results.get .normal = some i → i < p.normalEnd
  normalEnd_le : p.normalEnd ≤ (p.scope (p.stageScopes.get .pixel)).length

theorem Ready.evolves (hp : p.Ready) (h : p.Evolves q) : q.Ready :=
  ⟨hp.reached.evolves h, h.sound hp.sound, h.fixed.2.2.2.trans hp.parameters⟩

theorem Compiled.evolves (hp : p.Compiled) (h : p.Evolves q) : q.Compiled := by
  obtain ⟨hstages, hend, hnormal, -⟩ := h.fixed
  refine ⟨hp.toReady.evolves h, ?_, ?_⟩
  · rw [hnormal, hend]
    exact hp.normal
  · rw [hstages, hend]
    exact Nat.le_trans hp.normalEnd_le (h.retains.scopes _).length_le

/-- A step leads from states in which `P` holds to states in which `Q` does, if it ends without a
fault. -/
def Leads {α : Type} (P : Pass → Prop) (m : PassM α) (Q : Pass → Prop) : Prop :=
  ∀ p, P p → ∀ a q, m p = .ok a q → Q q

theorem Leads.bind {α β : Type} {P Q R : Pass → Prop} {m : PassM α} {f : α → PassM β}
    (hm : Leads P m Q) (hf : ∀ a, Leads Q (f a) R) : Leads P (m >>= f) R := by
  intro p hp b r h
  obtain ⟨a, q, hq, hr⟩ := exists_of_bind h
  exact hf a q (hm p hp a q hq) b r hr

theorem Leads.forM {α : Type} {P : Pass → Prop} {l : List α} {f : α → PassM PUnit}
    (h : ∀ a ∈ l, Leads P (f a) P) : Leads P (l.forM f) P := by
  induction l with
  | nil =>
    intro p hp a q hq
    cases hq
    exact hp
  | cons a l ih => exact (h a (by simp)).bind fun _ => ih fun b hb => h b (by simp [hb])

theorem Safe.ready {α : Type} {m : PassM α} (h : Safe m) : Leads Ready m Ready :=
  fun p hp a q hq => hp.evolves (h p hp.sound a q hq).1

theorem Safe.compiled {α : Type} {m : PassM α} (h : Safe m) : Leads Compiled m Compiled :=
  fun p hp a q hq => hp.evolves (h p hp.sound a q hq).1

/-- The normal is recorded, and then where its code ends. -/
theorem compileNormal_ok (hcompile : compile.IsSafe) (hp : p.Sound) {a : Unit}
    (h : compileNormal env compile p = .ok a q) :
    ∃ s read r, p.Evolves s ∧ s.Suits .normal read ∧ (s.withResult .normal read).Evolves r ∧
      q = { r with normalEnd := (r.scope (r.stageScopes.get .pixel)).length } := by
  obtain ⟨_, p₁, henter, h⟩ := exists_of_bind h
  obtain ⟨_, p₂, hproperties, hend⟩ := exists_of_bind h
  obtain ⟨_, p₃, hfirst, hrest⟩ := exists_of_bind hproperties
  cases hrest
  obtain ⟨_, r, hnormal, hpure⟩ := exists_of_bind hfirst
  obtain ⟨-, rfl⟩ := EStateM.Result.ok.inj hpure
  cases hend
  have hp₁ := (enter_safe _).gives hp _ _ henter
  obtain ⟨s, read, hs, hsuits, hcode, hrecords⟩ :=
    compileProperty_suits hcompile (hp₁.sound hp) rfl hnormal
  exact ⟨s, read, r, hp₁.trans hs, hsuits, .idle hcode hrecords, rfl⟩

theorem compileNormal_reaches (hcompile : compile.IsSafe) (hp : p.Sound) {a : Unit}
    (h : compileNormal env compile p = .ok a q) : p.Reaches q := by
  obtain ⟨s, read, r, hs, hsuits, hr, rfl⟩ := compileNormal_ok hcompile hp h
  exact ((((Reaches.refl p).evolves hs).step (.normal hsuits)).evolves hr).step (.normalEnd _)

/-- Once the normal is compiled, its result stands before its end. -/
theorem compileNormal_leads (hcompile : compile.IsSafe) :
    Leads Ready (compileNormal env compile) Compiled := by
  intro p hp a q h
  have hq := compileNormal_reaches hcompile hp.sound h
  obtain ⟨s, read, r, hs, hsuits, hr, rfl⟩ := compileNormal_ok hcompile hp.sound h
  refine ⟨⟨hp.reached.trans hq, hq.sound hp.sound, ?_⟩, fun i hi => ?_, Nat.le_refl _⟩
  · exact hr.fixed.2.2.2.trans (hp.evolves hs).parameters
  · have hnormal : r.results.get .normal = some i := hi
    rw [hr.fixed.2.2.1, withResult, PropertyTable.get_set_self] at hnormal
    have hkept : r.Suits .normal read := hr.suits hsuits
    obtain ⟨d, hd, -⟩ := hkept i hnormal
    exact (List.getElem?_eq_some_iff.mp hd).1

theorem compileAll_leads {g : ExpressionGraph} (hg : g.IsSafe) :
    Leads Ready (compileAll env g g.compile) Compiled := by
  have hcompile := ExpressionGraph.compile_safe hg
  have hproperties := asksProperties_safe env hcompile
  have hround := Safe.phases.compileCustomOutputs (asksOutputs_safe env hg)
  have hrounds : Leads Ready (compileRounds env g g.compile) Compiled := by
    refine (hround true).ready.bind fun _ => (compileNormal_leads hcompile).bind fun _ => ?_
    refine ((enter_safe _).bind fun _ => ?_).compiled
    refine (Safe.phases.compileRemaining hproperties).bind fun _ => (enter_safe _).bind fun _ => ?_
    exact (hround false).bind fun _ => Safe.phases.compileCoordinates hproperties
  refine (enter_safe _).ready.bind fun _ => ?_
  refine (compileInterpolators_safe hcompile).ready.bind fun _ => ?_
  unfold compileRest
  split
  · refine (enter_safe _).ready.bind fun _ => ?_
    exact (Safe.forM fun problem _ => reportGlobally_safe problem).ready.bind fun _ => hrounds
  · exact hrounds

/-! ### Outcomes -/

theorem isUsed_safe (property : Property) (neutral : Value) (count : Nat) :
    Safe (isUsed env property neutral count) := by
  refine .get_bind fun p => ?_
  dsimp only
  split
  · exact .pure _
  refine (Context.constantOf_safe _).bind fun v? => ?_
  split
  · exact .pure _
  · exact .pure _

theorem recordUsage_safe : Safe (recordUsage env) :=
  (isUsed_safe _ _ _).bind fun _ => (isUsed_safe _ _ _).bind fun _ =>
    (isUsed_safe _ _ _).bind fun _ => (isUsed_safe _ _ _).bind fun _ =>
      .modify (fun _ => rfl) fun _ => rfl

theorem validate_safe : Safe (validate env) := by
  refine .get_bind fun p => ?_
  refine (Safe.forM fun problem _ => reportGlobally_safe problem).bind fun _ => ?_
  refine .get_bind fun q => ?_
  cases q.interpolatorProblem? env.options.featureLevel with
  | none => exact .pure _
  | some problem => exact reportGlobally_safe problem

theorem reportGlobally_fails {problem : Problem} {a : Unit}
    (h : reportGlobally problem p = .ok a q) : q.success = false := by
  obtain ⟨log, -, heq⟩ := addDiagnostic_eq ⟨problem.message, 0, problem.kind⟩ p
  cases heq.symm.trans h
  rfl

/-- A compilation that succeeds keeps to the budget of interpolators. -/
theorem interpolatorProblem?_of_success (h : validate env p = .ok () q) (hsuccess : q.success) :
    q.interpolatorProblem? env.options.featureLevel = none := by
  obtain ⟨_, r, -, hbudget⟩ := exists_of_bind (p := p) (m := (env.material.problems
    (p.effectiveModels env.material)).forM reportGlobally) h
  cases hproblem : r.interpolatorProblem? env.options.featureLevel with
  | none =>
    have hsame : (Option.none.forM reportGlobally : PassM PUnit) r = .ok () q := hproblem ▸ hbudget
    cases hsame
    exact hproblem
  | some problem =>
    have hreport : reportGlobally problem r = .ok () q :=
      (congrArg (fun problem? => (problem?.forM reportGlobally : PassM PUnit) r)
        hproblem).symm.trans hbudget
    exact absurd hsuccess (by simp [reportGlobally_fails hreport])

theorem orFault_ok {α : Type} {e : Except Fault α} {a : α} (h : orFault e p = .ok a q) :
    e = .ok a ∧ q = p := by
  cases e with
  | error fault => exact absurd h (by intro h; injection h)
  | ok b =>
    cases h
    exact ⟨rfl, rfl⟩

end Pass

/-- What the source of an outcome is put together from. -/
def Outcome.parts (o : Outcome) (env : Environment) (p : Pass) : Shader.Parts :=
  ⟨env.material, p, o.properties, o.defines⟩

namespace Pass

variable {p q : Pass} {env : Environment} {o : Outcome}

/-- The outcome of a compilation is put together from a state. -/
structure Completed (env : Environment) (o : Outcome) (p : Pass) : Prop where
  reached : Reaches {} p
  sound : p.Sound
  normal : ∀ i, p.results.get .normal = some i → i < p.normalEnd
  normalEnd_le : p.normalEnd ≤ (p.scope (p.stageScopes.get .pixel)).length
  bodies : p.propertyBodies = .ok o.properties
  source : o.source = (o.parts env p).source
  slots : o.slots = p.slots
  programs : ∃ set : UniformSet, set.parameters = [] ∧ set.withPrograms = .ok p.slots
  /-- The last phase that was entered says whether the compilation succeeded. -/
  phase : p.phase = if p.success then .success else .failed
  trace : p.trace.getLast? = some p.phase
  budget : p.success → p.interpolatorProblem? env.options.featureLevel = none
  /-- What else the outcome says is what the state does. -/
  rest : o = { Outcome.ofPass p env.material with
    source := o.source, properties := o.properties, defines := o.defines }

/-- Up to the programs of the slots, the end of a compilation leaves the code as it is; then the
texts are put together. -/
theorem finish_ok (hp : p.Sound) (h : finish env p = .ok o q) :
    ∃ r slots log, p.Evolves r ∧ r.slots.withPrograms = .ok slots ∧
      (r.success → r.interpolatorProblem? env.options.featureLevel = none) ∧
      q = { r with
        slots := slots, log := log, phase := if r.success then .success else .failed,
        trace := r.trace ++ [if r.success then .success else .failed] } ∧
      q.propertyBodies = .ok o.properties ∧ o.source = (o.parts env q).source ∧
      o = { Outcome.ofPass q env.material with
        source := o.source, properties := o.properties, defines := o.defines } := by
  obtain ⟨texts, r, hclose, hend⟩ := exists_of_bind h
  cases hend
  obtain ⟨_, p₁, henter, hrest₁⟩ := exists_of_bind hclose
  obtain ⟨_, p₂, hfinished, hrest₂⟩ := exists_of_bind hrest₁
  obtain ⟨_, p₃, husage, hrest₃⟩ := exists_of_bind hrest₂
  obtain ⟨_, p₄, hvalidate, hrest₄⟩ := exists_of_bind hrest₃
  have hp₁ := (enter_safe _).gives hp _ _ henter
  have hp₂ : p₁.Evolves p₂ := by
    cases hfinished
    exact .idle rfl rfl
  have hp₃ := recordUsage_safe.gives ((hp₁.trans hp₂).sound hp) _ _ husage
  have hp₄ := validate_safe.gives ((hp₁.trans (hp₂.trans hp₃)).sound hp) _ _ hvalidate
  obtain ⟨slots, p₅, hslots, hrest₅⟩ := exists_of_bind (p := p₄)
    (m := orFault p₄.slots.withPrograms) hrest₄
  obtain ⟨hprograms, hp₅⟩ := orFault_ok hslots
  subst hp₅
  obtain ⟨bodies, p₆, hfix, hrest₆⟩ := exists_of_bind (p := { p₅ with slots := slots })
    (m := orFault (Pass.propertyBodies { p₅ with slots := slots })) hrest₅
  obtain ⟨hbodies, hp₆⟩ := orFault_ok hfix
  subst hp₆
  cases hrest₆
  exact ⟨p₅, slots, _, hp₁.trans (hp₂.trans (hp₃.trans hp₄)), hprograms,
    interpolatorProblem?_of_success hvalidate, rfl, hbodies, rfl, rfl⟩

theorem finish_reaches (hp : p.Sound) (h : finish env p = .ok o q) : p.Reaches q := by
  obtain ⟨r, slots, log, hr, hprograms, -, rfl, -⟩ := finish_ok hp h
  exact (((Reaches.refl p).evolves hr).step (.programs hprograms)).evolves (.idle rfl rfl)

theorem finish_completed (hp : p.Compiled) (h : finish env p = .ok o q) : Completed env o q := by
  obtain ⟨r, slots, log, hr, hprograms, hbudget, rfl, hbodies, hsource, ho⟩ := finish_ok hp.sound h
  have hr := hp.evolves hr
  have hreached := hr.reached.step (.programs hprograms)
  have hsound := Step.sound (.programs hprograms) hr.sound
  exact ⟨hreached.evolves (.idle rfl rfl), hsound.of_code_eq rfl, hr.normal, hr.normalEnd_le,
    hbodies, hsource, congrArg Outcome.slots ho, ⟨_, hr.parameters, hprograms⟩, rfl,
    List.getLast?_concat, hbudget, ho⟩

/-- A pass that has not begun is ready. -/
theorem ready_init : Ready {} := by
  have hscope : ∀ k, Pass.scope {} k = [] := fun k => by simp [scope]
  refine ⟨.refl _,
    ⟨fun k => ?_, fun k => ?_, fun k => ?_, fun kind => ?_, .nil, ⟨?_, ?_⟩, ?_, ?_⟩, rfl⟩
  · exact (hscope k).symm ▸ .nil
  · simp [hscope, Scope.temporaries]
  · simp [hscope]
  · cases kind <;> simp [UniformSet.table]
  · exact fun kind => by cases kind <;> exact .nil
  · exact fun kind => by cases kind <;> simp [UniformSet.table]
  · simp
  · simp

/-- Stages are opened before there is any result. -/
theorem openStages_leads :
    Leads (fun p => p.Ready ∧ ∀ property, p.results.get property = none) openStages
      fun p => p.Ready ∧ ∀ property, p.results.get property = none := by
  refine .forM fun stage _ => ?_
  rintro p ⟨hp, hresults⟩ a q h
  obtain ⟨_, p₁, hreset, h⟩ := exists_of_bind h
  obtain ⟨k, p₂, hscope, h⟩ := exists_of_bind h
  have hp₁ := (resetStack_safe stage).ready p hp _ _ hreset
  have hp₂ := Context.newScope_safe.ready p₁ hp₁ _ _ hscope
  have hkept : p₂.results = p.results := by
    cases hreset
    cases hscope
    rfl
  cases h
  have hnone : ∀ property, p₂.results.get property = none := hkept ▸ hresults
  have hstep : Step p₂ { p₂ with stageScopes := p₂.stageScopes.set stage k } := .stage stage k hnone
  exact ⟨⟨hp₂.reached.step hstep, hstep.sound hp₂.sound, hp₂.parameters⟩, hnone⟩

theorem openStages_ready {a b : Unit} (hinit : enter .init {} = .ok a p)
    (hopen : openStages p = .ok b q) : q.Ready := by
  have hnone : ∀ property, p.results.get property = none := by
    cases hinit
    exact fun _ => rfl
  exact (openStages_leads p ⟨(enter_safe _).ready _ ready_init _ _ hinit, hnone⟩ _ _ hopen).1

/-- Once the stages are open, a compilation goes through all phases and ends. -/
theorem runBy_ok {g : ExpressionGraph} {compile : Compiler}
    (h : runBy env g compile {} = .ok o q) :
    ∃ s r, s.Ready ∧ compileAll env g compile s = .ok () r ∧ finish env r = .ok o q := by
  obtain ⟨_, s₀, hinit, hrest₀⟩ := exists_of_bind h
  obtain ⟨_, s₁, hopen, hrest₁⟩ := exists_of_bind hrest₀
  obtain ⟨_, s₂, hall, hfinish⟩ := exists_of_bind hrest₁
  exact ⟨s₁, s₂, openStages_ready hinit hopen, hall, hfinish⟩

/-- **The outcome of a compilation** is put together from the state in which it ends. -/
theorem run_completed {g : ExpressionGraph} (hg : g.IsSafe) (h : run env (some g) {} = .ok o q) :
    Completed env o q := by
  obtain ⟨s, r, hs, hall, hfinish⟩ := runBy_ok h
  exact finish_completed (compileAll_leads hg s hs _ _ hall) hfinish

/-- Whether a step comes to a result with a property is found by taking it. -/
instance decidableExistsOk {α : Type} {P : α → Pass → Prop} [∀ a p, Decidable (P a p)] :
    (r : EStateM.Result Fault Pass α) → Decidable (∃ a p, r = .ok a p ∧ P a p)
  | .ok a p => decidable_of_iff (P a p) ⟨fun h => ⟨a, p, rfl, h⟩, fun ⟨_, _, rfl, h⟩ => h⟩
  | .error _ _ => isFalse fun ⟨_, _, h, _⟩ => nomatch h

/-- The same of a step from a state that another step comes to. -/
instance decidableExistsNext {α : Type} {P : α → Pass → Prop} [∀ a p, Decidable (P a p)]
    (m : PassM α) (p : Pass) : Decidable (∃ a q, m p = .ok a q ∧ P a q) := decidableExistsOk (m p)

/-- Whether a run breaks off with a fault is found by running. -/
instance decidableExistsError {α : Type} (e : Fault) {P : Pass → Prop} [∀ p, Decidable (P p)] :
    (r : EStateM.Result Fault Pass α) → Decidable (∃ p, r = .error e p ∧ P p)
  | .ok _ _ => isFalse fun ⟨_, h, _⟩ => nomatch h
  | .error e' p => decidable_of_iff (e' = e ∧ P p)
      ⟨fun h => ⟨p, h.1 ▸ rfl, h.2⟩, fun ⟨_, h, hp⟩ => by cases h; exact ⟨rfl, hp⟩⟩

end Pass

end ShaderGraph
