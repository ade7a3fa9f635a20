import ShaderGraph.Proofs.Termination
import ShaderGraph.Proofs.TrackedNodes

/-!
# The phases of a probed compilation

Between compilations nothing is in progress, and of each stage only the outermost frame is open.
That frame belongs to no scope yet, or to the scope of the stage: what was generated apart, for an
interpolator or a custom output, was compiled in a frame that the stage has left since
(`Pass.Idle`). The phases that generate functions keep that, and do the same when the graph is
probed (`Pass.compileInterpolators_observed`, `Pass.compileCustomOutputs_idles`).
-/

namespace ShaderGraph

/-- A graph whose expressions can be probed. -/
structure ExpressionGraph.Tracked (t : Terms) (g : ExpressionGraph) : Prop where
  nodes : ∀ {id : NodeId} {e : Expression}, g.node? id = some e → e.Tracked t
  /-- A custom output is no call. -/
  apart : ∀ {id : NodeId} {e : Expression}, g.node? id = some e → e.customOutput?.isSome →
    e.call? = none

theorem ExpressionGraph.Tracked.asked {t : Terms} {W : Ledger → Watch} {g : ExpressionGraph}
    (hg : g.Tracked t) (hW : Watch.Sound t W) :
    Compiler.Tracked t g.compile fun last b =>
      b.ask (W last) (g.map (Expression.probed (W last) b)).compile :=
  (compileAt_tracked hW (fun _ _ he => hg.nodes he) _).asked hW

namespace Pass

variable {t : Terms} {env : Environment} {busy : Option Stage} {l l' : Ledger} {p q : Pass}
variable {ctx : Context} {root : Nat} {α : Type} {s : PassM α} {n : Ledger → Probe → PassM α}
variable {c : Compiler} {d : Ledger → Probe → Compiler}

/-! ### States between compilations -/

/-- A property that the log says was compiled. -/
def Logged (log : List LogEntry) (property : Property) : Prop :=
  ∃ e ∈ log, e.message = propertyMessage ∧ ("property", property.name) ∈ e.attributes

/-- A state in which nothing is in progress. The frame of one stage may still belong to a function
that was generated apart. -/
structure Idle (t : Terms) (env : Environment) (busy : Option Stage) (l : Ledger) (p : Pass) :
    Prop where
  sane : p.Sane t env
  placed : ∀ stage, p.stageScopes.get stage < p.scopes.length
  orderly : l.Orderly t p
  idle : ∀ f, p.nesting.active f = []
  roots : ∀ stage, ∃ root, p.openFrames.get stage = [root] ∧ root < p.frames.length ∧
    (busy ≠ some stage → l.scope root = none ∨ l.scope root = some (p.stageScopes.get stage))
  apart : ∀ {s s' : Stage}, p.openFrames.get s = p.openFrames.get s' → s = s'
  /-- A property without code was reported. -/
  reported : t.loud → ∀ property, Logged p.log property → p.results.get property = none →
    p.success = false

namespace Idle

/-- A step that leaves the frames. -/
theorem later (h : p.Idle t env busy l) (hsane : q.Sane t env) (hq : Later p q) :
    q.Idle t env busy l := by
  have hnesting : q.nesting = p.nesting := by
    simp only [Pass.nesting, hq.frames, hq.openFrames]
  refine ⟨hsane, fun stage => ?_, h.orderly.later hq.toSince hq.frames, ?_, fun stage => ?_,
    fun hs => ?_, fun hloud property hlog hnone => hq.failed (h.reported hloud property ?_ ?_)⟩
  · rw [hq.stageScopes]
    exact Nat.lt_of_lt_of_le (h.placed stage) hq.length_scopes
  · rw [hnesting]
    exact h.idle
  · rw [hq.openFrames, hq.frames, hq.stageScopes]
    exact h.roots stage
  · rw [hq.openFrames] at hs
    exact h.apart hs
  · obtain ⟨e, he, hmessage, hname⟩ := hlog
    exact ⟨e, hq.log e he hmessage, hmessage, hname⟩
  · rwa [hq.results] at hnone

/-- The state in which a context can be compiled in. -/
theorem prepared (h : p.Idle t env none l) (henv : ctx.env = env) (hshared : ctx.shared = none)
    (hvoiced : ctx.property.isSome ↔ p.IsStageScope ctx.scope)
    (hplaced : ctx.scope < p.scopes.length) (haudible : (t.within ctx).loud → p.sink = none)
    (hroot : p.openFrames.get ctx.stage = [root]) (hlt : root < p.frames.length)
    (hfree : l.scope root = none ∨ l.scope root = some ctx.scope) :
    ctx.Prepared t (l.own root ctx.scope) p := by
  refine ⟨⟨?_, hplaced, haudible⟩, h.orderly.own hlt hfree, ?_, fun f hf => ?_,
    fun b hb => ?_, hvoiced⟩
  · rw [henv]
    exact h.sane.of_lax rfl rfl h.sane.stacked
  · rw [hroot]
    exact List.cons_ne_nil _ _
  · rw [hroot] at hf
    rw [List.mem_singleton.1 hf]
    exact Ledger.scope_own_self
  · rw [hshared] at hb
    cases hb

/-- What was compiled in the frame of a stage leaves nothing in progress. -/
theorem after (h : p.Idle t env none l) (henv : ctx.env = env)
    (hroot : p.openFrames.get ctx.stage = [root]) (hq : ctx.Prepared t l' q)
    (hbalanced : Balanced (l.own root ctx.scope) p l' q)
    (hbusy : busy = some ctx.stage ∨ busy = none ∧ p.stageScopes.get ctx.stage = ctx.scope) :
    q.Idle t env busy l' := by
  refine ⟨?_, fun stage => ?_, hq.orderly, ?_, fun stage => ?_, fun {s s'} hs => ?_,
    fun hloud property hlog hnone => hbalanced.failed (h.reported hloud property ?_ ?_)⟩
  · exact henv ▸ hq.fit.toSane.of_lax rfl rfl hq.fit.stacked
  · rw [hbalanced.stageScopes]
    exact Nat.lt_of_lt_of_le (h.placed stage) hbalanced.length_scopes
  · rw [hbalanced.nesting]
    exact h.idle
  · obtain ⟨root', hroot', hlt, hscope⟩ := h.roots stage
    refine ⟨root', (hbalanced.openFrames_eq stage).trans hroot',
      Nat.lt_of_lt_of_le hlt hbalanced.length_le, fun hstage => ?_⟩
    rw [hbalanced.scopesOf root' hlt, hbalanced.stageScopes]
    by_cases heq : stage = ctx.stage
    · subst heq
      obtain rfl : root' = root := by simpa using hroot'.symm.trans hroot
      rcases hbusy with rfl | ⟨-, hscope⟩
      · exact absurd rfl hstage
      · rw [hscope]
        exact .inr Ledger.scope_own_self
    · have hne : root' ≠ root := fun hsame => heq (h.apart (by rw [hroot', hroot, hsame]))
      rw [Ledger.scope_own_of_ne hne]
      exact hscope (by simp)
  · rw [hbalanced.openFrames_eq, hbalanced.openFrames_eq] at hs
    exact h.apart hs
  · obtain ⟨e, he, hmessage, hname⟩ := hlog
    exact ⟨e, hbalanced.log e he hmessage, hmessage, hname⟩
  · rwa [hbalanced.results] at hnone

/-- The fresh frame of a stage is not open in any other one. -/
theorem apart_restarted (h : p.Idle t env busy l) {stage s s' : Stage}
    (hs : (p.restarted stage).openFrames.get s = (p.restarted stage).openFrames.get s') :
    s = s' := by
  have hself : (p.restarted stage).openFrames.get stage = [p.frames.length] :=
    StageTable.get_set_self ..
  have hother : ∀ {s : Stage}, s ≠ stage →
      (p.restarted stage).openFrames.get s = p.openFrames.get s := fun hne =>
    StageTable.get_set_of_ne _ hne _
  have hfresh : ∀ {s : Stage}, s ≠ stage →
      (p.restarted stage).openFrames.get s ≠ [p.frames.length] := by
    intro s hne hsame
    obtain ⟨root, hroot, hlt, -⟩ := h.roots s
    have hsame' : root = p.frames.length := by
      simpa using hroot.symm.trans ((hother hne).symm.trans hsame)
    omega
  by_cases hs₁ : s = stage
  · by_contra hne
    exact hfresh (fun h => hne (hs₁.trans h.symm)) (hs.symm.trans (hs₁ ▸ hself))
  · by_cases hs₂ : s' = stage
    · exact absurd (hs.trans (hs₂ ▸ hself)) (hfresh hs₁)
    · refine h.apart ?_
      rw [← hother hs₁, ← hother hs₂]
      exact hs

/-- A stage leaves its frame for a fresh one. -/
theorem restarted (h : p.Idle t env busy l) {stage : Stage}
    (hbusy : busy = none ∨ busy = some stage) : (p.restarted stage).Idle t env none l := by
  have hsince : Since p (p.restarted stage) := .of_frames rfl
  refine ⟨{ h.sane with stacked := h.sane.stacked_of_eq rfl }, h.placed,
    h.orderly.concat hsince rfl rfl rfl rfl, fun f => ?_, fun stage' => ?_, h.apart_restarted,
    h.reported⟩
  · exact (congrFun (activeIn_concat p.frames rfl) f).trans (h.idle f)
  · have hlength : (p.restarted stage).frames.length = p.frames.length + 1 := by
      simp [Pass.restarted, withStack]
    by_cases heq : stage' = stage
    · subst heq
      exact ⟨p.frames.length, StageTable.get_set_self .., by omega,
        fun _ => .inl h.orderly.scope_length_eq_none⟩
    · obtain ⟨root, hroot, hlt, hscope⟩ := h.roots stage'
      refine ⟨root, (StageTable.get_set_of_ne _ heq _).trans hroot, by omega, fun _ => hscope ?_⟩
      rcases hbusy with rfl | rfl
      · simp
      · exact fun hsame => heq (Option.some.inj hsame).symm

end Idle

/-! ### Steps between compilations -/

/-- A state with one more scope, in which there is no code yet. -/
def withScope (p : Pass) : Pass := { p with scopes := p.scopes ++ [[]] }

theorem scope_withScope (k : Nat) : p.withScope.scope k = p.scope k := by
  unfold withScope scope
  simp only [List.getD_eq_getElem?_getD]
  rcases Nat.lt_trichotomy k p.scopes.length with hlt | rfl | hgt
  · rw [List.getElem?_append_left hlt]
  · simp
  · rw [List.getElem?_eq_none (by simp; omega), List.getElem?_eq_none (by omega)]

theorem later_withScope : Later p p.withScope :=
  ⟨⟨fun k => by rw [scope_withScope], by simp [withScope], id, rfl, rfl, fun _ h _ => h, id,
    List.prefix_rfl⟩, rfl, rfl⟩

theorem Idle.withScope (h : p.Idle t env busy l) : p.withScope.Idle t env busy l := by
  have hs := h.sane
  refine h.later { hs with
    chunks := fun k c hc => ?_, pageTables := fun e he => ?_, stacked := hs.stacked_of_eq rfl,
    results := fun property i hi => ?_ } later_withScope
  · rw [scope_withScope] at hc
    exact hs.chunks k c hc
  · rw [scope_withScope]
    exact hs.pageTables e he
  · rw [scope_withScope]
    exact hs.results property i hi

/-- A step that compiles no expression, in a context. -/
theorem Idle.meets (hp : p.Idle t env busy l) (hsink : p.sink = none) (henv : ctx.env = env)
    (hplaced : ctx.scope < p.scopes.length) (hs : Oblivious s) {Q : α → Pass → Prop}
    (h : ctx.Meets t p s Q) :
    Observed l p s (fun _ _ => s) fun a l' q =>
      (q.Idle t env busy l' ∧ q.sink = none) ∧ (l' = l ∧ Later p q) ∧ Q a q := by
  subst henv
  obtain ⟨hok, herror⟩ := h ⟨hp.sane, hplaced, fun _ => hsink⟩
  refine .same hs (fun a q hq => ?_) herror
  obtain ⟨hfit, hlater, ha⟩ := hok a q hq
  exact ⟨⟨hp.later hfit.toSane hlater, hlater.sink hsink⟩, ⟨rfl, hlater⟩, ha⟩

/-- A step that compiles no expression, in whatever context. -/
theorem Idle.step (hp : p.Idle t env busy l) (hsink : p.sink = none) (hs : Oblivious s)
    (h : ∀ (ctx : Context) (p : Pass), ctx.Meets t p s fun _ _ => True) :
    Observed l p s (fun _ _ => s) fun _ l' q =>
      (q.Idle t env busy l' ∧ q.sink = none) ∧ l' = l ∧ Later p q := by
  let ctx : Context := { env, stage := .vertex, scope := p.stageScopes.get .vertex }
  exact (hp.meets hsink (show ctx.env = env from rfl) (hp.placed .vertex) hs (h ctx p)).mono
    fun _ _ _ _ hq => ⟨hq.1, hq.2.1⟩

/-- A step between compilations. It does the same when what it compiles is probed, and leaves
nothing in progress. -/
def Idles (t : Terms) (env : Environment) {α : Type} (s : PassM α) (n : Ledger → Probe → PassM α) :
    Prop :=
  ∀ l p, p.Idle t env none l → p.sink = none →
    Observed l p s n fun _ l' q => q.Idle t env none l' ∧ q.sink = none

namespace Idles

variable {β : Type} {f : α → PassM β} {k : Ledger → Probe → α → PassM β}

/-- A step that compiles no expression. -/
theorem step (hs : Oblivious s)
    (h : ∀ (ctx : Context) (p : Pass), ctx.Meets t p s fun _ _ => True) :
    Idles t env s fun _ _ => s := fun _ _ hp hsink =>
  (hp.step hsink hs h).mono fun _ _ _ _ hq => hq.1

theorem bind (hs : Idles t env s n) (hf : ∀ a, Idles t env (f a) fun last b => k last b a) :
    Idles t env (s >>= f) fun last b => n last b >>= k last b := fun l p hp hsink =>
  (hs l p hp hsink).bind fun a l' q _ ⟨hq, hsink'⟩ => hf a l' q hq hsink'

theorem pure (a : α) : Idles t env (pure a) fun _ _ => pure a :=
  fun _ _ hp hsink => .pure ⟨hp, hsink⟩

end Idles

theorem note_idles (level : LogLevel) {message : String} (h : message ≠ propertyMessage)
    (attributes : List (String × String)) :
    Idles t env (note level message attributes) fun _ _ => note level message attributes :=
  .step (note_oblivious _ _ _) fun _ _ => Context.note_meets level h attributes

theorem enter_idles (phase : Phase) : Idles t env (enter phase) fun _ _ => enter phase :=
  .step (enter_plain phase).oblivious fun _ _ =>
    .modify_bind rfl (Context.note_meets _ (by decide) _)

theorem reportGlobally_idles (problem : Problem) :
    Idles t env (reportGlobally problem) fun _ _ => reportGlobally problem :=
  .step (addDiagnostic_oblivious _) fun _ _ =>
    (Context.addDiagnostic_meets _).mono fun _ _ _ _ => trivial

/-- An update of what handles are not judged by. -/
theorem modify_idles {u : Pass → Pass} (hapart : ∀ p, (u p).apart = p.apart)
    (hcore : ∀ p, (u p).core = (u p.core).core) (h : ∀ p, (u p).account = p.account)
    (hgauge : ∀ p, (u p).gauge = p.gauge) :
    Idles t env (modify u) fun _ _ => modify u :=
  .step (fun marks => (under_absorbs marks).modify hapart hcore hgauge) fun _ p =>
    .modify_bind (g := pure) (h p) (.pure trivial)

/-- What phases do besides compiling expressions leaves nothing in progress. -/
theorem idles_phases : PhaseLogic fun α s (n : Ledger × Probe → PassM α) =>
    Idles t env s fun last b => n (last, b) where
  pure := Idles.pure
  bind hs hf := hs.bind hf
  read {_ _ k} hk h l p hp hsink :=
    .congr rfl (fun last b => congrFun (congrFun ((hk (b.view l p)).trans (hk p).symm) (last, b)) _)
      (h p l p hp hsink)
  noSuchStage _ _ _ _ := .throw rfl
  enter := enter_idles
  noted := note_idles .debug (by decide)
  report _ := reportGlobally_idles _
  named _ := modify_idles (fun _ => rfl) (fun _ => rfl) (fun _ => rfl) fun _ => rfl
  defined _ := modify_idles (fun _ => rfl) (fun _ => rfl) (fun _ => rfl) fun _ => rfl

theorem resetStack_observed (hp : p.Idle t env busy l) {stage : Stage}
    (hbusy : busy = none ∨ busy = some stage) :
    Observed l p (resetStack stage) (fun _ _ => resetStack stage) fun _ l' q =>
      l' = l ∧ q = p.restarted stage ∧ q.Idle t env none l' :=
  .congr (s := pure ()) (k := fun _ _ => pure ()) (q := p.restarted stage) rfl (fun _ _ => rfl)
    (.pure ⟨rfl, rfl, hp.restarted hbusy⟩)

/-! ### Functions generated apart -/

/-- Nothing was compiled yet in the frame of a stage. -/
def Unused (l : Ledger) (stage : Stage) (p : Pass) : Prop :=
  ∀ root, p.openFrames.get stage = [root] → l.scope root = none

section Apart

variable {Q : α → Ledger → Pass → Prop}

/-- What is compiled in the frame of a stage, for a scope that the frame can belong to. -/
theorem Idle.observed (h : p.Idle t env none l) (henv : ctx.env = env)
    (hroot : p.openFrames.get ctx.stage = [root])
    (hfree : l.scope root = none ∨ l.scope root = some ctx.scope)
    (hbusy : busy = some ctx.stage ∨ busy = none ∧ p.stageScopes.get ctx.stage = ctx.scope)
    (hs : Observed (l.own root ctx.scope) p s n fun a l' q => ctx.Prepared t l' q ∧
      Balanced (l.own root ctx.scope) p l' q ∧ Q a l' q) :
    Observed l p s n fun a l' q =>
      (q.Idle t env busy l' ∧ ctx.Prepared t l' q ∧ Since p q) ∧ Q a l' q := by
  refine .extend (Ledger.le_own hfree) rfl (hs.mono fun a l' q _ ⟨hq, hbalanced, ha⟩ => ?_)
  exact ⟨⟨h.after henv hroot hq hbalanced hbusy, hq, hbalanced.toSince⟩, ha⟩

/-- A function is compiled in a scope of its own. -/
theorem Idle.prepared_apart (h : p.Idle t env none l) (henv : ctx.env = env)
    (hscope : ctx.scope = p.scopes.length) (hproperty : ctx.property = none)
    (hshared : ctx.shared = none) (hroot : p.openFrames.get ctx.stage = [root])
    (hfree : l.scope root = none) : ctx.Prepared t (l.own root ctx.scope) p.withScope := by
  obtain ⟨root', hroot', hlt, -⟩ := h.roots ctx.stage
  obtain rfl : root = root' := by simpa using hroot.symm.trans hroot'
  refine h.withScope.prepared henv hshared ⟨fun hsome => ?_, fun hstage => ?_⟩ ?_
    (fun hloud => ?_) hroot hlt (.inl hfree)
  · rw [hproperty] at hsome
    cases hsome
  · obtain ⟨stage, hstage⟩ := hstage
    exact absurd (h.placed stage) (Nat.not_lt.2 (hscope ▸ Nat.le_of_eq hstage.symm))
  · simp [Pass.withScope, hscope]
  · exact absurd hloud.2 (by simp [hproperty])

theorem unused_restarted (hp : p.Idle t env busy l) (stage : Stage) :
    Unused l stage (p.restarted stage) := by
  intro root hroot
  have hself : (p.restarted stage).openFrames.get stage = [p.frames.length] :=
    StageTable.get_set_self ..
  obtain rfl : root = p.frames.length := by simpa using hroot.symm.trans hself
  exact hp.orderly.scope_length_eq_none

theorem Unused.later {stage : Stage} (h : Unused l stage p) (hq : Later p q) :
    Unused l stage q := by
  intro root hroot
  rw [hq.openFrames] at hroot
  exact h root hroot

end Apart

section Interpolators

variable {code : Code}

/-- The code of the input of an interpolator is a number. -/
theorem compileInterpolated_tracked (hc : Compiler.Tracked t c d) (ctx : Context) (input : Input) :
    ctx.Tracked t l p (compileInterpolated c ctx input)
      (fun last b => compileInterpolated (d last b) ctx input) fun x q =>
        ctx.Points x.1 q ∧ (x.1.isSome → x.2.isFloat) := by
  refine (hc ctx input l p).bind fun code l₁ q₁ _ hcode => ?_
  obtain ⟨type, htype⟩ := Context.exists_typeOf hcode.1
  have htyped : ctx.Meets (t.within ctx) q₁ (ctx.typeOf code) fun type' q =>
      ctx.Points code q ∧ type' = type :=
    .of_eq htype id (.refl q₁) ⟨hcode.1, rfl⟩
  refine (Context.Tracked.step (Context.typeOf_plain code).oblivious htyped).bind
    fun type' l₂ q₂ _ ⟨hpoints, _⟩ => ?_
  refine .ite (fun _ => ?_) fun h => .pure ⟨hpoints, fun hsome => ?_⟩
  · refine (Node.report_tracked _).bind fun _ l₃ q₃ _ _ => .pure ⟨.none, fun h => ?_⟩
    cases h
  · simpa [hsome] using h

theorem storeInterpolator_meets (hcode : ctx.Points code p) {type : ValueType}
    (htype : code.isSome → type ≠ .unknown) (id : NodeId) :
    ctx.Meets t p (storeInterpolator ctx id code type) fun _ _ => True := by
  unfold storeInterpolator
  split
  case isFalse => exact .modify_bind (g := pure) rfl (.pure trivial)
  case isTrue hsome =>
    refine .get_bind ((Context.functionBody_meets hcode).bind fun body q _ _ => ?_)
    refine .modify_bind rfl (.update_bind (g := pure) (fun hp => ?_) (.of_ground_eq rfl)
      (.pure trivial))
    refine { hp with interpolators := fun j hj => ?_, stacked := hp.stacked_of_eq rfl }
    rcases List.mem_append.1 hj with hj | hj
    · exact hp.interpolators j hj
    · rw [List.mem_singleton.1 hj]
      exact htype hsome

theorem storeInterpolator_oblivious (ctx : Context) (id : NodeId) (code : Code)
    (type : ValueType) : Oblivious (storeInterpolator ctx id code type) := by
  intro marks
  unfold storeInterpolator
  split
  · refine (under_absorbs marks).read (fun _ => rfl) fun p => ?_
    refine ((Context.functionBody_plain code).oblivious marks).bind fun body => ?_
    refine ((addImplementation_steps (L := .full) rfl _).oblivious marks).bind fun _ => ?_
    exact (Context.listInterpolator_steps (L := .full) rfl _).oblivious marks
  · refine .modify fun p q hpq => ?_
    obtain rfl := hpq
    rfl

theorem Idle.withSink (hp : p.Idle t env busy l) (sink : Option (List Diagnostic)) :
    Idle t env busy l { p with sink } :=
  { hp with
    sane := { hp.sane with stacked := hp.sane.stacked_of_eq rfl }
    orderly := { hp.orderly with } }

theorem closeInterpolator_observed (hp : p.Idle t env (some .vertex) l)
    (attributes : List (String × String)) :
    Observed l p (closeInterpolator attributes) (fun _ _ => closeInterpolator attributes)
      fun _ l' q => (q.Idle t env none l' ∧ q.sink = none) ∧ Unused l' .vertex q := by
  refine .congr (q := { p with sink := none })
    (s := note .debug "compiled vertex interpolator" attributes >>= fun _ => resetStack .vertex)
    (k := fun _ _ =>
      note .debug "compiled vertex interpolator" attributes >>= fun _ => resetStack .vertex)
    rfl (fun _ _ => rfl) ?_
  refine ((hp.withSink none).step rfl (note_oblivious _ _ _) fun _ _ =>
    Context.note_meets _ (by decide) _).bind fun _ l₁ q₁ _ ⟨⟨hq₁, hsink⟩, _⟩ => ?_
  refine (resetStack_observed hq₁ (.inr rfl)).mono fun _ l₂ q₂ _ ⟨hl, hq, hq₂⟩ => ?_
  subst hl hq
  exact ⟨⟨hq₂, hsink⟩, unused_restarted hq₁ .vertex⟩

theorem storeInterpolator_observed (hp : p.Idle t ctx.env (some .vertex) l)
    (hprepared : ctx.Prepared t l p) (hcode : ctx.Points code p) {type : ValueType}
    (htype : code.isSome → type ≠ .unknown) (id : NodeId) :
    Observed l p (storeInterpolator ctx id code type)
      (fun _ _ => storeInterpolator ctx id code type) fun _ l' q =>
        q.Idle t ctx.env (some .vertex) l' := by
  obtain ⟨hok, herror⟩ := storeInterpolator_meets hcode htype id hprepared.fit
  refine .same (storeInterpolator_oblivious ctx id code type) (fun _ q hq => ?_) herror
  obtain ⟨hfit, hlater, -⟩ := hok _ q hq
  exact hp.later (hfit.toSane.of_lax rfl rfl hfit.stacked) hlater

theorem known_of_interpolated {type : ValueType} (h : code.isSome → type.isFloat) :
    code.isSome → (if code.isSome && type = .float then ValueType.float1 else type) ≠ .unknown := by
  intro hsome
  split
  · decide
  · exact Context.known_of_isFloat (h hsome)

/-- **An interpolator** is compiled in a scope of its own, and the vertex stage leaves the frame
that was used for it. -/
theorem compileInterpolator_observed (hc : Compiler.Tracked t c d)
    (hp : p.Idle t env none l) (hunused : Unused l .vertex p) (id : NodeId)
    (input : Input) :
    Observed l p (compileInterpolator env c id input)
      (fun last b => compileInterpolator env (d last b) id input) fun _ l' q =>
        (q.Idle t env none l' ∧ q.sink = none) ∧ Unused l' .vertex q := by
  let ctx : Context := { env, stage := .vertex, scope := p.scopes.length, node := id }
  have hheld := hp.withSink (some [])
  obtain ⟨root, hroot, -⟩ := hp.roots .vertex
  have hfree := hunused root hroot
  have hprepared : ctx.Prepared t (l.own root ctx.scope) (withScope { p with sink := some [] }) :=
    hheld.prepared_apart rfl rfl rfl rfl hroot hfree
  let rest (x : Code × ValueType) : PassM Unit := do
    let type := if x.1.isSome && x.2 = .float then .float1 else x.2
    storeInterpolator ctx id x.1 type
    closeInterpolator [("node", toString id), ("ok", toString x.1.isSome), ("type", type.name)]
  refine .congr (q := withScope { p with sink := some [] })
    (s := compileInterpolated c ctx input >>= rest)
    (k := fun last b => compileInterpolated (d last b) ctx input >>= rest) rfl (fun _ _ => rfl) ?_
  refine (hheld.withScope.observed (show ctx.env = env from rfl) hroot (.inl hfree)
    (.inl rfl) (compileInterpolated_tracked hc ctx input hprepared)).bind fun x l₁ q₁ _ hx => ?_
  obtain ⟨⟨hq₁, hprepared₁, -⟩, hpoints, hfloat⟩ := hx
  refine (storeInterpolator_observed hq₁ hprepared₁ hpoints (known_of_interpolated hfloat) id).bind
    fun _ l₂ q₂ _ hq₂ => ?_
  exact closeInterpolator_observed hq₂ _

/-- **The interpolators** leave nothing in progress. -/
theorem compileInterpolators_observed {W : Ledger → Watch} (g : ExpressionGraph)
    (hc : Compiler.Tracked t c d) (hp : p.Idle t env none l) (hsink : p.sink = none)
    (hunused : Unused l .vertex p) :
    Observed l p (compileInterpolators env g c)
      (fun last b =>
        compileInterpolators env (g.map (Expression.probed (W last) b)) (d last b))
      fun _ l' q => q.Idle t env none l' ∧ q.sink = none := by
  have hloop : Observed l p (compileInterpolators env g c)
      (fun last b =>
        compileInterpolators env (g.map (Expression.probed (W last) b)) (d last b))
      fun _ l' q => (q.Idle t env none l' ∧ q.sink = none) ∧ Unused l' .vertex q := by
    refine Observed.forM (fun id _ l p ⟨⟨hp, hsink⟩, hunused⟩ => ?_) ⟨⟨hp, hsink⟩, hunused⟩
    simp only [ExpressionGraph.node?_map, Option.bind_map, Function.comp_def,
      Expression.vertexInput?_probed]
    cases (g.node? id).bind (·.vertexInput?) with
    | some input => exact compileInterpolator_observed hc hp hunused id input
    | none =>
      refine (hp.step hsink (addDiagnostic_oblivious _) fun _ _ =>
        (Context.addDiagnostic_meets _).mono fun _ _ _ _ => trivial).mono
          fun _ l' q _ ⟨hq, hl, hlater⟩ => ⟨hq, ?_⟩
      exact hl ▸ hunused.later hlater
  exact hloop.mono fun _ _ _ _ hq => hq.1

end Interpolators

/-! ### Custom outputs -/

section CustomOutputs

variable {W : Ledger → Watch} {e : Expression} {id : NodeId}

/-- Nothing is compiled for a key where nothing is in progress. -/
theorem Idle.compiling?_eq_none (h : p.Idle t env busy l) (ctx : Context) :
    ctx.compiling? p = none := by
  unfold Context.compiling?
  cases (p.openFrames.get ctx.stage).head? with
  | none => rfl
  | some f => simp [h.idle f]

section

variable (hW : Watch.Sound t W) (hc : Compiler.Tracked t c d) (he : e.Tracked t)
  (hcall : e.call? = none)

include hW hc he hcall

theorem compileFunction_observed {stage : Stage}
    (hp : p.Idle t env none l) (hsink : p.sink = none) (hunused : Unused l stage p)
    (output : Int) :
    Observed l p (compileFunction env c id e stage output)
      (fun last b => compileFunction env (d last b) id (e.probed (W last) b) stage output)
      fun _ l' q => q.Idle t env (some stage) l' ∧ q.sink = none := by
  let ctx : Context := { env, stage, scope := p.scopes.length, node := id }
  obtain ⟨root, hroot, -⟩ := hp.roots stage
  have hfree := hunused root hroot
  have hprepared : ctx.Prepared t (l.own root ctx.scope) p.withScope :=
    hp.prepared_apart rfl rfl rfl rfl hroot hfree
  have hapart : ctx.compiling? p.withScope = none := hp.withScope.compiling?_eq_none ctx
  have hbegins : ctx.Begins t (l.own root ctx.scope) p.withScope := by
    refine ⟨hprepared, fun f κ h => ?_⟩
    rw [hapart] at h
    cases h
  have hexpression := he.observed hW hc output (fun h => by simp [hcall] at h)
    (Ledger.le_refl _) (fun b => Probe.count_view_of_none hapart) hbegins fun f κ h => by
      rw [hapart] at h
      cases h
  refine .congr (q := p.withScope) (s := e.compile c ctx output >>= fun _ => pure PUnit.unit)
    (k := fun last b => (e.probed (W last) b).compile (d last b) ctx output >>= fun _ =>
      pure PUnit.unit) rfl (fun _ _ => rfl) ?_
  refine (hp.withScope.observed (show ctx.env = env from rfl) hroot (.inl hfree)
    (.inl rfl) (hexpression.mono fun _ _ _ _ h => ⟨h.2.1, h.2.2.1, trivial⟩)).bind
      fun _ l₁ q₁ _ ⟨⟨hq₁, _, hsince⟩, _⟩ => .pure ⟨hq₁, hsince.sink hsink⟩

theorem compileFunctions_idles (outputs : Nat) (stage : Stage) :
    Idles t env (compileFunctions env c id e outputs stage)
      fun last b => compileFunctions env (d last b) id (e.probed (W last) b) outputs stage := by
  intro l p hp hsink
  -- The stage leaves its frame before each function, and after the last.
  have hreset : ∀ l p, (∃ busy, (busy = none ∨ busy = some stage) ∧ p.Idle t env busy l ∧
      p.sink = none) → Observed l p (resetStack stage) (fun _ _ => resetStack stage) fun _ l' q =>
        (q.Idle t env none l' ∧ q.sink = none) ∧ Unused l' stage q := by
    rintro l p ⟨busy, hbusy, hp, hsink⟩
    refine (resetStack_observed hp hbusy).mono fun _ l' q _ ⟨hl, hq, hq'⟩ => ?_
    subst hl hq
    exact ⟨⟨hq', hsink⟩, unused_restarted hp stage⟩
  refine Observed.bind (Observed.forM (fun output _ l p hp => ?_) ⟨none, .inl rfl, hp, hsink⟩)
    fun _ l₁ q₁ _ hq₁ => (hreset l₁ q₁ hq₁).mono fun _ _ _ _ hq => hq.1
  refine (hreset l p hp).bind fun _ l₁ q₁ _ ⟨⟨hq₁, hsink₁⟩, hunused⟩ => ?_
  exact (compileFunction_observed hW hc he hcall hq₁ hsink₁ hunused output).mono
    fun _ _ _ _ ⟨hq, hsink⟩ => ⟨some stage, .inr rfl, hq, hsink⟩

end

end CustomOutputs

end Pass

end ShaderGraph
