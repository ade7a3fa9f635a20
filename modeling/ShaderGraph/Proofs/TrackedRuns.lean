import ShaderGraph.Proofs.TrackedProperties

/-!
# Probed compilations

All phases do the same when the graph is probed (`Pass.compileAll_observed`). The end of a
compilation puts together what is there, and breaks off only over the programs of the slots
(`Pass.close_ends`). So a whole compilation does the same when it is watched, counts each key once
when it is counted, and ends with nothing in progress (`Pass.run_observed`).
-/

namespace ShaderGraph

open Pass

/-! ### All phases -/

/-- A change to the expressions of a graph does not matter to what virtual textures it reaches, if
it keeps their inputs. -/
theorem ExpressionGraph.virtualTextureProblems_map (m : Material) (g : ExpressionGraph)
    {h : Expression → Expression} (hinputs : ∀ e, (h e).inputs = e.inputs)
    (huses : ∀ e, (h e).usesVirtualTexture = e.usesVirtualTexture) :
    virtualTextureProblems m (g.map h) = virtualTextureProblems m g := by
  have hfinds : ∀ n visited pending, (g.map h).findsVirtualTexture n visited pending =
      g.findsVirtualTexture n visited pending := by
    refine findsVirtualTexture_congr fun id => ?_
    rw [node?_map, Option.map_map]
    simp only [Function.comp_def, hinputs, huses]
  unfold virtualTextureProblems reachesVirtualTexture
  simp only [hfinds]
  simp [map, List.flatMap_map, hinputs]

theorem ExpressionGraph.virtualTextureProblems_probed (m : Material) (g : ExpressionGraph)
    (w : Watch) (b : Probe) :
    virtualTextureProblems m (g.map (Expression.probed w b)) = virtualTextureProblems m g :=
  g.virtualTextureProblems_map m (fun _ => Expression.inputs_probed)
    fun _ => Expression.usesVirtualTexture_probed

namespace Pass

section Phases

variable {t : Terms} {W : Ledger → Watch} {env : Environment} {g : ExpressionGraph}
variable {c : Compiler} {d : Ledger → Probe → Compiler}

/-- What is compiled for a material leaves nothing in progress. -/
theorem asks_idles (hW : Watch.Sound t W) (hg : g.Tracked t) (hc : Compiler.Tracked t c d) :
    PhaseLogic.Asks (fun α s (n : Ledger × Probe → PassM α) =>
      Idles t env s fun last b => n (last, b)) env g c
      (fun i => g.map (Expression.probed (W i.1) i.2)) fun i => d i.1 i.2 where
  toAsksNormal := asksNormal_idles env hc
  customOutput id := by
    simp only [ExpressionGraph.node?_map, Option.bind_map, Function.comp_def,
      Expression.customOutput?_probed]
    cases hout : (g.node? id).bind (·.customOutput?) with
    | none => exact .inl ⟨rfl, fun _ => rfl⟩
    | some out =>
      obtain ⟨e, he, hout⟩ := Option.bind_eq_some_iff.1 hout
      refine .inr ⟨e, fun i => e.probed (W i.1) i.2, out, ⟨he, hout⟩, fun i => ?_, ?_⟩
      · exact ⟨by rw [he]; rfl, Expression.customOutput?_probed.trans hout⟩
      · exact compileFunctions_idles hW hc (hg.nodes he) (hg.apart he (by simp [hout])) _
  virtualTextures _ _ := ExpressionGraph.virtualTextureProblems_probed ..

/-- **All phases** do the same when the graph is probed, and leave nothing in progress. -/
theorem compileAll_observed (hW : Watch.Sound t W) (hg : g.Tracked t) (hc : Compiler.Tracked t c d)
    {l : Ledger} {p : Pass} (hp : p.Idle t env none l) (hsink : p.sink = none)
    (hunused : Unused l .vertex p) :
    Observed l p (compileAll env g c)
      (fun last b => compileAll env (g.map (Expression.probed (W last) b)) (d last b))
      fun _ l' q => q.Idle t env none l' ∧ q.sink = none := by
  refine (hp.step hsink (enter_plain _).oblivious fun _ _ =>
    .modify_bind rfl (Context.note_meets _ (by decide) _)).bind
      fun _ l₁ q₁ _ ⟨⟨hq₁, hsink₁⟩, hl, hlater⟩ => ?_
  refine (compileInterpolators_observed g hc hq₁ hsink₁ (hl ▸ hunused.later hlater)).bind
    fun _ l₂ q₂ _ hq₂ => ?_
  exact idles_phases.compileRest (asks_idles hW hg hc) l₂ q₂ hq₂.1 hq₂.2

/-- All phases begin with nothing in progress. -/
theorem idle_opened (t : Terms) (env : Environment) : opened.Idle t env none .empty := by
  have hscope : ∀ k, opened.scope k = [] := by
    intro k
    simp only [scope, opened, List.getD_eq_getElem?_getD, List.getElem?_replicate]
    split <;> rfl
  have hframe : ∀ {f : Nat} {frame : Frame}, opened.frames[f]? = some frame → frame = {} :=
    fun h => List.eq_of_mem_replicate (List.mem_of_getElem? h)
  have hrest : AtRest ⟨[], 0⟩ opened := atRest_opened
  refine ⟨⟨rfl, fun h => (by cases h), fun k c hc => ?_, fun _ u hu => (by cases hu),
    fun u hu => (by cases hu), fun _ u hu => (by cases hu), fun e he => (by cases he),
    fun _ => Stacked.init.of_eq rfl List.prefix_rfl, fun i hi => (by cases hi),
    fun _ _ => Nat.zero_le _, fun property i hi => (by cases hi)⟩, fun stage => ?_,
    ⟨fun h => (by cases h), fun h => (by cases h), fun h => ?_, fun h x hx => ?_,
      fun h x hx => ?_⟩, hrest.idle, fun stage => ?_, fun {s s'} h => ?_, fun _ property hlog => ?_⟩
  · rw [hscope] at hc
    cases hc
  · cases stage <;> decide
  · rw [hframe h]
    exact List.nodup_nil
  · rw [hframe h] at hx
    cases hx
  · rw [hframe h] at hx
    cases hx
  · cases stage <;> exact ⟨_, rfl, by decide, fun _ => .inl rfl⟩
  · cases s <;> cases s' <;> first | rfl | exact absurd h (by decide)
  · obtain ⟨e, he, hmessage, -⟩ := hlog
    obtain rfl := List.mem_singleton.1 he
    exact absurd hmessage (by decide)

theorem unused_opened (stage : Stage) : Unused .empty stage opened := fun _ _ => rfl

end Phases

end Pass

namespace Pass

/-! ### The end -/

section End

variable {t : Terms} {env : Environment} {l : Ledger} {p q : Pass}

/-- Results that need no slot have bodies. -/
theorem exists_propertyBodies (h : ∀ property i, p.results.get property = some i → ∃ d,
    (p.scope (p.stageScopes.get property.stage))[i]? = some d ∧ d.deferred? = none) :
    ∃ bodies, p.propertyBodies = .ok bodies := by
  have hscope : ∀ property start stop, ∃ body,
      (p.scope (p.stageScopes.get property.stage)).body start stop (p.results.get property) =
        .ok body := by
    intro property start stop
    cases hresult : p.results.get property with
    | none => exact ⟨_, rfl⟩
    | some i =>
      obtain ⟨d, hd, hread⟩ := h property i hresult
      exact Scope.exists_body hd hread start stop
  have hbody : ∀ property, ∃ body, p.propertyBody property = .ok body := by
    intro property
    unfold propertyBody
    split
    · obtain ⟨body, hbody⟩ := hscope .normal 0 p.normalEnd
      have hpixel : (p.scope (p.stageScopes.get .pixel)).body 0 p.normalEnd
          (p.results.get .normal) = .ok body := hbody
      simp only [normalBody, hpixel]
      exact ⟨_, rfl⟩
    · exact hscope property _ _
  unfold propertyBodies
  generalize Property.all = properties
  generalize (PropertyTable.const {} : PropertyTable Body) = table
  induction properties generalizing table with
  | nil => exact ⟨table, rfl⟩
  | cons property rest ih =>
    obtain ⟨body, hbody⟩ := hbody property
    obtain ⟨bodies, hbodies⟩ := ih (table.set property body)
    refine ⟨bodies, ?_⟩
    rw [List.foldlM_cons, hbody]
    exact hbodies

/-- A state in which the code was fixed and the programs of its slots were made. -/
structure Fixes (q r : Pass) : Prop extends Later q r where
  code : r.scopes = q.scopes
  diagnostics : r.diagnostics = q.diagnostics
  success : r.success = q.success
  uniforms : r.uniforms = q.uniforms
  stackEntries : r.stackEntries = q.stackEntries
  stackBuckets : r.stackBuckets = q.stackBuckets
  coordinates : r.pixelCoordinates = q.pixelCoordinates
  programs : q.slots.withPrograms = .ok r.slots

/-- A result can be looked at also when the code is fixed. -/
theorem isUsed_eq (hp : p.Sane t env) (property : Property) (neutral : Value) (count : Nat)
    (finished : Bool) :
    ∃ used, isUsed env property neutral count { p with finished } =
      .ok used { p with finished } := by
  cases hresult : p.results.get property with
  | none =>
    refine ⟨false, (get_bind_eq _ _).trans ?_⟩
    exact congrFun (if_pos (congrArg Option.isNone hresult)) _
  | some i =>
    obtain ⟨d, hd, -⟩ := hp.results property i hresult
    let ctx : Context := { env, stage := property.stage, scope := p.stageScopes.get property.stage }
    have hsees : ctx.Sees (p.results.get property) d { p with finished } := ⟨i, hresult, hd⟩
    have hconstant := Context.constantOf_eq hsees
    have hpresent : ¬(p.results.get property).isNone := by simp [hresult]
    have heq : isUsed env property neutral count { p with finished } =
        (ctx.constantOf (p.results.get property) >>= fun v? =>
          pure (v?.elim true fun v => !v.equalUpTo count neutral)) { p with finished } := by
      refine (get_bind_eq _ _).trans ((congrFun (if_neg hpresent) _).trans ?_)
      refine congrFun (bind_congr fun v? => ?_) _
      cases v? <;> rfl
    exact ⟨_, heq.trans (bind_of_ok hconstant)⟩

theorem recordUsage_eq (hp : p.Sane t env) (finished : Bool) :
    ∃ usage, recordUsage env { p with finished } = .ok () { p with finished, usage } := by
  obtain ⟨a, ha⟩ := isUsed_eq hp .emissiveColor .zero 3 finished
  obtain ⟨b, hb⟩ := isUsed_eq hp .pixelDepthOffset .zero 1 finished
  obtain ⟨c, hc⟩ := isUsed_eq hp .worldPositionOffset .zero 3 finished
  obtain ⟨d, hd⟩ := isUsed_eq hp .roughness (.replicate .one) 1 finished
  refine ⟨{ p.usage with
    emissiveColor := a, pixelDepthOffset := b, worldPositionOffset := c,
    fullyRough := (p.results.get .roughness).isSome && !d }, ?_⟩
  exact (bind_of_ok ha).trans ((bind_of_ok hb).trans ((bind_of_ok hc).trans (bind_of_ok hd)))

/-- The second state is the first with its code fixed. -/
def Fixed (p q : Pass) : Prop := q = { p with finished := true }

theorem reportGlobally_fixed (problem : Problem) :
    Keeps (fun _ => Fixed) Fixed (reportGlobally problem) (reportGlobally problem) := by
  refine Couples.bind (S := Fixed) (.modify fun p q hpq => ?_) fun _ => .get_bind fun p q hpq => ?_
  · obtain rfl := hpq
    rfl
  · obtain rfl := hpq
    dsimp only
    split
    · exact ⟨rfl, rfl⟩
    · exact ⟨rfl, rfl⟩

/-- Checks do not depend on whether the code is fixed. -/
theorem validate_fixed (env : Environment) :
    Keeps (fun _ => Fixed) Fixed (validate env) (validate env) := by
  refine .get_bind fun p q hpq => ?_
  obtain rfl := hpq
  refine Couples.bind (S := Fixed) (.forM fun problem _ => reportGlobally_fixed problem)
    (fun _ => .get_bind fun p q hpq => ?_) p _ rfl
  obtain rfl := hpq
  have hsame : interpolatorProblem? { p with finished := true } env.options.featureLevel =
      p.interpolatorProblem? env.options.featureLevel := rfl
  rw [hsame]
  cases p.interpolatorProblem? env.options.featureLevel with
  | none => exact ⟨rfl, rfl⟩
  | some problem => exact reportGlobally_fixed problem p _ rfl

theorem validate_meets (ctx : Context) (p : Pass) :
    ctx.Meets t p (validate env) fun _ _ => True := by
  have hreport : ∀ problem q, ctx.Meets t q (reportGlobally problem) fun _ _ => True :=
    fun problem q => (Context.addDiagnostic_meets _).mono fun _ _ _ _ => trivial
  refine .get_bind ((Context.Meets.forM hreport).bind fun _ q _ _ => .get_bind ?_)
  cases q.interpolatorProblem? env.options.featureLevel with
  | none => exact .pure trivial
  | some problem => exact hreport problem q

/-- What is put together in the end is there, unless there are no programs. -/
theorem assemble_ends (hq : q.Idle t env none l) :
    (∃ x r, assemble env { q with finished := true } = .ok x r ∧ Fixes q r) ∨
      ∃ e r, assemble env { q with finished := true } = .error e r ∧
        (e = .parameterIndex ∨ e = .textureProgram ∧ r.slots = q.slots ∧
          ∃ u ∈ q.slots.scalars ++ q.slots.vectors, u.expr.isTextureFree = false) := by
  cases hslots : q.slots.withPrograms with
  | error e =>
    have hfault : orFault q.slots.withPrograms { q with finished := true } =
        .error e { q with finished := true } := by rw [hslots]; rfl
    exact .inr ⟨e, _, Observed.bind_of_error (m := orFault q.slots.withPrograms) hfault _,
      (UniformSet.withPrograms_errs _ e hslots).imp_right fun ⟨he, hu⟩ => ⟨he, rfl, hu⟩⟩
  | ok slots =>
    obtain ⟨bodies, hbodies⟩ :=
      exists_propertyBodies (p := { q with finished := true, slots }) hq.sane.results
    have hvirtuals : q.slots.texturesVirtual <+: slots.texturesVirtual := by
      obtain ⟨ps, qs, table, final, -, -, rfl⟩ := UniformSet.withPrograms_ok hslots
      exact List.prefix_rfl
    have htail : ∀ (phase : Phase) (attributes : List (String × String)) (x : Texts), ∃ r,
        (enter phase >>= fun _ => note .info "translated material" attributes >>= fun _ => pure x)
          { q with finished := true, slots } = .ok x r ∧ Fixes q r := by
      refine fun phase attributes x => ⟨_, rfl, ⟨⟨⟨fun _ => List.prefix_rfl, Nat.le_refl _, id, rfl,
        rfl, fun e he hmessage => ?_, id, hvirtuals⟩, rfl, rfl⟩, rfl, rfl, rfl, rfl, rfl, rfl, rfl,
        hslots⟩⟩
      rcases List.mem_append.1 he with he | he
      · rcases List.mem_append.1 he with he | he
        · exact he
        · obtain rfl := List.mem_singleton.1 he
          exact absurd (show "translator phase" = propertyMessage from hmessage) (by decide)
      · obtain rfl := List.mem_singleton.1 he
        exact absurd (show "translated material" = propertyMessage from hmessage) (by decide)
    have hmade : orFault q.slots.withPrograms { q with finished := true } =
        .ok slots { q with finished := true } := by rw [hslots]; rfl
    have hfixed : orFault (propertyBodies { q with finished := true, slots })
        { q with finished := true, slots } = .ok bodies { q with finished := true, slots } := by
      rw [hbodies]; rfl
    obtain ⟨r, hr, hfixes⟩ := htail _ _ _
    refine .inl ⟨_, r, (bind_of_ok (m := orFault q.slots.withPrograms) hmade).trans
      ((bind_of_ok (m := orFault (propertyBodies { q with finished := true, slots }))
        hfixed).trans hr), hfixes⟩

/-- **The end of a compilation** breaks off only over programs. -/
theorem close_ends (hp : p.Idle t env none l) (hsink : p.sink = none) :
    (∃ x r, close env p = .ok x r ∧ ∃ q : Pass, q.Idle t env none l ∧ Fixes q r) ∨
      ∃ e r, close env p = .error e r ∧ (e.isExcluded = false ∨ e = .textureProgram ∧
        ∃ q : Pass, q.Idle t env none l ∧ r.slots = q.slots ∧
          ∃ u ∈ q.slots.scalars ++ q.slots.vectors, u.expr.isTextureFree = false) := by
  obtain ⟨p₁, henter, hp₁, hsink₁⟩ : ∃ p₁, enter .finalize p = .ok () p₁ ∧
      p₁.Idle t env none l ∧ p₁.sink = none := by
    obtain ⟨l', -, -, hok, -⟩ := hp.step hsink (enter_plain .finalize).oblivious fun _ _ =>
      .modify_bind rfl (Context.note_meets _ (by decide) _)
    obtain ⟨⟨hp₁, hsink₁⟩, rfl, -⟩ := hok _ _ rfl
    exact ⟨_, rfl, hp₁, hsink₁⟩
  obtain ⟨usage, husage⟩ := recordUsage_eq hp₁.sane true
  have hp₂ : Idle t env none l { p₁ with usage } :=
    hp₁.later (hp₁.sane.of_account_eq rfl) (.of_ground_eq rfl)
  have hclose : close env p =
      (validate env >>= fun _ => assemble env) { p₁ with finished := true, usage } :=
    (bind_of_ok henter).trans
      (bind_of_ok (f := fun _ => validate env >>= fun _ => assemble env) husage)
  rw [hclose]
  -- The checks come to the same before the code is fixed.
  have hfixed := validate_fixed env { p₁ with usage } _ rfl
  obtain ⟨l', -, -, hok, herror⟩ :=
    hp₂.step hsink₁ (validate_steps (L := .full) rfl).oblivious validate_meets
  cases hplain : validate env { p₁ with usage } <;>
    cases hvalidate : validate env { p₁ with finished := true, usage } <;>
    rw [hplain, hvalidate] at hfixed
  case ok.ok _ p₃ _ q₃ =>
    obtain ⟨-, rfl⟩ := hfixed
    obtain ⟨⟨hp₃, -⟩, rfl, -⟩ := hok _ _ hplain
    rw [bind_of_ok hvalidate]
    rcases assemble_ends hp₃ with ⟨x, r, hr, hfixes⟩ | ⟨e, r, hr, he⟩
    · exact .inl ⟨x, r, hr, p₃, hp₃, hfixes⟩
    · refine .inr ⟨e, r, hr, he.imp (fun h => ?_) fun ⟨h, hu⟩ => ⟨h, p₃, hp₃, hu⟩⟩
      rw [h]
      rfl
  case error.error e _ f q₃ =>
    obtain ⟨rfl, -⟩ := hfixed
    exact .inr ⟨e, q₃, Observed.bind_of_error hvalidate _, .inl (herror _ _ hplain)⟩
  all_goals exact hfixed.elim

end End

/-! ### Runs -/

/-- Entries in front of the log stay there through all phases. -/
theorem under_hosts (marks : List LogEntry) :
    Hosts (fun _ => Under marks) (Under marks) (fun _ => Under marks)
      (fun _ => Under marks) where
  toAbsorbs := under_absorbs marks
  fresh _ := under_absorbs marks
  apart _ := under_absorbs marks
  settle _ h := h
  leave _ h := h
  reset stage p q h := by
    obtain rfl := h
    exact ⟨rfl, rfl⟩
  hold h := by
    obtain rfl := h
    rfl
  keep id h := by
    obtain rfl := h
    rfl
  release h := by
    obtain rfl := h
    rfl
  success h := by
    obtain rfl := h
    rfl
  summary level message attributes h h' _ := by
    obtain rfl := h
    exact note_oblivious level message _ marks _ _ h'

/-- How the compilation of a material ends: its code is fixed with nothing in progress, or it breaks
off over something else than scopes and frames. -/
structure Concludes (t : Terms) (env : Environment) (l : Ledger)
    (x : EStateM.Result Fault Pass Outcome) : Prop where
  ok : ∀ {o : Outcome} {p : Pass}, x = .ok o p → ∃ q : Pass, q.Idle t env none l ∧ Fixes q p ∧
    ∃ texts : Texts, o = texts.outcome p env.material
  error : ∀ {e : Fault} {p : Pass}, x = .error e p → e.isExcluded = false ∨
    e = .textureProgram ∧ ∃ q : Pass, q.Idle t env none l ∧ p.slots = q.slots ∧
      ∃ u ∈ q.slots.scalars ++ q.slots.vectors, u.expr.isTextureFree = false

section Runs

variable {t : Terms} {W : Ledger → Watch} {g : ExpressionGraph} {env : Environment} {p q : Pass}
variable {l : Ledger}

theorem finish_under (marks : List LogEntry) (p : Pass) :
    final (finish env (p.under marks)) = (final (finish env p)).under marks := by
  unfold finish
  have hclose : Agree _ _ (close env p) (close env (p.under marks)) :=
    close_couples (under_hosts marks) p _ rfl
  cases hp : close env p <;> cases hq : close env (p.under marks) <;> rw [hp, hq] at hclose
  case ok.ok =>
    obtain ⟨rfl, rfl⟩ := hclose
    rw [bind_of_ok hp, bind_of_ok hq]
    rfl
  case error.error =>
    obtain ⟨rfl, rfl⟩ := hclose
    rw [Observed.bind_of_error hp, Observed.bind_of_error hq]
    rfl
  all_goals exact hclose.elim

theorem finish_concludes (hp : p.Idle t env none l) (hsink : p.sink = none) :
    Concludes t env l (finish env p) := by
  unfold finish
  rcases close_ends hp hsink with ⟨x, r, hr, q, hq, hfixes⟩ | ⟨e, r, hr, he⟩
  · rw [bind_of_ok hr]
    refine ⟨fun {o p'} h => ?_, fun h => by cases h⟩
    cases h
    exact ⟨q, hq, hfixes, x, rfl⟩
  · rw [Observed.bind_of_error hr]
    refine ⟨nofun, fun {e' p'} h => ?_⟩
    cases h
    exact he

/-- Compiles a material over a graph that is watched. -/
noncomputable def runWatched (env : Environment) (g : ExpressionGraph) (w : Watch) (alarm : Fault) :
    PassM Outcome :=
  runBy env (g.map (Expression.watched w alarm))
    (w.ask alarm (g.map (Expression.watched w alarm)).compile)

/-- **A compilation** does the same when it is watched, and counts each compilation of a key in its
ledger when it is counted. -/
theorem run_observed (hW : Watch.Sound t W) (hg : g.Tracked t) (env : Environment) :
    ∃ l : Ledger,
      (∀ alarm, runWatched env g (W l) alarm {} = run env (some g) {}) ∧
      (∀ tally, final (run env (some (g.map (Expression.counted tally))) {}) =
        (final (run env (some g) {})).under (l.marks tally)) ∧
      Concludes t env l (run env (some g) {}) := by
  obtain ⟨l, -, hsame, hok, herror⟩ := compileAll_observed hW hg (hg.asked hW)
    (idle_opened t env) rfl (unused_opened .vertex)
  have hwatched : ∀ alarm, compileAll env (g.map (Expression.watched (W l) alarm))
      ((W l).ask alarm (g.map (Expression.watched (W l) alarm)).compile) opened =
      endUnder [] (compileAll env g g.compile opened) := fun alarm =>
    hsame l ⟨some alarm, none⟩ l.le_refl
  have hcounted : ∀ tally, compileAll env (g.map (Expression.counted tally))
      (g.map (Expression.counted tally)).compile opened =
      endUnder (l.marks tally) (compileAll env g g.compile opened) := fun tally =>
    hsame l ⟨none, some tally⟩ l.le_refl
  simp only [runWatched, run, runBy_eq]
  cases hall : compileAll env g g.compile opened with
  | error e q =>
    rw [hall] at hwatched hcounted
    rw [Observed.bind_of_error hall]
    refine ⟨l, fun alarm => Observed.bind_of_error (hwatched alarm) _, fun tally => ?_,
      nofun, fun {e' p} h => ?_⟩
    · rw [Observed.bind_of_error (hcounted tally)]
      rfl
    · cases h
      exact .inl (herror e q hall)
  | ok _ q =>
    rw [hall] at hwatched hcounted
    obtain ⟨hq, hsink⟩ := hok _ q hall
    rw [bind_of_ok hall]
    refine ⟨l, fun alarm => bind_of_ok (hwatched alarm), fun tally => ?_,
      finish_concludes hq hsink⟩
    rw [bind_of_ok (hcounted tally)]
    exact finish_under _ q

end Runs

end Pass

end ShaderGraph
