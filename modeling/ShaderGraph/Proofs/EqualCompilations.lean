import ShaderGraph.Proofs.Depth

/-!
# Two compilations in one state

Two compilers that start in the same state, and do the same with the inputs of an expression, do the
same with the expression: when its key comes into progress, when the body of a function is compiled
in the frame of its call, and when an argument is compiled in the frame of the caller.
-/

namespace ShaderGraph

/-- A diagnostic that says where an ordinary problem is. -/
def Diagnostic.IsOrdinary (d : Diagnostic) : Prop :=
  ∃ place problem node, Problem.isOrdinary problem ∧
    d = ⟨place ++ problem.message, node, problem.kind⟩

namespace Pass

variable {p q : Pass} {g : ExpressionGraph} {N : Nesting} {old : List Ties}

/-! ### Steps that return -/

/-- A step returns, with a result and a state that satisfy a condition. -/
def Ends (p : Pass) {α : Type} (m : PassM α) (Q : α → Pass → Prop) : Prop :=
  ∃ a q, m p = .ok a q ∧ Q a q

namespace Ends

variable {p : Pass} {α β : Type} {m : PassM α} {f : α → PassM β} {Q : α → Pass → Prop}
variable {Q' : β → Pass → Prop} {u : Pass → Pass}

theorem pure {a : α} (h : Q a p) : p.Ends (pure a) Q := ⟨a, p, rfl, h⟩

theorem bind (hm : p.Ends m Q) (hf : ∀ a q, Q a q → q.Ends (f a) Q') : p.Ends (m >>= f) Q' := by
  obtain ⟨a, q, hq, hQ⟩ := hm
  obtain ⟨b, r, hr, hQ'⟩ := hf a q hQ
  exact ⟨b, r, (bind_of_ok hq).trans hr, hQ'⟩

theorem get_bind {k : Pass → PassM α} (h : p.Ends (k p) Q) : p.Ends (get >>= k) Q := h

theorem set_bind {q : Pass} {k : PUnit → PassM α} (h : q.Ends (k ⟨⟩) Q) :
    p.Ends (set q >>= k) Q := h

theorem modify_bind {k : PUnit → PassM α} (h : (u p).Ends (k ⟨⟩) Q) :
    p.Ends (modify u >>= k) Q := h

theorem modify {Q : PUnit → Pass → Prop} (h : Q ⟨⟩ (u p)) :
    p.Ends (modify u) Q := ⟨_, _, rfl, h⟩

theorem mono {Q₁ : α → Pass → Prop} (h : p.Ends m Q) (hQ : ∀ a q, Q a q → Q₁ a q) :
    p.Ends m Q₁ := by
  obtain ⟨a, q, hq, hQq⟩ := h
  exact ⟨a, q, hq, hQ a q hQq⟩

end Ends

/-! ### Reports -/

/-- All diagnostics of a pass are ordinary, also those that are held back. -/
structure Clean (p : Pass) : Prop where
  diagnostics : ∀ d ∈ p.diagnostics, d.IsOrdinary
  sink : ∀ held ∈ p.sink, ∀ d ∈ held, d.IsOrdinary
  interpolatorErrors : ∀ x ∈ p.interpolatorErrors, ∀ d ∈ x.2, d.IsOrdinary

/-- What a report does: the frames stay, and nothing but the given diagnostic is added. -/
structure Reports (d : Diagnostic) (p q : Pass) : Prop where
  frames : q.frames = p.frames
  openFrames : q.openFrames = p.openFrames
  interpolatorErrors : q.interpolatorErrors = p.interpolatorErrors
  diagnostics : ∀ d' ∈ q.diagnostics, d' ∈ p.diagnostics ∨ d' = d
  sink : ∀ held ∈ q.sink, ∃ before ∈ p.sink, ∀ d' ∈ held, d' ∈ before ∨ d' = d

theorem Reports.clean {d : Diagnostic} (h : Reports d p q) (hp : p.Clean) (hd : d.IsOrdinary) :
    q.Clean where
  diagnostics d' hd' := by
    rcases h.diagnostics d' hd' with h' | rfl
    · exact hp.diagnostics d' h'
    · exact hd
  sink held hheld d' hd' := by
    obtain ⟨before, hbefore, hmem⟩ := h.sink held hheld
    rcases hmem d' hd' with h' | rfl
    · exact hp.sink before hbefore d' h'
    · exact hd
  interpolatorErrors := by
    rw [h.interpolatorErrors]
    exact hp.interpolatorErrors

theorem addDiagnostic_ends (d : Diagnostic) (p : Pass) :
    p.Ends (addDiagnostic d) fun _ q => Reports d p q := by
  refine .modify_bind (.get_bind ?_)
  split
  · exact .pure ⟨rfl, rfl, rfl, fun _ => .inl, fun held hheld => ⟨held, hheld, fun _ => .inl⟩⟩
  · refine .set_bind (.modify ⟨rfl, rfl, rfl, fun d' hd' => ?_,
      fun held hheld => ⟨held, hheld, fun _ => .inl⟩⟩)
    simpa using hd'

theorem report_ends (ctx : Context) (problem : Problem) (p : Pass) :
    p.Ends (ctx.report problem) fun c q => c = none ∧
      ∃ place node, Reports ⟨place ++ problem.message, node, problem.kind⟩ p q := by
  refine .get_bind ?_
  split
  rename_i place node _
  split
  case h_1 held hsink =>
    refine .set_bind (.pure
      ⟨rfl, place, node, rfl, rfl, rfl, fun _ => .inl, fun held' hheld' => ?_⟩)
    obtain rfl := Option.mem_some_iff.1 hheld'
    exact ⟨held, hsink, fun d' hd' => by simpa using hd'⟩
  case h_2 =>
    exact (addDiagnostic_ends _ p).bind fun _ q hq => .pure ⟨rfl, place, node, hq⟩

/-! ### Equal states -/

/-- The fault of two runs that broke off in the same state, not for their nesting; where the nodes
have ranks, what they reported is ordinary. -/
def SameFault (rank : Option (NodeId → Nat)) (e : Fault) (p q : Pass) : Prop :=
  p = q ∧ e.concernsFrames = false ∧ (rank.isSome → p.Clean)

/-- Two runs in the same state, with the given nesting; where the nodes have ranks, what they
reported is ordinary. -/
def Twin (g : ExpressionGraph) (rank : Option (NodeId → Nat)) (N : Nesting) (old : List Ties)
    (p q : Pass) : Prop := p = q ∧ Stands g N old p ∧ (rank.isSome → p.Clean)

/-- Two computations that do the same in such states, and keep to the nesting. -/
abbrev Twinned (g : ExpressionGraph) (rank : Option (NodeId → Nat)) (N : Nesting) (old : List Ties)
    {α : Type} (m n : PassM α) : Prop :=
  Keeps (SameFault rank) (Twin g rank N old) m n

section Twin

variable {g : ExpressionGraph} {rank : Option (NodeId → Nat)} {N : Nesting} {old : List Ties}
variable {d : Diagnostic}

theorem Ends.couples {E : Fault → Pass → Pass → Prop} {R S : Pass → Pass → Prop} {α : Type}
    {m : PassM α}
    (hR : ∀ p q, R p q → p = q) (h : ∀ p, R p p → p.Ends m fun _ q => S q q) :
    Couples E R S m m := by
  intro p q hr
  obtain rfl := hR p q hr
  obtain ⟨a, q, hq, hs⟩ := h p hr
  rw [hq]
  exact ⟨rfl, hs⟩

theorem Twin.of_reports {p q : Pass} (h : Twin g rank N old p p) (hq : Reports d p q)
    (hd : rank.isSome → d.IsOrdinary) : Twin g rank N old q q :=
  ⟨rfl, h.2.1.of_frames_eq hq.frames hq.openFrames, fun hr => hq.clean (h.2.2 hr) (hd hr)⟩

theorem Twin.report (ctx : Context) {problem : Problem} (h : rank.isSome → problem.isOrdinary) :
    Twinned g rank N old (ctx.report problem) (ctx.report problem) := by
  refine Ends.couples (fun p q hpq => hpq.1) fun p hp => ?_
  refine (report_ends ctx problem p).mono fun c q ⟨_, place, node, hq⟩ => ?_
  exact hp.of_reports hq fun hr => ⟨place, problem, node, h hr, rfl⟩

theorem Twin.addDiagnostic (h : rank.isSome → d.IsOrdinary) :
    Twinned g rank N old (addDiagnostic d) (addDiagnostic d) := by
  refine Ends.couples (fun p q hpq => hpq.1) fun p hp => ?_
  exact (addDiagnostic_ends d p).mono fun _ q hq => hp.of_reports hq h

theorem Twin.absorbs : Absorbs (SameFault rank) (Twin g rank N old) where
  fault h he := ⟨h.1, he, h.2.2⟩
  core h := by rw [h.1]
  update {p q u} h hapart _ _ := by
    obtain ⟨rfl, hstands, hclean⟩ := h
    have hp := hapart p
    simp only [apart, Apart.mk.injEq] at hp
    obtain ⟨hframes, hopen, -, hsink, hdiagnostics, herrors, -⟩ := hp
    refine ⟨rfl, hstands.of_frames_eq hframes hopen, fun hr => ⟨?_, ?_, ?_⟩⟩
    · rw [hdiagnostics]; exact (hclean hr).diagnostics
    · rw [hsink]; exact (hclean hr).sink
    · rw [herrors]; exact (hclean hr).interpolatorErrors
  note level message attributes := .modify fun p q ⟨hpq, hstands, hclean⟩ => by
    subst hpq
    refine ⟨rfl, hstands.of_frames_eq rfl rfl, fun hr => ?_⟩
    exact ⟨(hclean hr).diagnostics, (hclean hr).sink, (hclean hr).interpolatorErrors⟩
  report ctx problem h := Twin.report ctx fun _ => h
  reportGlobally {problem} h := Twin.addDiagnostic fun _ => ⟨"", problem, 0, h, by simp⟩

theorem Twin.readInterpolator (ctx : Context) :
    Twinned g rank N old ctx.readInterpolator
      ctx.readInterpolator := by
  refine Twin.absorbs.readInterpolator fun p q hpq => ?_
  obtain rfl := hpq.1
  refine .forM fun d hd => Twin.addDiagnostic fun hr => ?_
  -- What was held back for the interpolator is ordinary, as all that is held back.
  unfold heldFor at hd
  cases hlookup : p.interpolatorErrors.lookup ctx.node with
  | none => simp [hlookup] at hd
  | some held =>
    simp only [hlookup, Option.getD_some] at hd
    obtain ⟨l₁, l₂, heq, -⟩ := List.lookup_eq_some_iff.1 hlookup
    exact (hpq.2.2 hr).interpolatorErrors (ctx.node, held) (by simp [heq]) d hd

end Twin

/-! ### Frames -/

theorem Stands.weaken {old' : List Ties} (h : Stands g N old' p) (hgrows : Grows old old') :
    Stands g N old p :=
  ⟨h.nesting, hgrows.trans h.grows, h.links⟩

theorem Stands.exists_frame {b : Nat} {t : Ties} (h : Stands g N old p) (ht : old[b]? = some t) :
    ∃ frame, p.frames[b]? = some frame ∧ frame.call = t.call := by
  obtain ⟨t', ht', hcall, -⟩ := h.grows.keeps ht
  rw [getElem?_ties] at ht'
  obtain ⟨frame, hframe, rfl⟩ := Option.map_eq_some_iff.1 ht'
  exact ⟨frame, hframe, hcall⟩

theorem Clean.congr (h : p.Clean) (hdiagnostics : q.diagnostics = p.diagnostics)
    (hsink : q.sink = p.sink) (herrors : q.interpolatorErrors = p.interpolatorErrors) : q.Clean :=
  ⟨hdiagnostics ▸ h.diagnostics, hsink ▸ h.sink, herrors ▸ h.interpolatorErrors⟩

/-- The frame that a call was given in an earlier frame. -/
def GivesFrame (ties : List Ties) (home : Nat) (κ : Key) (shared : Option Nat) : Prop :=
  ∃ b t, shared = some b ∧ ties[home]? = some t ∧ (κ.ofCall, b) ∈ t.shared

/-- A call is given a frame, and nothing else changes. -/
theorem shared_ends {home : Nat} {e : Expression} (h : Stands g N old p)
    (hhome : home < p.frames.length) (κ : Key) (he : g.node? κ.node = some e) :
    p.Ends (e.call?.mapM (Context.sharedFrame home κ)) fun shared q =>
      Stands g N old q ∧ (q = p ∨ ∃ call, q = p.withChild home κ call) ∧
        (e.call? = none → shared = none) ∧
        (e.call?.isSome → GivesFrame q.ties home κ shared) := by
  obtain ⟨frame, hframe⟩ : ∃ frame, p.frames[home]? = some frame :=
    ⟨_, List.getElem?_eq_getElem hhome⟩
  have hties : p.ties[home]? = some frame.ties := by
    rw [getElem?_ties, hframe]
    rfl
  rcases Context.shared_cases e κ hframe with
    ⟨hcall, hrun⟩ | ⟨call, hcall, ⟨b, hb, hrun⟩ | ⟨hnew, hrun⟩⟩
  · exact ⟨none, p, hrun, h, .inl rfl, fun _ => rfl, fun hsome => by simp [hcall] at hsome⟩
  · exact ⟨some b, p, hrun, h, .inl rfl, fun hnone => by simp [hcall] at hnone, fun _ =>
      ⟨b, frame.ties, rfl, hties, hb⟩⟩
  · have hnew' : ∀ {t : Ties} {b : Nat}, p.ties[home]? = some t → (κ.ofCall, b) ∉ t.shared := by
      intro t b ht
      cases hties.symm.trans ht
      exact hnew b
    have hties' : (p.withChild home κ call).ties[home]? =
        some { frame.ties with shared := (κ.ofCall, p.ties.length) :: frame.ties.shared } := by
      rw [ties_withChild, getElem?_addChild hties, if_pos rfl]
    exact ⟨some p.frames.length, p.withChild home κ call, hrun, h.withChild hhome he hcall hnew',
      .inr ⟨call, rfl⟩, fun hnone => by simp [hcall] at hnone, fun _ =>
      ⟨p.frames.length, _, rfl, hties', by simp [length_ties]⟩⟩

section Frames

variable {g : ExpressionGraph} {rank : Option (NodeId → Nat)} {keys : Finset Key} {N : Nesting}
variable {old : List Ties} {home : Nat} {stack : List Nat} {links : List Key} {ctx : Context}
variable {p : Pass} {e : Expression} {input : Input} {body : Compiler → Context → Int → PassM Code}
variable {c d : Compiler}

theorem Poised.lt_length {stage : Stage} (h : Poised g rank keys stage N old (home :: stack) links)
    (hp : Grows old p.ties) : home < p.frames.length := by
  rw [← length_ties]
  exact Nat.lt_of_lt_of_le (h.linked.lt_length h.ties home (by simp)) hp.length_le

/-- Keeping the result of an expression takes its key out of progress. -/
theorem settle_couples (hhome : home < old.length) (hopened : N.opened ctx.stage = home :: stack)
    (result : Code) :
    Couples (SameFault rank) (Twin g rank (N.enter home (ctx.keyOf e input)) old)
      (Twin g rank N old)
      (ctx.settle e input home result) (ctx.settle e input home result) := by
  intro p q hpq
  obtain ⟨rfl, hstands, -⟩ := id hpq
  have hlt : ∀ {q : Pass}, Grows old q.ties → home < q.frames.length := by
    intro q hq
    rw [← length_ties]
    exact Nat.lt_of_lt_of_le hhome hq.length_le
  have hopen : p.openFrames.get ctx.stage = home :: stack := by
    rw [← hopened]
    exact congrFun (congrArg Nesting.opened hstands.nesting) ctx.stage
  have hinner := Context.innermost_eq hopen (List.getElem?_eq_getElem (hlt hstands.grows))
  unfold Context.settle
  rw [bind_of_ok hinner]
  refine Couples.bind (S := Twin g rank (N.enter home (ctx.keyOf e input)) old)
    (.modify fun p q hpq => ?_) (fun _ => ?_) p p hpq
  · obtain ⟨rfl, hstands, hclean⟩ := hpq
    exact ⟨rfl, hstands.withFrame (fun _ => rfl) (fun _ => rfl), fun hr =>
      (hclean hr).congr rfl rfl rfl⟩
  refine ((Context.maskOutput_plain _ _ _).couples Twin.absorbs).bind fun masked => ?_
  refine Couples.bind (.modify fun p q hpq => ?_) fun _ => .pure masked
  obtain ⟨rfl, hstands, hclean⟩ := hpq
  exact ⟨rfl, hstands.leave (hlt hstands.grows), fun hr => (hclean hr).congr rfl rfl rfl⟩

/-- An expression is compiled alike if it is once its key is in progress. -/
theorem compileFresh_couples (hpoised : Poised g rank keys ctx.stage N old (home :: stack) links)
    (he : g.node? input.node = some e)
    (hbody : ∀ old₁ shared, Grows old old₁ → Links g old₁ →
      (e.call?.isSome → GivesFrame old₁ home (ctx.keyOf e input) shared) →
      Twinned g rank (N.enter home (ctx.keyOf e input)) old₁
        (e.compile c { ctx with node := input.node, shared } input.output)
        (body d { ctx with node := input.node, shared } input.output)) :
    Twinned g rank N old (ctx.compileFresh c e input home)
      (ctx.compileFresh d { e with compile := body } input home) := by
  intro p q ⟨hpq, hstands, hclean⟩
  subst hpq
  have hhome := hpoised.lt_length hstands.grows
  have henter := hstands.enter hhome (ctx.keyOf e input) e.kind
  obtain ⟨shared, p₂, hshared, hstands₂, hgain, -, hsome⟩ :=
    shared_ends henter (hpoised.lt_length henter.grows) (ctx.keyOf e input) he
  have hclean₂ : rank.isSome → p₂.Clean := fun hr => by
    rcases hgain with rfl | ⟨call, rfl⟩ <;> exact (hclean hr).congr rfl rfl rfl
  have hrun : ∀ (c : Compiler) (body : Compiler → Context → Int → PassM Code),
      ctx.compileFresh c { e with compile := body } input home p =
        (body c { ctx with node := input.node, shared } input.output >>=
          ctx.settle e input home) p₂ := fun c body => bind_of_ok hshared
  have hboth := (hbody p₂.ties shared hstands₂.grows hstands₂.links hsome).bind fun result =>
    settle_couples (Nat.lt_of_lt_of_le (hpoised.linked.lt_length hpoised.ties home (by simp))
      hstands₂.grows.length_le) hpoised.opened result
  have hend := hboth.mono (fun _ _ h => h) fun p q hpq =>
    (⟨hpq.1, hpq.2.1.weaken hstands₂.grows, hpq.2.2⟩ : Twin g rank N old p q)
  rw [hrun d body, show e = { e with compile := e.compile } from rfl, hrun c e.compile]
  exact hend p₂ p₂ ⟨rfl, ⟨hstands₂.nesting, .refl _, hstands₂.links⟩, hclean₂⟩

theorem Twin.openFrames_eq (h : Twin g rank N old p p) (stage : Stage) :
    p.openFrames.get stage = N.opened stage :=
  congrFun (congrArg Nesting.opened h.2.1.nesting) stage

/-- An expression is compiled alike if it is where it has no result yet and is not in progress. -/
theorem compileExpression_couples
    (hpoised : Poised g rank keys ctx.stage N old (home :: stack) links)
    (hrank : rank.isSome → ∀ f ∈ home :: stack, ctx.keyOf e input ∉ N.active f)
    (hfresh : (∀ f ∈ home :: stack, ctx.keyOf e input ∉ N.active f) →
      Twinned g rank N old (ctx.compileFresh c e input home)
        (ctx.compileFresh d { e with compile := body } input home)) :
    Twinned g rank N old (ctx.compileExpression c e input)
      (ctx.compileExpression d { e with compile := body } input) := by
  intro p q hpq
  obtain rfl := hpq.1
  have hopen := (hpq.openFrames_eq ctx.stage).trans hpoised.opened
  obtain ⟨frame, hframe⟩ : ∃ frame, p.frames[home]? = some frame :=
    ⟨_, List.getElem?_eq_getElem (hpoised.lt_length hpq.2.1.grows)⟩
  have hprogress : ctx.inProgress p (ctx.keyOf e input) ↔
      ∃ f ∈ home :: stack, ctx.keyOf e input ∈ N.active f := by
    rw [Context.inProgress_iff, hpq.2.1.nesting, hpoised.opened]
  cases hmemo : frame.memo.lookup (ctx.keyOf e input) with
  | some result =>
    rw [Context.compileExpression_of_some hopen hframe hmemo,
      Context.compileExpression_of_some (e := { e with compile := body }) hopen hframe hmemo]
    exact (Context.maskOutput_plain e input.output result).couples Twin.absorbs p p hpq
  | none =>
    by_cases h : ctx.inProgress p (ctx.keyOf e input)
    · rw [Context.compileExpression_of_progress hopen hframe hmemo h,
        Context.compileExpression_of_progress (e := { e with compile := body }) hopen hframe hmemo
          h]
      refine Twin.report ctx (fun hr => ?_) p p hpq
      obtain ⟨f, hf, hκ⟩ := hprogress.1 h
      exact absurd hκ (hrank hr f hf)
    · rw [Context.compileExpression_of_fresh hopen hframe hmemo h,
        Context.compileExpression_of_fresh (e := { e with compile := body }) hopen hframe hmemo h]
      exact hfresh (fun f hf hκ => h (hprogress.2 ⟨f, hf, hκ⟩)) p p hpq

theorem Twin.withStack (h : Twin g rank N old p p) (stage : Stage) (stack : List Nat) :
    Twin g rank (N.reopen stage stack) old (p.withStack stage stack) (p.withStack stage stack) :=
  ⟨rfl, h.2.1.withStack stage stack, fun hr => (h.2.2 hr).congr rfl rfl rfl⟩

/-- A function is compiled alike if its body is, in the frame of the call. -/
theorem callFunction_couples {b : Nat} {t : Ties} {call : Call} {body : Input}
    (hshared : ctx.shared = some b) (ht : old[b]? = some t) (hcall : t.call = some call)
    (hbody : Twinned g rank (N.reopen ctx.stage (b :: N.opened ctx.stage)) old
      (c { ctx with shared := none } body) (d { ctx with shared := none } body)) :
    Twinned g rank N old (ctx.callFunction c call body) (ctx.callFunction d call body) := by
  intro p q hpq
  obtain rfl := hpq.1
  obtain ⟨frame, hframe, hframecall⟩ := hpq.2.1.exists_frame ht
  have hinner : Twinned g rank (N.reopen ctx.stage (b :: N.opened ctx.stage)) old
      (ctx.compileBody c body) (ctx.compileBody d body) := by
    unfold Context.compileBody
    split
    · exact hbody
    · exact Twin.report _ fun _ => rfl
  rw [Context.callFunction_eq hshared hframe (hframecall.trans hcall),
    Context.callFunction_eq hshared hframe (hframecall.trans hcall), hpq.openFrames_eq]
  refine hinner.bind (fun result => ?_) _ _ (hpq.withStack _ _)
  refine Couples.bind (Ends.couples (fun p q hpq => hpq.1) fun p hp => ?_) fun _ => .pure result
  have hopen := (hp.openFrames_eq ctx.stage).trans (Nesting.reopen_opened_self ..)
  refine ⟨_, _, Context.closeFrame_eq hopen, ?_⟩
  have hclosed := hp.withStack ctx.stage (N.opened ctx.stage)
  rwa [Nesting.reopen_reopen, Nesting.reopen_self] at hclosed

/-- What the caller compiles is compiled alike if it is with the innermost frame left. -/
theorem inCaller_couples {top : Nat} {m n : PassM Code}
    (hopened : N.opened ctx.stage = top :: stack)
    (hm : Twinned g rank (N.reopen ctx.stage stack) old m n) :
    Twinned g rank N old (ctx.inCaller m) (ctx.inCaller n) := by
  intro p q hpq
  obtain rfl := hpq.1
  have hopen := (hpq.openFrames_eq ctx.stage).trans hopened
  rw [Context.inCaller_eq hopen, Context.inCaller_eq hopen]
  refine hm.bind (fun result => ?_) _ _ (hpq.withStack _ _)
  refine Ends.couples (fun p q hpq => hpq.1) fun p hp => ?_
  have hstack : ctx.stack p = .ok stack p :=
    Context.stack_eq ((hp.openFrames_eq ctx.stage).trans (Nesting.reopen_opened_self ..))
  refine ⟨result, p.withStack ctx.stage (top :: stack), bind_of_ok hstack, ?_⟩
  have hself : N.reopen ctx.stage (top :: stack) = N := hopened ▸ N.reopen_self ctx.stage
  have hreopened := hp.withStack ctx.stage (top :: stack)
  rwa [Nesting.reopen_reopen, hself] at hreopened

/-- A function input is compiled alike if the argument is in the frame of the caller, and the
preview in the frame of the call. -/
theorem functionArgument_couples {index : Int} {preview : Input} {type : ValueType}
    (hpoised : Poised g rank keys ctx.stage N old stack links)
    (hpreview : Twinned g rank N old (c ctx preview) (d ctx preview))
    (hargument : ∀ {top below : Nat} {rest : List Nat} {κ : Key} {links' : List Key}
      {e : Expression} {call : Call},
      stack = top :: below :: rest → links = κ :: links' → g.node? κ.node = some e →
      e.call? = some call → (call.argument index).isConnected →
      Twinned g rank (N.reopen ctx.stage (below :: rest)) old
        (c ctx (call.argument index)) (d ctx (call.argument index))) :
    Twinned g rank N old
      (ctx.functionArgument c index preview type) (ctx.functionArgument d index preview type) := by
  intro p q hpq
  obtain rfl := hpq.1
  have hopen := (hpq.openFrames_eq ctx.stage).trans hpoised.opened
  unfold Context.functionArgument
  cases hlinked : hpoised.linked with
  | root ht hcall =>
    obtain ⟨frame, hframe, -⟩ := hpq.2.1.exists_frame ht
    have hnone := Context.callArgument_of_outermost hopen hframe index
    rw [bind_of_ok hnone, bind_of_ok hnone]
    exact Twin.absorbs.argument (a := .none) nofun hpreview p p hpq
  | @call below top rest links' t κ h ht hshared =>
    obtain ⟨-, e, call, he, hcall, hframe⟩ := hpoised.ties.child ht hshared
    obtain ⟨t', ht', heq⟩ := Option.map_eq_some_iff.1 hframe
    obtain ⟨frame, hframe', hframecall⟩ := hpq.2.1.exists_frame ht'
    have hsome := Context.callArgument_of_nested hopen hframe'
      (hframecall.trans (congrArg Prod.fst heq)) index
    rw [bind_of_ok hsome, bind_of_ok hsome]
    refine Twin.absorbs.argument (fun hconnected => ?_) hpreview p p hpq
    exact inCaller_couples hpoised.opened (hargument rfl rfl he hcall hconnected)

end Frames

end Pass

end ShaderGraph
