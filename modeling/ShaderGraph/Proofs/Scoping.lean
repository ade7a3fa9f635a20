import ShaderGraph.Proofs.TrackedRuns

/-!
# Frames and scopes of a compilation

Two things hold of every graph, cyclic ones and functions that call themselves included.

* A key is compiled at most once in a frame. What comes of it is kept in the frame in which the key
  came into progress, and never replaced (`Graph.compiled_once`).
* Handles do not leave their scopes, and frames stay balanced. So a compilation never breaks off
  over a handle that points nowhere or a frame that is not the innermost one
  (`Graph.handles_scoped`).

Both are said with a ledger of the whole compilation, which gives each frame its scope and each key
that is compiled in a frame what comes of it: a watch that compares every state with that ledger,
wherever code is asked for or an expression is compiled, never strikes.
-/

namespace ShaderGraph

open Pass

/-- The expressions of a graph can be probed. -/
theorem Graph.Keeps.tracked {g : Graph} {t : Terms} (hg : g.Keeps t) : g.expressions.Tracked t where
  nodes he := by
    obtain ⟨node, hfound, rfl⟩ := exists_node he
    have hnode := mem_of_node? hfound
    exact node.expression_tracked g (hg.lax node hnode) (fun hloud => hg.fed hloud node hnode)
      (hg.laid node hnode) hg.ordered
  apart he hout := by
    obtain ⟨node, -, rfl⟩ := exists_node he
    cases node <;> first | rfl | cases hout

/-- The terms that every graph keeps. -/
def Terms.lenient : Terms := { loud := False, lax := True }

theorem Graph.keeps_lenient (g : Graph) : g.Keeps .lenient :=
  ⟨fun _ _ _ => trivial, False.elim, fun _ _ _ _ => trivial, trivial⟩

/-! ### Keys -/

/-- What the frames of a state keep is in a ledger, with no key twice in a frame. -/
structure Ledger.Records (l : Ledger) (p : Pass) : Prop where
  distinct : ∀ (f : Nat) (frame : Frame), p.frames[f]? = some frame → frame.keys.Nodup
  kept : ∀ (f : Nat) (frame : Frame), p.frames[f]? = some frame →
    ∀ x ∈ frame.memo, l.call f x.1 = some x.2

/-- What was kept in a state is kept in a later one. -/
def Pass.MemosGrow (p q : Pass) : Prop :=
  ∀ (f : Nat) (frame : Frame), p.frames[f]? = some frame →
    ∃ frame' : Frame, q.frames[f]? = some frame' ∧ frame.memo <:+ frame'.memo

/-- What is looked for to see that keys are compiled once. An expression is compiled for a key that
the innermost frame keeps nothing for; it ends with the key in progress in the same frame, and with
what the ledger has for the key. -/
def Ledger.once (l : Ledger) : Watch where
  asked _ p := l.Records p
  answered _ p _ q := l.Records q ∧ p.MemosGrow q
  before ctx p := l.Records p ∧ ∀ f κ, ctx.compiling? p = some (f, κ) → (l.call f κ).isSome ∧
    ∀ frame, p.frames[f]? = some frame → κ ∉ frame.memo.map Prod.fst
  after ctx p c q := l.Records q ∧ p.MemosGrow q ∧ ctx.compiling? q = ctx.compiling? p ∧
    ∀ f κ, ctx.compiling? p = some (f, κ) → l.call f κ = some c

section Keys

variable {t : Terms} {l last : Ledger} {p q : Pass} {ctx : Context} {f : Nat} {κ : Key}

theorem Ledger.Orderly.records (h : l.Orderly t p) (hle : l ≤ last) : last.Records p :=
  ⟨fun _ _ hframe => h.distinct hframe, fun _ _ hframe x hx => hle.2 _ _ _ (h.kept hframe x hx).1⟩

theorem Ledger.Records.under (h : l.Records p) (marks : List LogEntry) :
    l.Records (p.under marks) := ⟨h.distinct, h.kept⟩

/-- The key that an expression is compiled for is in progress in the innermost frame. -/
theorem Context.mem_active_of_compiling? {frame : Frame} (h : ctx.compiling? p = some (f, κ))
    (hframe : p.frames[f]? = some frame) : κ ∈ frame.active.map Prod.fst := by
  obtain ⟨f', -, hκ⟩ := Option.bind_eq_some_iff.1 h
  obtain ⟨κ', hhead, heq⟩ := Option.map_eq_some_iff.1 hκ
  obtain ⟨rfl, rfl⟩ := Prod.mk.inj heq
  have hmem := List.mem_of_mem_head? hhead
  simpa [Pass.nesting, activeIn, hframe] using hmem

theorem Context.compiling?_of_nesting_eq (h : q.nesting = p.nesting) :
    ctx.compiling? q = ctx.compiling? p := by
  have hopen : q.openFrames.get ctx.stage = p.openFrames.get ctx.stage :=
    congrFun (congrArg Nesting.opened h) ctx.stage
  unfold compiling?
  rw [hopen, h]

theorem Ledger.once_sound (t : Terms) : Watch.Sound t once where
  asked marks hle hp := (hp.orderly.records hle).under marks
  answered marks marks' hle hp h :=
    ⟨(h.prepared.orderly.records hle).under marks', fun f frame hframe => h.balanced.frames hframe⟩
  before {l last ctx p} marks hle h := by
    refine ⟨(h.orderly.records hle).under marks, fun f κ hκ => ⟨?_, fun frame hframe hmem => ?_⟩⟩
    · obtain ⟨c, hc⟩ := Option.isSome_iff_exists.1 (h.entered f κ hκ)
      rw [hle.2 f κ c hc]
      rfl
    · -- A key in progress is not among the keys with a result.
      have hactive := Context.mem_active_of_compiling? hκ hframe
      exact (List.nodup_append.1 (h.orderly.distinct hframe)).2.2 κ hactive κ hmem rfl
  after {l l' last ctx p q c} marks marks' hle h hend hentered := by
    refine ⟨(hend.prepared.orderly.records hle).under marks',
      fun f frame hframe => hend.balanced.frames hframe,
      Context.compiling?_of_nesting_eq hend.balanced.nesting, fun f κ hκ => ?_⟩
    exact hle.2 _ _ _ (hend.le.2 _ _ _ (hentered f κ hκ))

/-- Once nothing is in progress, the ledger has what the frames keep. -/
theorem Pass.Idle.call_eq_some_iff {env : Environment} {busy : Option Stage}
    (h : p.Idle t env busy l) {c : Code} :
    l.call f κ = some c ↔ ∃ frame, p.frames[f]? = some frame ∧ (κ, c) ∈ frame.memo := by
  constructor
  · intro hcall
    obtain ⟨frame, hframe, hκ⟩ := h.orderly.begun hcall
    have hidle : frame.active.map Prod.fst = [] := by
      simpa [Pass.nesting, activeIn, hframe] using h.idle f
    rw [Frame.keys, hidle, List.nil_append] at hκ
    obtain ⟨⟨κ', c'⟩, hmem, rfl⟩ := List.mem_map.1 hκ
    have hkept := (h.orderly.kept hframe _ hmem).1
    cases hcall.symm.trans hkept
    exact ⟨frame, hframe, hmem⟩
  · rintro ⟨frame, hframe, hmem⟩
    exact (h.orderly.kept hframe _ hmem).1

end Keys

/-- **A key is compiled at most once in a frame.** A tally of a key in a frame puts at most one
entry into the log, and changes nothing else: one if the key is in the ledger for that frame. While
the graph is compiled, no frame keeps two results for a key or replaces one; what an expression
gives for a key is what the ledger has for it, and in the end that is what the frame keeps in which
the key came into progress. -/
theorem Graph.compiled_once (g : Graph) (env : Environment) :
    ∃ l : Ledger,
      (∀ alarm, runWatched env g.expressions l.once alarm {} = run env (some g.expressions) {}) ∧
      (∀ tally : Tally, final (run env (some (g.expressions.map (Expression.counted tally))) {}) =
        (final (run env (some g.expressions) {})).under
          (if (l.call tally.frame tally.key).isSome then [tally.entry] else [])) ∧
      ∀ o p, run env (some g.expressions) {} = .ok o p → l.Records p ∧
        (∀ f, p.nesting.active f = []) ∧ ∀ f κ c, l.call f κ = some c ↔
          ∃ frame, p.frames[f]? = some frame ∧ (κ, c) ∈ frame.memo := by
  obtain ⟨l, hwatched, hcounted, hends⟩ :=
    run_observed (Ledger.once_sound .lenient) g.keeps_lenient.tracked env
  refine ⟨l, hwatched, hcounted, fun o p hrun => ?_⟩
  obtain ⟨q, hq, hfixes, -⟩ := hends.ok hrun
  have hnesting : p.nesting = q.nesting := by
    simp only [Pass.nesting, hfixes.frames, hfixes.openFrames]
  have horderly := hq.orderly.later hfixes.toSince hfixes.frames
  refine ⟨horderly.records l.le_refl, fun f => ?_, fun f κ c => ?_⟩
  · rw [hnesting]
    exact hq.idle f
  · rw [hfixes.frames]
    exact hq.call_eq_some_iff

/-! ### Handles -/

/-- Whether a fault is about a handle that leaves its scope, a frame that is not the innermost one,
or code that is not there when the results are fixed. -/
def Fault.breaksScopes : Fault → Bool
  | codeOutOfRange _ | emittedAfterFinish | unbalancedFrames | resultOutOfRange | resultNotRead =>
    true
  | _ => false

theorem Fault.breaksScopes_of_isExcluded {e : Fault} (h : e.isExcluded = false) :
    e.breaksScopes = false := by
  cases e <;> first | rfl | cases h

/-- The handles of a state point into their scopes: those that a frame keeps into the scope of the
frame, results into the scopes of their stages, and page tables into the scopes of their stacks. -/
structure Ledger.Bounds (l : Ledger) (p : Pass) : Prop where
  memos : ∀ (f : Nat) (frame : Frame), p.frames[f]? = some frame → ∀ x ∈ frame.memo,
    ∃ k, l.scope f = some k ∧ ∀ i, x.2 = some i → i < (p.scope k).length
  results : ∀ property i, p.results.get property = some i →
    i < (p.scope (p.stageScopes.get property.stage)).length
  pageTables : ∀ e ∈ p.stackEntries, ∀ i, e.pageTable = some i → i < (p.scope e.key.scope).length

/-- What is looked for to see that handles stay in their scopes. Code is asked for, and expressions
are compiled, while the open frames belong to the scope that is compiled for; what comes of that is
a handle of this scope, and the same keys are in progress in the same open frames as before. -/
def Ledger.confined (l : Ledger) : Watch where
  asked ctx p := l.Bounds p ∧ ∀ f ∈ p.openFrames.get ctx.stage, l.scope f = some ctx.scope
  answered ctx p c q := l.Bounds q ∧ q.nesting = p.nesting ∧ ctx.Points c q
  before ctx p := l.Bounds p ∧ ∀ f ∈ p.openFrames.get ctx.stage, l.scope f = some ctx.scope
  after ctx p c q := l.Bounds q ∧ q.nesting = p.nesting ∧ ctx.Points c q

section Handles

variable {t t' : Terms} {l last : Ledger} {p q : Pass} {ctx : Context}

theorem Pass.Sane.bounds {env : Environment} (hp : p.Sane t' env) (h : l.Orderly t p)
    (hle : l ≤ last) : last.Bounds p := by
  refine ⟨fun f frame hframe x hx => ?_, fun property i hi => ?_,
    fun _ he _ hi => hp.pageTable_lt he hi⟩
  · obtain ⟨-, k, hscope, hbacks⟩ := h.kept hframe x hx
    exact ⟨k, hle.1 f k hscope, hbacks.1⟩
  · obtain ⟨d, hd, -⟩ := hp.results property i hi
    exact (List.getElem?_eq_some_iff.1 hd).1

theorem Context.Prepared.bounds (h : ctx.Prepared t l p) (hle : l ≤ last)
    (marks : List LogEntry) : last.Bounds (p.under marks) := by
  have hbounds := h.fit.toSane.bounds h.orderly hle
  exact ⟨hbounds.memos, hbounds.results, hbounds.pageTables⟩

theorem Ledger.confined_sound (t : Terms) : Watch.Sound t confined where
  asked marks hle hp := ⟨hp.bounds hle marks, fun f hf => hle.1 _ _ (hp.owned f hf)⟩
  answered _ marks' hle _ h := ⟨h.prepared.bounds hle marks', h.balanced.nesting, h.points⟩
  before marks hle h := ⟨h.toPrepared.bounds hle marks, fun f hf => hle.1 _ _ (h.owned f hf)⟩
  after _ marks' hle _ hend _ :=
    ⟨hend.prepared.bounds hle marks', hend.balanced.nesting, hend.points⟩

theorem Ledger.Bounds.fixes (h : l.Bounds p) (hq : Fixes p q) : l.Bounds q := by
  refine ⟨fun f frame hframe x hx => ?_, fun property i hi => ?_, fun e he i hi => ?_⟩
  · rw [hq.frames] at hframe
    obtain ⟨k, hscope, hlt⟩ := h.memos f frame hframe x hx
    exact ⟨k, hscope, fun i hi => hq.lt_scope (hlt i hi)⟩
  · rw [hq.results] at hi
    rw [hq.stageScopes]
    exact hq.lt_scope (h.results property i hi)
  · rw [hq.stackEntries] at he
    exact hq.lt_scope (h.pageTables e he i hi)

end Handles

/-- **Handles never leave their scopes, and frames stay balanced.** While a graph is compiled and in
the end, every handle that is kept points into the scope it belongs to. Code is compiled only in
frames of the scope that it is compiled for, and a stack of virtual textures is found only in its
own scope. Compiling leaves the open frames and what is in progress as they were. So it never breaks
off over any of that. -/
theorem Graph.handles_scoped (g : Graph) (env : Environment) :
    (∃ l : Ledger,
      (∀ alarm, runWatched env g.expressions l.confined alarm {} =
        run env (some g.expressions) {}) ∧
      ∀ o p, run env (some g.expressions) {} = .ok o p → l.Bounds p ∧
        (∀ f, p.nesting.active f = []) ∧ ∀ stage, ∃ root, p.openFrames.get stage = [root] ∧
          (l.scope root = none ∨ l.scope root = some (p.stageScopes.get stage))) ∧
    (∀ (ctx : Context) (ref : TextureRef) (slot : Int) (s : Sample) (m : MipChoice)
      (p q : Pass) (layer : Int) (stack : Nat),
      ctx.acquireLayer ref slot s m p = .ok (some (layer, stack)) q →
        ∃ entry, q.stackEntries[stack]? = some entry ∧ entry.key.scope = ctx.scope) ∧
    ∀ e p, run env (some g.expressions) {} = .error e p → e.breaksScopes = false := by
  obtain ⟨l, hwatched, -, hends⟩ :=
    run_observed (Ledger.confined_sound .lenient) g.keeps_lenient.tracked env
  refine ⟨⟨l, hwatched, fun o p hrun => ?_⟩, fun ctx ref slot s m p q layer stack h =>
    Context.acquireLayer_scoped h, fun e p hrun => ?_⟩
  · obtain ⟨q, hq, hfixes, -⟩ := hends.ok hrun
    have hnesting : p.nesting = q.nesting := by
      simp only [Pass.nesting, hfixes.frames, hfixes.openFrames]
    refine ⟨(hq.sane.bounds hq.orderly l.le_refl).fixes hfixes, fun f => ?_, fun stage => ?_⟩
    · rw [hnesting]
      exact hq.idle f
    · obtain ⟨root, hroot, -, hscope⟩ := hq.roots stage
      rw [hfixes.openFrames, hfixes.stageScopes]
      exact ⟨root, hroot, hscope (by simp)⟩
  · rcases hends.error hrun with he | ⟨rfl, -⟩
    · exact Fault.breaksScopes_of_isExcluded he
    · rfl

end ShaderGraph
