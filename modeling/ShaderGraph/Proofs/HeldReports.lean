import Mathlib.Data.List.Perm.Basic
import ShaderGraph.Proofs.StageFrames
import ShaderGraph.Proofs.Waypoints

/-!
# Reports that are held back

The inputs of interpolators are tried out before anything else is compiled. Whatever is wrong with
them, nothing shows of it: no report, no failure, and nothing in the frames of any stage
(`Pass.compileInterpolators_contained`). What was held back comes out when the pixel stage reads the
interpolator, and stays (`Graph.interpolators_contained`).

That the pixel stage reads a node is said by a graph in which the compilation breaks off there
(`Expression.barred`). It does the same as the graph, unless the pass has failed by then.
-/

namespace ShaderGraph

open Pass

/-- The reserve of no nodes. -/
def Environment.bare (env : Environment) : Reserve where
  env := env
  nodes _ := False
  licence := .full
  reports := Licence.full_reports
  sure := false

theorem Environment.bare_closed (env : Environment) (g : Graph) : env.bare.Closed g :=
  ⟨rfl, nofun, nofun⟩

namespace Pass

variable {env : Environment} {p q r : Pass}

/-! ### Frames with nothing in them -/

/-- Each stage has one open frame, its own, with nothing in it; unless it is busy. -/
def Blank (busy : Option Stage) (p : Pass) : Prop :=
  ∀ a, busy ≠ some a → (∃ root, p.openFrames.get a = [root] ∧ p.frames[root]? = some {}) ∧
    ∀ b, b ≠ a → busy ≠ some b → p.openFrames.get b ≠ p.openFrames.get a

namespace Blank

variable {busy : Option Stage} {stage : Stage}

theorem remains {L : Licence} (h : p.Blank busy) (hq : Remains L p q) : q.Blank busy := by
  unfold Blank
  rw [hq.frames, hq.openFrames]
  exact h

theorem leave (h : p.Blank none) (stage : Stage) : p.Blank (some stage) := fun a _ =>
  ⟨(h a (by simp)).1, fun b hb _ => (h a (by simp)).2 b hb (by simp)⟩

theorem opened : opened.Blank none := by
  intro a _
  refine ⟨by cases a <;> exact ⟨_, rfl, rfl⟩, fun b hb _ => ?_⟩
  cases a <;> cases b <;> first | exact absurd rfl hb | decide

/-- The frame of a stage is left for a fresh one. -/
theorem restarted (h : p.Blank (some stage)) : (p.restarted stage).Blank none := by
  have hself : (p.restarted stage).openFrames.get stage = [p.frames.length] :=
    StageTable.get_set_self ..
  have hother : ∀ {a}, a ≠ stage → (p.restarted stage).openFrames.get a = p.openFrames.get a :=
    fun ha => StageTable.get_set_of_ne _ ha _
  have hbusy : ∀ {a}, a ≠ stage → some stage ≠ some a := fun ha h => ha (Option.some.inj h).symm
  have hold : ∀ {a}, a ≠ stage → ∃ root, p.openFrames.get a = [root] ∧ root < p.frames.length ∧
      p.frames[root]? = some {} := by
    intro a ha
    obtain ⟨root, hopen, hempty⟩ := (h a (hbusy ha)).1
    exact ⟨root, hopen, (List.getElem?_eq_some_iff.1 hempty).1, hempty⟩
  have hapart : ∀ {a}, a ≠ stage → p.openFrames.get a ≠ [p.frames.length] := by
    intro a ha heq
    obtain ⟨root, hopen, hlt, -⟩ := hold ha
    exact Nat.ne_of_lt hlt (List.singleton_inj.1 (hopen.symm.trans heq))
  intro a _
  by_cases ha : a = stage
  · subst ha
    rw [hself]
    refine ⟨⟨_, rfl, List.getElem?_concat_length⟩, fun b hb _ => ?_⟩
    rw [hother hb]
    exact hapart hb
  · rw [hother ha]
    obtain ⟨root, hopen, hlt, hempty⟩ := hold ha
    refine ⟨⟨root, hopen, (List.getElem?_append_left hlt).trans hempty⟩, fun b hb _ => ?_⟩
    by_cases hstage : b = stage
    · rw [hstage, hself]
      exact (hapart ha).symm
    · rw [hother hstage]
      exact (h a (hbusy ha)).2 b hb (hbusy hstage)

/-- What is compiled in a stage leaves the frames of the others. -/
theorem course {g : ExpressionGraph} {ctx : Context} {α : Type} {m : PassM α}
    {Q : α → Register → Pass → Prop} (h : p.Blank none) (hk : ctx.scope < p.scopes.length)
    (hm : ∀ ρ, ctx.env.bare.Course g False ρ ctx p m m Q) :
    p.Gives m fun _ q => q.Blank (some ctx.stage) := by
  obtain ⟨⟨root, hopen, hempty⟩, hapart⟩ := h ctx.stage (by simp)
  refine (hm _ rfl (.fresh ⟨by rintro ⟨⟩, by rintro ⟨⟩⟩ hk hopen hempty nofun)).2.mono
    fun _ q ⟨ρ, hq, _, _⟩ a ha => ?_
  obtain ⟨⟨root', hopen', hempty'⟩, hapart'⟩ := h a (by simp)
  have hne : a ≠ ctx.stage := fun h => ha (congrArg some h.symm)
  have hroot : root' ≠ root := fun heq => hapart a hne (by simp) (by rw [hopen, hopen', heq])
  refine ⟨⟨root', (hq.openFrames a).trans hopen', ?_⟩, fun b hb _ => ?_⟩
  · rw [hq.outside (Function.update_of_ne hroot ..) (List.getElem?_eq_some_iff.1 hempty').1,
      hempty']
  · rw [hq.openFrames, hq.openFrames]
    exact hapart' b hb (by simp)

theorem hosts : Hosts (fun _ => Eq) (Same (Blank none)) (fun _ => Same (Blank none))
    (fun stage => Same (Blank (some stage))) :=
  hosts_same (N := fun _ => Blank none) remains remains (fun _ _ h => h) id id
    (fun stage h => h.leave stage) restarted

end Blank

end Pass

namespace Pass

variable {env : Environment} {g : Graph} {p q r : Pass} {id : NodeId} {ids ids' : List NodeId}

/-- An interpolator that was tried out leaves a stage with nothing in its frame. -/
theorem compileInterpolator_blank (hp : p.Blank none) (id : NodeId) (input : Input) :
    p.Gives (compileInterpolator env g.expressions.compile id input) fun _ q => q.Blank none := by
  have hinput : ∀ ctx : Context, ctx.IsApart env → ctx.stage = .vertex →
      Couples (fun _ => Eq) (Having (Same (Blank none)) ctx.scope) (Same (Blank (some .vertex)))
        (g.expressions.compile ctx input) (g.expressions.compile ctx input) := by
    rintro ctx hctx hstage p _ ⟨⟨rfl, hp⟩, hscope⟩
    rw [← hstage]
    exact agree_same rfl (hp.course hscope fun ρ =>
      (ctx.env.bare_closed g).compiles g.expressions.depth nofun)
  intro a q hq
  have hagree := compileInterpolator_couples Blank.hosts hinput id p p ⟨rfl, hp⟩
  rw [hq] at hagree
  exact hagree.2.2

/-! ### Interpolators that are tried out -/

/-- The interpolators that were tried out: those whose input compiled, and those for which reports
are held back. -/
def tried (p : Pass) : List NodeId :=
  p.interpolators.map (·.node) ++ p.interpolatorErrors.map (·.1)

/-- Interpolators were tried out, and nothing was reported. -/
structure Tries (ids : List NodeId) (p q : Pass) : Prop where
  success : q.success = p.success
  diagnostics : q.diagnostics = p.diagnostics
  sink : p.sink = none → q.sink = none
  tried : q.tried.Perm (p.tried ++ ids)

theorem Tries.refl (p : Pass) : Tries [] p p := ⟨rfl, rfl, id, by rw [List.append_nil]⟩

theorem Tries.trans (h : Tries ids p q) (h' : Tries ids' q r) : Tries (ids ++ ids') p r := by
  refine ⟨h'.success.trans h.success, h'.diagnostics.trans h.diagnostics,
    fun hp => h'.sink (h.sink hp), ?_⟩
  rw [← List.append_assoc]
  exact h'.tried.trans (h.tried.append_right ids')

/-- What a compilation may do whose reports are held back. -/
def Licence.trial : Licence where
  samples := true
  implements := true

/-- **An interpolator that is tried out** has an input that compiled, or reports are held for it. -/
theorem compileInterpolator_tries {c : Compiler} (hc : Compiler.Minds .trial c) (id : NodeId)
    (input : Input) : p.Gives (compileInterpolator env c id input) fun _ q => Tries [id] p q := by
  have hinput : ∀ ctx : Context, ctx.stage = .vertex →
      Minds .trial (compileInterpolated c ctx input) := by
    intro ctx hstage
    have hcovers : Licence.trial.Covers ctx := ⟨.inl rfl, .inl rfl, .inr (by rw [hstage]; decide)⟩
    refine (hc ctx input hcovers).bind fun code => (Minds.of_plain (Context.typeOf_plain code)).bind
      fun type => ?_
    split
    · exact (Minds.congruence.report ctx _).bind fun _ => .pure _
    · exact .pure _
  have hclose : ∀ {q : Pass} {attributes : List (String × String)}, q.success = p.success →
      q.diagnostics = p.diagnostics → q.tried.Perm (p.tried ++ [id]) →
      q.Gives (closeInterpolator attributes) fun _ r => Tries [id] p r :=
    fun hsuccess hdiagnostics htried => .of_run rfl ⟨hsuccess, hdiagnostics, fun _ => rfl, htried⟩
  -- Where the new one is put does not matter.
  have hperm : (p.interpolators.map (·.node) ++ ([id] ++ p.interpolatorErrors.map (·.1))).Perm
      (p.tried ++ [id]) := by
    unfold tried
    rw [List.append_assoc]
    exact List.perm_append_comm.append_left _
  unfold compileInterpolator
  refine .modify_bind ?_
  refine (Minds.of_plain (L := .trial) newScope_plain _).bind fun scope q₁ h₁ => ?_
  refine (hinput _ rfl _).bind fun ⟨code, type⟩ q₂ h₂ => ?_
  have habides := h₁.trans h₂
  unfold storeInterpolator
  dsimp only
  split
  · simp only [bind_assoc]
    refine .get_bind ?_
    refine (Minds.of_plain (L := .trial) (Context.functionBody_plain code) _).bind
      fun body q₃ h₃ => ?_
    refine (Minds.of_steps (L := .trial) (addImplementation_steps rfl _) _).bind
      fun _ q₄ h₄ => .modify_bind ?_
    have habides' := habides.trans (h₃.trans h₄)
    obtain ⟨-, hsuccess, hdiagnostics⟩ := habides'.withholds rfl [] rfl
    refine hclose hsuccess hdiagnostics ?_
    unfold tried
    rw [List.map_append, habides'.listed rfl, habides'.interpolatorErrors, List.append_assoc]
    exact hperm
  · obtain ⟨-, hsuccess, hdiagnostics⟩ := habides.withholds rfl [] rfl
    refine .modify_bind (hclose hsuccess hdiagnostics ?_)
    unfold tried
    rw [List.map_cons, habides.listed rfl, habides.interpolatorErrors]
    exact hperm

/-- **Interpolators that are tried out** are all accounted for, and nothing else shows of them. -/
theorem compileInterpolators_contained (hlisted : ∀ id ∈ env.material.interpolators,
      ∃ input, g.node? id = some (.vertexInterpolator input)) (hp : p.Blank none) :
    p.Gives (compileInterpolators env g.expressions g.expressions.compile) fun _ q =>
      Tries env.material.interpolators p q ∧ q.Blank none := by
  unfold compileInterpolators
  generalize env.material.interpolators = ids at hlisted ⊢
  induction ids generalizing p with
  | nil => exact .pure ⟨.refl p, hp⟩
  | cons id ids ih =>
    obtain ⟨input, hnode⟩ := hlisted id (by simp)
    have hinput : (g.expressions.node? id).bind (·.vertexInput?) = some input := by
      rw [Graph.node?_expressions, hnode]
      rfl
    have hone : p.Gives (compileInterpolator env g.expressions.compile id input) fun _ q =>
        Tries [id] p q ∧ q.Blank none :=
      (compileInterpolator_tries (Graph.compileAt_minds _) id input).both
        (compileInterpolator_blank hp id input)
    refine Gives.bind (Q := fun _ q => Tries [id] p q ∧ q.Blank none) ?_ fun _ q ⟨htries, hq⟩ => ?_
    · simp only [hinput]
      exact hone
    · exact (ih hq fun id hid => hlisted id (by simp [hid])).mono fun _ r ⟨htries', hr⟩ =>
        ⟨htries.trans htries', hr⟩

end Pass

/-! ### Reading an interpolator -/

namespace Graph

/-- The pixel stage reads a node: it would show if the compilation broke off there. -/
def ReadInPixel (g : Graph) (env : Environment) (id : NodeId) : Prop :=
  ∃ alarm, run env (some (g.barred id alarm)) {} ≠ run env (some g.expressions) {}

variable {g : Graph} {env : Environment} {id : NodeId} {input : Input} {alarm : Fault}

/-- A graph that is barred at an interpolator is related to the graph, if breaking off is related to
reading the interpolator. -/
theorem barred_related {L : Licence} {P : (α : Type) → PassM α → PassM α → Prop}
    (hP : Congruence L P) (hnode : g.node? id = some (.vertexInterpolator input))
    (hread : ∀ ctx : Context, L.Covers ctx → ctx.node = id → ctx.stage = .pixel →
      P _ ctx.readInterpolator (throw alarm)) :
    ExpressionGraph.Related L.Covers P g.expressions (g.barred id alarm) := by
  intro n
  unfold barred
  rw [ExpressionGraph.node?_map, node?_expressions]
  cases hn : g.node? n with
  | none => exact .inl ⟨rfl, rfl⟩
  | some node =>
    refine .inr ⟨_, _, rfl, rfl, rfl, fun {c d ctx} output hc hctx hcovers => ?_⟩
    have hcompile := hP.compileNode hc hcovers g node output
    show P _ (node.compile g c ctx output)
      (if ctx.node = id ∧ ctx.stage = .pixel then throw alarm else node.compile g d ctx output)
    split
    case isTrue hbarred =>
      obtain ⟨hid, hstage⟩ := hbarred
      obtain rfl : n = id := hctx.symm.trans hid
      cases hn.symm.trans hnode
      have hreads : (Node.vertexInterpolator input).compile g c ctx output =
          ctx.readInterpolator := if_pos hstage
      rw [hreads]
      exact hread ctx hcovers hid hstage
    case isFalse => exact hcompile

end Graph

namespace Pass

variable {env : Environment} {g : Graph} {p q r : Pass} {id : NodeId} {input : Input}
variable {alarm : Fault} {held : List Diagnostic} {L : Licence}

/-- That two computations are the same is a relation that is kept. -/
theorem congruence_eq : Congruence L fun _ m n => n = m where
  throw _ := rfl
  bind hm hf := by rw [hm, funext hf]
  get_bind h := by rw [funext h]
  steps _ := rfl
  report _ _ := rfl
  interpolator _ := rfl
  modify _ := rfl

/-- Interpolators are tried out in the vertex stage. -/
theorem compileInterpolators_barred (hnode : g.node? id = some (.vertexInterpolator input)) :
    compileInterpolators env (g.barred id alarm) (g.barred id alarm).compile =
      compileInterpolators env g.expressions g.expressions.compile := by
  have hrelated : ExpressionGraph.Related Licence.trial.Covers (fun _ m n => n = m) g.expressions
      (g.barred id alarm) :=
    Graph.barred_related congruence_eq hnode fun ctx hctx _ hstage =>
      absurd hstage (hctx.reports.resolve_left (by decide))
  have hcompile : ∀ ctx input, ctx.stage = .vertex →
      (g.barred id alarm).compile ctx input = g.expressions.compile ctx input := fun ctx input h =>
    congruence_eq.frames.compileAt hrelated _ ctx input
      ⟨.inl rfl, .inl rfl, .inr (by rw [h]; decide)⟩
  have hinput : ∀ n, ((g.barred id alarm).node? n).bind (·.vertexInput?) =
      (g.expressions.node? n).bind (·.vertexInput?) := by
    intro n
    unfold Graph.barred
    rw [ExpressionGraph.node?_map, Option.bind_map]
    rfl
  unfold compileInterpolators compileInterpolator compileInterpolated
  simp only [hinput, hcompile]

/-- A state with reports that are held back for an interpolator. -/
structure Holding (id : NodeId) (held : List Diagnostic) (p : Pass) : Prop where
  errors : p.interpolatorErrors.lookup id = some held
  failed : id ∉ p.interpolators.map (·.node)
  sink : p.sink = none

/-- A state of a pass that has failed, with the given reports among others. -/
def Reported (held : List Diagnostic) (p : Pass) : Prop :=
  p.success = false ∧ ∀ d ∈ held, ∃ d' ∈ p.diagnostics, d'.message = d.message

theorem Holding.abides (hL : L.lists = false) (h : p.Holding id held) (hq : Abides L p q) :
    q.Holding id held :=
  ⟨hq.interpolatorErrors ▸ h.errors, hq.listed hL ▸ h.failed, hq.sink h.sink⟩

theorem Reported.abides (h : p.Reported held) (hq : Abides L p q) : q.Reported held :=
  ⟨hq.failed h.1, fun d hd => (h.2 d hd).imp fun _ ⟨hmem, hmessage⟩ =>
    ⟨hq.diagnostics.subset hmem, hmessage⟩⟩

/-- What was held back for an interpolator is reported when it is read. -/
theorem Holding.read (h : p.Holding id held) {ctx : Context} (hid : ctx.node = id)
    (hstage : ctx.stage = .pixel) : p.Gives ctx.readInterpolator fun _ q => q.Reported held := by
  have hnone : (p.interpolators.findIdx? fun i => i.node == ctx.node) = none := by
    rw [List.findIdx?_eq_none_iff]
    intro i hi
    rw [beq_eq_false_iff_ne, hid]
    exact fun heq => h.failed (heq ▸ List.mem_map_of_mem hi)
  unfold Context.readInterpolator
  rw [if_neg (by rw [hstage]; decide)]
  refine .get_bind ?_
  rw [hnone, hid, h.errors]
  refine (Context.forM_addDiagnostic_remains (L := .full) (.inl rfl) held).bind
    fun _ q ⟨hq, hreported⟩ => ?_
  refine (report_remains (L := .full) ctx _).mono fun _ r ⟨hr, _, hfailed⟩ => ?_
  refine ⟨hfailed (hq.sink h.sink), fun d hd => (hreported d hd).imp fun _ ⟨hmem, hmessage⟩ => ?_⟩
  exact ⟨hr.diagnostics.subset hmem, hmessage⟩

/-- What a compilation may do that reports, after the interpolators. -/
def Licence.spoken : Licence where
  samples := true
  implements := true
  reports := true

/-- Two computations that are the same unless what was held back for an interpolator is reported. -/
def SameUnlessRead (id : NodeId) (held : List Diagnostic) (α : Type) (m n : PassM α) : Prop :=
  Minds .spoken m ∧ ∀ p, p.Holding id held → n p = m p ∨ p.Gives m fun _ q => q.Reported held

theorem SameUnlessRead.congruence : Congruence .spoken (SameUnlessRead id held) where
  throw e := ⟨.throw e, fun _ _ => .inl rfl⟩
  bind {α β m n f k} hm hf := by
    refine ⟨hm.1.bind fun a => (hf a).1, fun p hp => ?_⟩
    rcases hm.2 p hp with heq | hreported
    · rw [show (n >>= k) p = (m >>= k) p from bind_congr_run heq k]
      cases hq : m p with
      | error e q => exact .inl (by rw [Observed.bind_of_error hq, Observed.bind_of_error hq])
      | ok a q =>
        rw [bind_of_ok hq, bind_of_ok hq]
        refine ((hf a).2 q (hp.abides rfl (hm.1 p a q hq))).imp_right fun h => ?_
        exact .read hq h
    · exact .inr (hreported.bind fun a q hq => ((hf a).1 q).mono fun _ _ hr => hq.abides hr)
  get_bind h := ⟨.get_bind fun p => (h p).1, fun p hp => (h p).2 p hp⟩
  steps hm := ⟨.of_steps hm, fun _ _ => .inl rfl⟩
  report ctx problem := ⟨Minds.congruence.report ctx problem, fun _ _ => .inl rfl⟩
  interpolator hctx := ⟨Minds.congruence.interpolator hctx, fun _ _ => .inl rfl⟩
  modify h := ⟨.modify h, fun _ _ => .inl rfl⟩

/-- **All that comes after the interpolators** is the same with a graph that is barred at one of
them, unless what was held back for it is reported. -/
theorem compileRest_barred (env : Environment) (alarm : Fault) (held : List Diagnostic)
    (hnode : g.node? id = some (.vertexInterpolator input)) :
    SameUnlessRead id held _
      (compileRest env g.expressions g.expressions.compile >>= fun _ => finish env)
      (compileRest env (g.barred id alarm) (g.barred id alarm).compile >>=
        fun _ => finish env) := by
  have hP : Congruence .spoken (SameUnlessRead id held) := SameUnlessRead.congruence
  have hrelated : ExpressionGraph.Related Licence.spoken.Covers (SameUnlessRead id held)
      g.expressions (g.barred id alarm) :=
    Graph.barred_related hP hnode fun ctx hctx hid hstage =>
      ⟨Minds.congruence.interpolator hctx, fun _ hp => .inr (hp.read hid hstage)⟩
  have hproblems : virtualTextureProblems env.material (g.barred id alarm) =
      virtualTextureProblems env.material g.expressions :=
    g.expressions.virtualTextureProblems_map _ (fun _ => rfl) fun _ => rfl
  exact hP.bind (hP.compileRest (hP.frames.compileAt hrelated _) rfl rfl hrelated rfl hproblems)
    fun _ => hP.finish rfl rfl

theorem run_eq_rest (env : Environment) (g : ExpressionGraph) :
    run env (some g) {} =
      ((enter .vertexInterpolators >>= fun _ => compileInterpolators env g g.compile) >>=
        fun _ => compileRest env g g.compile >>= fun _ => finish env) opened := by
  rw [run_eq, compileAll]
  simp only [bind_assoc]

/-- The state after the interpolators, if reports are held back for one. -/
theorem interpolators_holding (hlisted : ∀ id ∈ env.material.interpolators,
      ∃ input, g.node? id = some (.vertexInterpolator input))
    (hq : (enter .vertexInterpolators >>= fun _ =>
      compileInterpolators env g.expressions g.expressions.compile) opened = .ok () q)
    (herrors : q.interpolatorErrors.lookup id = some held)
    (hfailed : id ∉ q.interpolators.map (·.node)) :
    q.Holding id held ∧ ∃ input, g.node? id = some (.vertexInterpolator input) := by
  obtain ⟨_, p, henter, hq⟩ := exists_of_bind hq
  have hp : Remains .trial opened p := (enter_plain _).licensed.remains _ _ henter
  have hnone : p.tried = [] := by
    unfold tried
    rw [hp.listed rfl, hp.interpolatorErrors]
    rfl
  obtain ⟨htries, -⟩ := compileInterpolators_contained hlisted (Blank.opened.remains hp) _ _ hq
  have hperm : q.tried.Perm env.material.interpolators := by simpa [hnone] using htries.tried
  refine ⟨⟨herrors, hfailed, htries.sink (hp.sink rfl)⟩, hlisted id (hperm.subset ?_)⟩
  refine List.mem_append_right _ (List.mem_map.2 ⟨(id, held), ?_, rfl⟩)
  obtain ⟨before, after, hsplit, -⟩ := List.lookup_eq_some_iff.1 herrors
  rw [hsplit]
  simp

/-- If the pixel stage reads an interpolator, then what was held back for it is reported. -/
theorem reported_of_read (hnode : g.node? id = some (.vertexInterpolator input))
    (hread : g.ReadInPixel env id)
    (hq : (enter .vertexInterpolators >>= fun _ =>
      compileInterpolators env g.expressions g.expressions.compile) opened = .ok () q)
    (hholding : q.Holding id held) {o : Outcome}
    (hrun : run env (some g.expressions) {} = .ok o p) : p.Reported held := by
  obtain ⟨alarm, hne⟩ := hread
  rw [run_eq_rest, run_eq_rest, compileInterpolators_barred hnode, bind_of_ok hq,
    bind_of_ok hq] at hne
  rw [run_eq_rest, bind_of_ok hq] at hrun
  have hsame := (compileRest_barred env alarm held hnode).2 q hholding
  exact (hsame.resolve_left hne) _ _ hrun

end Pass

/-- **Interpolators are tried out without consequences.** Let all that are listed be interpolators.
From a state in which no frame has anything in it, trying them out fails nothing and reports
nothing, leaves the frames so, and all of them have an input that compiled or reports that are held
back. If the pixel stage then reads one whose input did not compile, the compilation does not
succeed, and all that was held back for it is among the diagnostics. -/
theorem Graph.interpolators_contained {g : Graph} {env : Environment}
    (hlisted : ∀ id ∈ env.material.interpolators,
      ∃ input, g.node? id = some (.vertexInterpolator input)) :
    (∀ {p q : Pass}, p.Blank none →
      compileInterpolators env g.expressions g.expressions.compile p = .ok () q →
      q.success = p.success ∧ q.diagnostics = p.diagnostics ∧ q.Blank none ∧
        q.tried.Perm (p.tried ++ env.material.interpolators)) ∧
    ∀ {o : Outcome} {p : Pass}, run env (some g.expressions) {} = .ok o p →
      ∃ q, (enter .vertexInterpolators >>= fun _ =>
          compileInterpolators env g.expressions g.expressions.compile) opened = .ok () q ∧
        ∀ {id : NodeId} {held : List Diagnostic}, q.interpolatorErrors.lookup id = some held →
          id ∉ q.interpolators.map (·.node) → g.ReadInPixel env id →
          o.success = false ∧ ∀ d ∈ held, ∃ d' ∈ o.diagnostics, d'.message = d.message := by
  refine ⟨fun {p q} hp hq => ?_, fun {o p} hrun => ?_⟩
  · obtain ⟨htries, hblank⟩ := compileInterpolators_contained hlisted hp _ _ hq
    exact ⟨htries.success, htries.diagnostics, hblank, htries.tried⟩
  have hrun' := hrun
  rw [run_eq_rest] at hrun'
  obtain ⟨_, q, hq, -⟩ := exists_of_bind hrun'
  refine ⟨q, hq, fun {id held} herrors hfailed hread => ?_⟩
  obtain ⟨hholding, input, hnode⟩ := interpolators_holding hlisted hq herrors hfailed
  have hreported := reported_of_read hnode hread hq hholding hrun
  have hconcluded : Concluded o p :=
    run_concluded (some g) hrun
  rw [hconcluded.success, hconcluded.diagnostics]
  exact hreported

/-- An interpolator of a texture that is not there. -/
def missingTexture : Graph where
  nodes := [.textureSample { textureIndex := 5 }, .vertexInterpolator ⟨1, 0⟩]

/-- The material that reads it as its color. -/
def interpolatedMaterial : Environment where
  material :=
    { inputs := (PropertyTable.const Input.none).set .baseColor ⟨2, 0⟩, interpolators := [2] }

/-- Nothing shows of the texture after the interpolator was tried out. One report is held back for
it, and comes out when its value is read. -/
theorem Graph.interpolators_contained_missingTexture :
    (∃ q, compileInterpolators interpolatedMaterial missingTexture.expressions
        missingTexture.expressions.compile opened = .ok () q ∧
      q.success = true ∧ q.diagnostics = [] ∧ q.Blank none ∧ q.tried.Perm [2]) ∧
    ∃ o p q held, run interpolatedMaterial (some missingTexture.expressions) {} = .ok o p ∧
      (enter .vertexInterpolators >>= fun _ =>
        compileInterpolators interpolatedMaterial missingTexture.expressions
          missingTexture.expressions.compile) opened = .ok () q ∧
      q.interpolatorErrors.lookup 2 = some held ∧ held.length = 1 ∧
      o.success = false ∧ ∀ d ∈ held, ∃ d' ∈ o.diagnostics, d'.message = d.message := by
  have hlisted : ∀ id ∈ interpolatedMaterial.material.interpolators,
      ∃ input, missingTexture.node? id = some (.vertexInterpolator input) := by
    intro id hid
    obtain rfl : id = 2 := List.mem_singleton.1 hid
    exact ⟨_, rfl⟩
  obtain ⟨htried, hreported⟩ := Graph.interpolators_contained hlisted
  constructor
  · obtain ⟨_, q, hq, -⟩ : ∃ a q, compileInterpolators interpolatedMaterial
        missingTexture.expressions missingTexture.expressions.compile opened = .ok a q ∧ True := by
      decide +kernel
    exact ⟨q, hq, htried Blank.opened hq⟩
  obtain ⟨o, p, hrun, -⟩ :
      ∃ o p, run interpolatedMaterial (some missingTexture.expressions) {} = .ok o p ∧ True := by
    decide +kernel
  have hbarred : ¬∃ o p, run interpolatedMaterial (some (missingTexture.barred 2 .tooDeep)) {} =
      .ok o p ∧ True := by
    decide +kernel
  have hread : missingTexture.ReadInPixel interpolatedMaterial 2 :=
    ⟨.tooDeep, fun heq => hbarred ⟨o, p, heq.trans hrun, trivial⟩⟩
  obtain ⟨_, q, hq, hheld, hfailed⟩ : ∃ a q, (enter .vertexInterpolators >>= fun _ =>
      compileInterpolators interpolatedMaterial missingTexture.expressions
        missingTexture.expressions.compile) opened = .ok a q ∧
      (q.interpolatorErrors.lookup 2).map List.length = some 1 ∧
        2 ∉ q.interpolators.map (·.node) := by
    decide +kernel
  obtain ⟨held, herrors, hlength⟩ := Option.map_eq_some_iff.1 hheld
  obtain ⟨q', hq', hreported⟩ := hreported hrun
  obtain ⟨-, rfl⟩ := EStateM.Result.ok.inj (hq.symm.trans hq')
  exact ⟨o, p, q, held, hrun, hq, herrors, hlength, hreported herrors hfailed hread⟩

end ShaderGraph
