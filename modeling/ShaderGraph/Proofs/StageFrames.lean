import ShaderGraph.Proofs.Congruences
import ShaderGraph.Proofs.ReservedNodes

/-!
# Frames between compilations

All that a material asks for is compiled in the frames of the stages, one after the other. What a
frame keeps is a handle, which says what it should only in the scope that it was made for. So the
frames of a stage have to keep to its scope. They do: functions are compiled in other scopes, but
each starts in a fresh frame and leaves it for another one (`Pass.Housed`). The frames of a stage
are then clean whatever is compiled in it, and two graphs whose nodes are alike in a reserve are
compiled the same (`Graph.compileAll_housed`).
-/

namespace ShaderGraph

variable {ρ : Register}

open Pass

namespace Pass

/-- An invariant of the states between compilations, which may be weaker while functions are
compiled in a stage, and stronger when it has a fresh frame, holds in all phases. -/
theorem hosts_same {I : Option Stage → Pass → Prop} {N : Stage → Pass → Prop}
    (hI : ∀ {busy p q}, I busy p → Remains .full p q → I busy q)
    (hN : ∀ {stage p q}, N stage p → Remains .full p q → N stage q)
    (hheld : ∀ {busy p} (sink : Option (List Diagnostic))
      (interpolatorErrors : List (NodeId × List Diagnostic)), I busy p →
      I busy { p with sink, interpolatorErrors })
    (hhold : ∀ {p}, N .vertex p → N .vertex { p with sink := some [] })
    (hsettle : ∀ {stage p}, N stage p → I none p)
    (hleave : ∀ {p} (stage : Stage), I none p → I (some stage) p)
    (hreset : ∀ {stage p}, I (some stage) p → N stage (p.restarted stage)) :
    Hosts (fun _ => Eq) (Same (I none)) (fun stage => Same (N stage))
      (fun stage => Same (I (some stage))) where
  toAbsorbs := absorbs_same hI
  fresh _ := absorbs_same hN
  apart _ := absorbs_same hI
  settle _ h := ⟨h.1, hsettle h.2⟩
  leave stage h := ⟨h.1, hleave stage h.2⟩
  reset _ := couples_same fun _ hp => .of_run rfl (hreset hp)
  hold h := ⟨by rw [h.1], hhold h.2⟩
  keep _ h := ⟨by rw [h.1], hheld _ _ h.2⟩
  release h := ⟨by rw [h.1], hheld _ _ h.2⟩
  success h := congrArg success h.1
  summary level message attributes h h' _ := by
    obtain ⟨rfl, -⟩ := h
    exact (absorbs_same hI).note level message _ _ _ h'

end Pass

/-- What is known but for the frames that are clean for a scope. -/
def Register.without (ρ : Register) (k : Nat) : Register := fun f =>
  if ρ f = some (.clean k) then none else ρ f

theorem Register.without_eq_some {k f : Nat} {s : Standing} :
    ρ.without k f = some s ↔ ρ f = some s ∧ s ≠ .clean k := by
  unfold without
  split
  · rename_i h
    rw [h]
    simp [eq_comm]
  · rename_i h
    exact ⟨fun hs => ⟨hs, fun hclean => h (hclean ▸ hs)⟩, And.left⟩

theorem Reserve.Kept.without {R : Reserve} {g : ExpressionGraph} {p : Pass} (h : R.Kept g ρ p)
    (k : Nat) : R.Kept g (ρ.without k) p := by
  refine h.restrict (fun hf => (Register.without_eq_some.1 hf).1) fun hf hb =>
    Register.without_eq_some.2 ⟨hb, fun hclean => ?_⟩
  rw [below_of_covers (covers_of_below hclean)] at hclean
  exact (Register.without_eq_some.1 hf).2 hclean

namespace Pass

/-- A state between compilations. The outermost frame of each stage is open, and clean for the scope
of the stage, unless functions are compiled in it. -/
structure Housed (R : Reserve) (g : ExpressionGraph) (busy : Option Stage) (p : Pass) : Prop where
  unsure : ¬R.sure
  tidy : R.licence.samples = false → p.Tidy
  distinct : Function.Injective p.stageScopes.get
  placed : ∀ stage, p.stageScopes.get stage < p.scopes.length
  frames : ∃ ρ, R.Kept g ρ p ∧ ∀ stage, busy ≠ some stage → ∃ root,
    p.openFrames.get stage = [root] ∧ ρ root = some (.clean (p.stageScopes.get stage))

/-- A state between compilations in which there is nothing in the frame of a stage. -/
def HousedFresh (R : Reserve) (g : ExpressionGraph) (stage : Stage) (p : Pass) : Prop :=
  Housed R g none p ∧ ∃ root, p.openFrames.get stage = [root] ∧ p.frames[root]? = some {}

section Housed

variable {R : Reserve} {g : ExpressionGraph} {busy : Option Stage} {stage : Stage} {p q : Pass}

namespace Housed

theorem neat (h : Housed R g busy p) (k : Nat) : R.Neat k p :=
  ⟨h.tidy, fun hs => absurd hs h.unsure⟩

/-- A step that knows nothing of frames. -/
theorem remains {L : Licence} (h : Housed R g busy p) (hq : Remains L p q) :
    Housed R g busy q := by
  obtain ⟨hunsure, htidy, hdistinct, hplaced, ρ, hkept, hroots⟩ := h
  refine ⟨hunsure, fun hL => (htidy hL).abides hq.toAbides, ?_, fun stage => ?_, ρ,
    hkept.remains hq.toAbides hq.frames, ?_⟩ <;> rw [hq.stageScopes]
  · exact hdistinct
  · exact Nat.lt_of_lt_of_le (hplaced stage) hq.length_scopes
  · rw [hq.openFrames]
    exact hroots

theorem withHeld (h : Housed R g busy p) (sink : Option (List Diagnostic))
    (interpolatorErrors : List (NodeId × List Diagnostic)) :
    Housed R g busy { p with sink, interpolatorErrors } := by
  obtain ⟨hunsure, htidy, hdistinct, hplaced, ρ, hkept, hroots⟩ := h
  refine ⟨hunsure, htidy, hdistinct, hplaced, ρ, ⟨hkept.made, hkept.placed, hkept.calls,
    hkept.shared, fun hf hframe x hx hnode => ?_⟩, hroots⟩
  have hgood := hkept.memo hf hframe x hx hnode
  exact ⟨hgood.ordinary, hgood.pledged, hgood.points, hgood.reported⟩

/-- Functions may be compiled in the frame of a stage. -/
theorem leave (h : Housed R g none p) (stage : Stage) : Housed R g (some stage) p := by
  obtain ⟨ρ, hkept, hroots⟩ := h.frames
  exact { h with frames := ⟨ρ, hkept, fun stage _ => hroots stage (by simp)⟩ }

/-- The frame of a stage is left for a fresh one. -/
theorem restarted (h : Housed R g (some stage) p) : HousedFresh R g stage (p.restarted stage) := by
  obtain ⟨hunsure, htidy, hdistinct, hplaced, ρ, hkept, hroots⟩ := h
  have hconcat := hkept.concat {} (.clean (p.stageScopes.get stage)) rfl rfl
    (fun hk => Standing.clean.inj hk ▸ hplaced stage) fun _ => nofun
  have hopen : (p.restarted stage).openFrames.get stage = [p.frames.length] :=
    StageTable.get_set_self ..
  refine ⟨⟨hunsure, htidy, hdistinct, hplaced, _, hconcat.remains (L := {}) (.of_gauge_eq rfl) rfl,
    fun other _ => ?_⟩, _, hopen, List.getElem?_concat_length⟩
  by_cases hother : other = stage
  · rw [hother]
    exact ⟨p.frames.length, hopen, Function.update_self ..⟩
  · obtain ⟨root, hget, hroot⟩ := hroots other fun h => hother (Option.some.inj h).symm
    refine ⟨root, (StageTable.get_set_of_ne _ hother _).trans hget, ?_⟩
    rw [Function.update_of_ne (Nat.ne_of_lt (hkept.made hroot))]
    exact hroot

/-- What a compilation leads to in which the outermost frames are known. -/
theorem moves (h : Housed R g none p) {quiet : Prop} {ρ ρ' : Register}
    (hq : R.Moves quiet ρ p ρ' q) (hkept : R.Kept g ρ' q)
    (hroots : ∀ stage, busy ≠ some stage → ∃ root,
      p.openFrames.get stage = [root] ∧ ρ root = some (.clean (p.stageScopes.get stage))) :
    Housed R g busy q := by
  refine ⟨h.unsure, fun hL => (h.tidy hL).abides hq.full, ?_, fun stage => ?_, ρ', hkept,
    fun stage hbusy => ?_⟩ <;> rw [hq.full.stageScopes]
  · exact h.distinct
  · exact Nat.lt_of_lt_of_le (h.placed stage) hq.full.length_scopes
  · obtain ⟨root, hopen, hroot⟩ := hroots stage hbusy
    exact ⟨root, (hq.openFrames stage).trans hopen, hq.register hroot⟩

/-- What a stage compiles for its scope. -/
theorem course (h : Housed R g none p) {ctx : Context} (henv : ctx.env = R.env)
    (hscope : ctx.scope = p.stageScopes.get ctx.stage) {quiet : Prop} {α : Type} {m n : PassM α}
    {Q : α → Register → Pass → Prop} (hm : ∀ ρ, R.Course g quiet ρ ctx p m n Q) :
    n p = m p ∧ p.Gives m fun _ q => Housed R g none q ∧ (quiet → Abides R.licence p q) := by
  obtain ⟨ρ, hkept, hroots⟩ := h.frames
  obtain ⟨root, hopen, hroot⟩ := hroots ctx.stage (by simp)
  rw [← hscope] at hroot
  refine (hm ρ henv (.of_clean (h.neat _) (hscope ▸ h.placed _) hkept hopen hroot fun hs =>
    absurd hs h.unsure)).imp_right fun hgives => ?_
  exact hgives.mono fun _ q ⟨ρ', hq, hready, _⟩ => ⟨h.moves hq hready.kept hroots, hq.licensed⟩

end Housed

/-- What a stage compiles for a function. -/
theorem HousedFresh.course {ctx : Context} (h : HousedFresh R g ctx.stage p)
    (henv : ctx.env = R.env) (hk : ctx.scope < p.scopes.length) {quiet : Prop} {α : Type}
    {m n : PassM α} {Q : α → Register → Pass → Prop}
    (hm : ∀ ρ, R.Course g quiet ρ ctx p m n Q) :
    n p = m p ∧ p.Gives m fun _ q => Housed R g (some ctx.stage) q := by
  obtain ⟨h, root, hopen, hempty⟩ := h
  obtain ⟨ρ, hkept, hroots⟩ := h.frames
  let k := p.stageScopes.get ctx.stage
  have hroot : ρ root = some (.clean k) := by
    obtain ⟨root', hopen', hroot'⟩ := hroots ctx.stage (by simp)
    rwa [List.singleton_inj.1 (hopen.symm.trans hopen')]
  -- The stage may keep code of another scope now, in the frame that has nothing in it yet.
  have hkept' : R.Kept g (Function.update (ρ.without k) root (some (.clean ctx.scope))) p :=
    (hkept.without k).register (if_pos hroot) hempty rfl rfl
      (fun hs => Standing.clean.inj hs ▸ hk) fun _ => nofun
  refine (hm _ henv (.of_clean (h.neat _) hk hkept' hopen (Function.update_self ..) fun hs =>
    absurd hs h.unsure)).imp_right fun hgives => ?_
  refine hgives.mono fun _ q ⟨ρ', hq, hready, _⟩ => h.moves hq hready.kept fun stage hbusy => ?_
  obtain ⟨root', hopen', hroot'⟩ := hroots stage (by simp)
  have hscope : p.stageScopes.get stage ≠ k :=
    fun heq => hbusy (congrArg some (h.distinct heq).symm)
  refine ⟨root', hopen', ?_⟩
  rw [Function.update_of_ne]
  · exact Register.without_eq_some.2 ⟨hroot', fun hs => hscope (Standing.clean.inj hs)⟩
  · rintro rfl
    exact hscope (Standing.clean.inj (Option.some.inj (hroot'.symm.trans hroot)))

theorem Housed.hosts : Hosts (fun _ => Eq) (Same (Housed R g none))
    (fun stage => Same (HousedFresh R g stage)) (fun stage => Same (Housed R g (some stage))) :=
  hosts_same (fun hp hq => hp.remains hq)
    (fun ⟨hp, root, hopen, hempty⟩ hq =>
      ⟨hp.remains hq, root, hq.openFrames ▸ hopen, hq.frames ▸ hempty⟩)
    (fun sink errors hp => hp.withHeld sink errors) (fun ⟨hp, hroot⟩ => ⟨hp.withHeld _ _, hroot⟩)
    And.left (fun stage hp => hp.leave stage) fun hp => hp.restarted

theorem housedFresh_opened (hsure : ¬R.sure) (g : ExpressionGraph) (stage : Stage) :
    HousedFresh R g stage opened := by
  have hframe : ∀ {f : Nat} {frame : Frame}, opened.frames[f]? = some frame → frame = {} := by
    intro f frame hf
    exact List.eq_of_mem_replicate (List.mem_of_getElem? hf)
  have hscope : ∀ k, opened.scope k = [] := by
    intro k
    unfold scope opened
    rw [List.getD_eq_getElem?_getD, List.getElem?_replicate]
    split <;> rfl
  let ρ : Register := fun f => if f < 5 then some (.clean f) else none
  have hlt : ∀ {f : Nat} {s : Standing}, ρ f = some s → f < 5 ∧ s = .clean f := by
    intro f s hf
    by_cases h : f < 5
    · simp only [ρ, if_pos h] at hf
      exact ⟨h, (Option.some.inj hf).symm⟩
    · simp only [ρ, if_neg h] at hf
      cases hf
  refine ⟨⟨hsure, fun _ k c hc => ?_, fun a b hab => ?_, fun stage => ?_, ρ,
    ⟨fun hf => (hlt hf).1, fun hf => ?_, fun _ hf hcall => ?_, fun _ hf x hx => ?_,
      fun _ hf x hx => ?_⟩, fun stage _ => ?_⟩, ?_⟩
  · rw [hscope] at hc
    cases hc
  · cases a <;> cases b <;> first | rfl | cases hab
  · cases stage <;> decide
  · obtain ⟨hf, hclean⟩ := hlt hf
    rw [Standing.clean.inj hclean]
    exact hf
  · rw [hframe hf] at hcall
    cases hcall
  · rw [hframe hf] at hx
    cases hx
  · rw [hframe hf] at hx
    cases hx
  · cases stage <;> exact ⟨_, rfl, rfl⟩
  · cases stage <;> exact ⟨_, rfl, rfl⟩

end Housed

end Pass

namespace Graph

variable {R : Reserve} {g g' : Graph}

/-- A custom output asks for code in its own context only. -/
theorem compileOutput_congr {id : NodeId} {e : Expression} {out : CustomOutput}
    (he : g.expressions.node? id = some e) (hout : e.customOutput? = some out) {c d : Compiler}
    {ctx : Context} (h : ∀ input, c ctx input = d ctx input) (output : Int) :
    e.compile c ctx output = e.compile d ctx output := by
  obtain ⟨node, -, rfl⟩ := exists_node he
  cases node with
  | customOutput settings inputs =>
    show Node.compileOutput c ctx settings inputs output =
      Node.compileOutput d ctx settings inputs output
    simp only [Node.compileOutput, h]
  | _ => cases hout

/-- **All that a material asks for** is compiled the same with two graphs whose nodes are alike in a
reserve, if the properties are. -/
theorem compileAll_housed (hsure : ¬R.sure)
    (hg : R.Matches g.expressions g'.expressions)
    (hdepth : g'.expressions.depth = g.expressions.depth) {d : Compiler}
    (hd : ∀ {ctx : Context} (input : Input), ctx.property = none →
      d ctx input = g'.expressions.compile ctx input)
    (hproperty : ∀ (property : Property) {p : Pass},
      (property = .emissiveColorCompute → R.env.material.domain = .lightFunction) →
      Housed R g.expressions none p → ∀ {ctx : Context},
      ctx = propertyContext R.env property (p.stageScopes.get property.stage) →
      d ctx (R.env.material.inputs.get property.base) p =
          g.expressions.compile ctx (R.env.material.inputs.get property.base) p ∧
        p.Gives (g.expressions.compile ctx (R.env.material.inputs.get property.base))
          fun _ q => Housed R g.expressions none q)
    (hvirtual : R.env.options.virtualTexturing →
      virtualTextureProblems R.env.material g.expressions =
        virtualTextureProblems R.env.material g'.expressions) :
    compileAll R.env g'.expressions d opened =
      compileAll R.env g.expressions g.expressions.compile opened := by
  have hc : R.Compiles g.expressions g.expressions.compile g'.expressions.compile :=
    Reserve.compile_course hg hdepth
  refine (compileAll_couples Housed.hosts ⟨fun property p q hdomain hpq => ?_, fun id => ?_,
    fun id => ?_, hvirtual⟩ opened opened ⟨rfl, housedFresh_opened hsure g.expressions .vertex⟩).eq
  · obtain ⟨rfl, hp⟩ := hpq
    obtain ⟨hsame, hgives⟩ := hproperty property hdomain hp rfl
    exact agree_same hsame hgives
  · rcases hg id with ⟨h, h'⟩ | ⟨e, e', h, h', halike⟩ <;> simp only [h, h', Option.bind_some,
      Option.bind_none]
    · exact .inl ⟨trivial, trivial⟩
    have hvertex : e'.vertexInput? = e.vertexInput? := by rw [halike.eq]
    rw [hvertex]
    cases e.vertexInput? with
    | none => exact .inl ⟨rfl, rfl⟩
    | some i =>
      refine .inr ⟨i, i, rfl, rfl, fun ctx hctx hstage => ?_⟩
      rintro p _ ⟨⟨rfl, hp⟩, hscope⟩
      rw [← hstage] at hp ⊢
      obtain ⟨hsame, hgives⟩ := hp.course hctx.env_eq hscope fun ρ =>
        hc (fun h : False => h.elim)
      exact agree_same ((congrFun (hd i hctx.property) p).trans hsame) hgives
  · rcases hg id with ⟨h, h'⟩ | ⟨e, e', h, h', halike⟩
    · exact .inl (by simp [h, h'])
    have hout : e'.customOutput? = e.customOutput? := by rw [halike.eq]
    cases hcustom : e.customOutput? with
    | none => exact .inl (by simp [h, h', hout, hcustom])
    | some out =>
      refine .inr ⟨e, e', out, h, h', hcustom, hout.trans hcustom, fun ctx output hctx _ => ?_⟩
      rw [compileOutput_congr h' (hout.trans hcustom) (fun input => hd input hctx.property)]
      rintro p _ ⟨⟨rfl, hp⟩, hscope⟩
      have hcall : e.call? = none := by
        obtain ⟨node, -, rfl⟩ := exists_node h
        cases node with
        | functionCall => cases hcustom
        | _ => rfl
      obtain ⟨hsame, hgives⟩ := hp.course hctx.env_eq hscope fun ρ =>
        halike.compile output hc (fun h : False => h.elim) fun call h => by
          cases hcall.symm.trans h
      exact agree_same hsame hgives

end Graph

end ShaderGraph
