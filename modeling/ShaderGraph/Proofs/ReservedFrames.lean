import ShaderGraph.Proofs.OrdinaryCode
import ShaderGraph.Proofs.TrackedExpressions

/-!
# Frames of a reserve

A reserve is a set of nodes, closed under reading, of whose code more is asked than of any other:
that compiling them does nothing that needs a licence they do not have, that their code is ordinary
if they have none to sample virtual textures, that code which is missing was reported, or that what
is there points to chunks of some kind.

What was compiled before can be handed on from a frame, so the frames have to keep good code for the
nodes of the reserve. Not all of them do: the nodes of a function may be in the reserve and the
arguments of a call of it not, and what is compiled in the frame of such a call reads the arguments.
A register says which frames are clean and which are mixed (`Reserve.Kept`). The frame of a call is
as clean as the frame that the call is in, if the arguments are in the reserve, so that the clean
frames are the outer ones (`Reserve.Ladder`).

`Reserve.Course` says of two steps that they do the same and keep all that; if they are quiet, they
start in a clean frame and stay within the reserve. The compilations with two graphs are such steps
if those of their nodes are (`Reserve.compileAt_course`). A node that is compiled differently may
count on what the frames keep for the nodes of the reserve.
-/

namespace ShaderGraph

open Pass

/-- The terms under which whatever is missing was reported. -/
def Terms.outspoken : Terms := { loud := True, lax := True }

/-- Nodes of whose code more is asked. -/
structure Reserve where
  env : Environment
  nodes : NodeId → Prop
  /-- What may be done to compile the nodes besides emitting code. Without a licence to sample
  virtual textures, the code of the nodes is ordinary. -/
  licence : Licence
  /-- Where an interpolator is read, what was held back for it is reported. -/
  reports : licence.reports = true
  /-- Whether code of the nodes that is missing was reported. -/
  sure : Bool
  /-- The chunks that code of the nodes points to, if that is said. Such nodes read nothing. -/
  pledge : Option (Chunk → Prop) := none

/-- What is known of a frame. -/
inductive Standing where
  /-- It may keep any code. -/
  | mixed
  /-- What it keeps for the nodes of a reserve is good code of a scope. -/
  | clean (scope : Nat)
deriving DecidableEq

/-- What is known of the frames. -/
abbrev Register := Nat → Option Standing

/-- Of one frame it is known that it is clean. -/
def Register.only (f k : Nat) : Register := Function.update (fun _ => none) f (some (.clean k))

namespace Reserve

/-! ### Good code -/

/-- Code as it is asked of the nodes of a reserve. -/
structure Good (R : Reserve) (k : Nat) (c : Code) (p : Pass) : Prop where
  ordinary : R.licence.samples = false → p.Refers k (·.type ≠ .textureVirtual) c
  pledged : ∀ T ∈ R.pledge, p.Refers k T c
  points : R.sure → ∀ i, c = some i → i < (p.scope k).length
  reported : R.sure → c = none → p.success = false

/-- The code that is given for an input: there is none for an input that is not connected. -/
def Answers (R : Reserve) (k : Nat) (input : Input) (c : Code) (p : Pass) : Prop :=
  R.Good k c p ∨ ¬input.isConnected ∧ c = none

/-- A state in which code of a scope can be good. -/
structure Neat (R : Reserve) (k : Nat) (p : Pass) : Prop where
  tidy : R.licence.samples = false → p.Tidy
  fit : R.sure → p.Fit .outspoken R.env k

section Good

variable {R : Reserve} {L : Licence} {k : Nat} {c : Code} {input : Input} {ctx : Context}
variable {p q : Pass}

theorem length_scope_le (hq : Abides L p q) : (p.scope k).length ≤ (q.scope k).length := by
  obtain ⟨more, hmore, -⟩ := hq.scopes k
  rw [hmore, List.length_append]
  exact Nat.le_add_right _ _

theorem Good.mono (h : R.Good k c p) (hq : Abides L p q) : R.Good k c q :=
  ⟨fun hL => hq.refers (h.ordinary hL), fun T hT => hq.refers (h.pledged T hT), fun hs i hi =>
    Nat.lt_of_lt_of_le (h.points hs i hi) (length_scope_le hq), fun hs hc =>
    hq.failed (h.reported hs hc)⟩

/-- Only the frames change. -/
theorem Good.of_gauge_eq (h : R.Good k c p) (hq : q.gauge = p.gauge) : R.Good k c q :=
  h.mono (L := {}) (.of_gauge_eq hq)

theorem Good.of_none (h : R.sure → p.success = false) : R.Good k none p :=
  ⟨fun _ => .none, fun _ _ => .none, fun _ => nofun, fun hs _ => h hs⟩

theorem Good.holds (h : R.Good ctx.scope c p) (hs : R.sure) : ctx.Holds .outspoken c p :=
  ⟨h.points hs, fun _ => h.reported hs⟩

theorem Answers.good (h : R.Answers k input c p) (hinput : R.sure → input.isConnected) :
    R.Good k c p := by
  rcases h with h | ⟨hnone, rfl⟩
  · exact h
  · exact .of_none fun hs => absurd (hinput hs) hnone

/-- Only the frames change. -/
theorem Neat.of_frames (h : R.Neat k p) {frames : List Frame}
    {openFrames : StageTable (List Nat)} (hq : q = { p with frames, openFrames }) :
    R.Neat k q := by
  refine ⟨?_, fun hs => (h.fit hs).of_frames hq⟩
  subst hq
  exact h.tidy

end Good

/-! ### Frames -/

/-- What a call hands to its function is in the reserve. -/
def Covers (R : Reserve) (call : Call) : Prop :=
  R.pledge = none → ∀ index, (call.argument index).isConnected → R.nodes (call.argument index).node

open Classical in
/-- The standing of the frame of a call in a frame of the given standing. -/
noncomputable def below (R : Reserve) (s : Standing) (call : Call) : Standing :=
  if R.Covers call then s else .mixed

/-- The frames of a state are as a register says. -/
structure Kept (R : Reserve) (g : ExpressionGraph) (ρ : Register) (p : Pass) : Prop where
  made : ∀ {f : Nat} {s : Standing}, ρ f = some s → f < p.frames.length
  placed : ∀ {f k : Nat}, ρ f = some (.clean k) → k < p.scopes.length
  calls : ∀ {f k : Nat} {frame : Frame} {call : Call}, ρ f = some (.clean k) →
    p.frames[f]? = some frame → frame.call = some call → R.Covers call
  /-- The frame of a call is as clean as the call allows. -/
  shared : ∀ {f : Nat} {s : Standing} {frame : Frame}, ρ f = some s →
    p.frames[f]? = some frame → ∀ x ∈ frame.shared, ∃ e call, g.node? x.1.node = some e ∧
      e.call? = some call ∧ ρ x.2 = some (R.below s call)
  memo : ∀ {f k : Nat} {frame : Frame}, ρ f = some (.clean k) → p.frames[f]? = some frame →
    ∀ x ∈ frame.memo, R.nodes x.1.node → R.Good k x.2 p

/-- The open frames, the innermost first: clean ones below mixed ones. -/
inductive Ladder (ρ : Register) (k : Nat) : List Nat → Prop where
  | clean {stack : List Nat} (h : ∀ f ∈ stack, ρ f = some (.clean k)) : Ladder ρ k stack
  | mixed {f : Nat} {stack : List Nat} (h : ρ f = some .mixed) (hrest : Ladder ρ k stack) :
    Ladder ρ k (f :: stack)

section Frames

variable {R : Reserve} {g : ExpressionGraph} {ρ ρ' : Register} {k : Nat} {p q : Pass} {call : Call}

theorem below_of_covers (h : R.Covers call) (s : Standing) : R.below s call = s :=
  if_pos h

theorem covers_of_below {s : Standing} (h : R.below s call = .clean k) : R.Covers call := by
  unfold below at h
  split at h
  · assumption
  · cases h

namespace Kept

variable {L : Licence}

/-- The frames that the register speaks of stay as they are. -/
theorem untouched (h : R.Kept g ρ p) (hq : Abides L p q)
    (hlength : p.frames.length ≤ q.frames.length)
    (hframes : ∀ {f s}, ρ f = some s → q.frames[f]? = p.frames[f]?) : R.Kept g ρ q := by
  refine ⟨fun hρ => Nat.lt_of_lt_of_le (h.made hρ) hlength,
    fun hρ => Nat.lt_of_lt_of_le (h.placed hρ) hq.length_scopes, fun hρ hframe => ?_,
    fun hρ hframe => ?_, fun hρ hframe x hx hnode => ?_⟩ <;> rw [hframes hρ] at hframe
  · exact h.calls hρ hframe
  · exact h.shared hρ hframe
  · exact (h.memo hρ hframe x hx hnode).mono hq

/-- The frames stay as they are. -/
theorem remains (h : R.Kept g ρ p) (hq : Abides L p q) (hframes : q.frames = p.frames) :
    R.Kept g ρ q :=
  h.untouched hq (Nat.le_of_eq (by rw [hframes])) fun _ => by rw [hframes]

/-- A frame may change if what it has more is as the register says. -/
theorem withFrame (h : R.Kept g ρ p) {f : Nat} {u : Frame → Frame}
    (hcall : ∀ {k frame call}, ρ f = some (.clean k) → (u frame).call = some call →
      frame.call = some call ∨ R.Covers call)
    (hshared : ∀ {s frame}, ρ f = some s → ∀ x ∈ (u frame).shared, x ∈ frame.shared ∨
      ∃ e call, g.node? x.1.node = some e ∧ e.call? = some call ∧ ρ x.2 = some (R.below s call))
    (hmemo : ∀ {k frame}, ρ f = some (.clean k) → ∀ x ∈ (u frame).memo, x ∈ frame.memo ∨
      (R.nodes x.1.node → R.Good k x.2 p)) : R.Kept g ρ (p.withFrame f u) := by
  have hold : ∀ {f' : Nat} {frame' : Frame}, (p.withFrame f u).frames[f']? = some frame' →
      ∃ frame, p.frames[f']? = some frame ∧ (frame' = frame ∨ f' = f ∧ frame' = u frame) := by
    intro f' frame' hget
    rw [Pass.withFrame, List.getElem?_modify] at hget
    obtain ⟨frame, hframe, hsame⟩ := Option.map_eq_some_iff.1 hget
    refine ⟨frame, hframe, ?_⟩
    split at hsame
    · rename_i hf
      exact .inr ⟨hf.symm, hsame.symm⟩
    · exact .inl hsame.symm
  refine ⟨fun hρ => ?_, h.placed, fun hρ hget hc => ?_, fun hρ hget x hx => ?_,
    fun {f' k frame'} hρ hget x hx hnode => ?_⟩
  · rw [Pass.withFrame, List.length_modify]
    exact h.made hρ
  · obtain ⟨frame, hframe, rfl | ⟨rfl, rfl⟩⟩ := hold hget
    · exact h.calls hρ hframe hc
    · exact (hcall hρ hc).elim (h.calls hρ hframe) id
  · obtain ⟨frame, hframe, rfl | ⟨rfl, rfl⟩⟩ := hold hget
    · exact h.shared hρ hframe x hx
    · exact (hshared hρ x hx).elim (h.shared hρ hframe x) id
  · have hgood : R.Good k x.2 p := by
      obtain ⟨frame, hframe, rfl | ⟨rfl, rfl⟩⟩ := hold hget
      · exact h.memo hρ hframe x hx hnode
      · exact (hmemo hρ x hx).elim (fun hx => h.memo hρ hframe x hx hnode) (· hnode)
    exact hgood.of_gauge_eq rfl

/-- A frame in which there is nothing may be spoken of. -/
theorem register (h : R.Kept g ρ p) {f : Nat} {frame : Frame} {s : Standing} (hf : ρ f = none)
    (hframe : p.frames[f]? = some frame) (hmemo : frame.memo = []) (hshared : frame.shared = [])
    (hplaced : ∀ {k}, s = .clean k → k < p.scopes.length)
    (hcall : ∀ {k call}, s = .clean k → frame.call = some call → R.Covers call) :
    R.Kept g (Function.update ρ f (some s)) p := by
  have hgrows : ∀ {f' s'}, ρ f' = some s' → Function.update ρ f (some s) f' = some s' := by
    intro f' s' hρ
    rwa [Function.update_of_ne fun heq => by cases hf.symm.trans (heq ▸ hρ)]
  have hold : ∀ {f' s'}, Function.update ρ f (some s) f' = some s' →
      (f' = f ∧ s = s') ∨ ρ f' = some s' := by
    intro f' s' hρ
    by_cases hf' : f' = f
    · rw [hf', Function.update_self] at hρ
      exact .inl ⟨hf', Option.some.inj hρ⟩
    · rw [Function.update_of_ne hf'] at hρ
      exact .inr hρ
  have hsame : ∀ {frame'}, p.frames[f]? = some frame' → frame = frame' := fun hget =>
    Option.some.inj (hframe.symm.trans hget)
  refine ⟨fun hρ => ?_, fun hρ => ?_, fun hρ hget hc => ?_, fun hρ hget x hx => ?_,
    fun hρ hget x hx hnode => ?_⟩ <;> rcases hold hρ with ⟨rfl, hs⟩ | hρ
  · exact (List.getElem?_eq_some_iff.1 hframe).1
  · exact h.made hρ
  · exact hplaced hs
  · exact h.placed hρ
  · exact hcall hs (hsame hget ▸ hc)
  · exact h.calls hρ hget hc
  · rw [← hsame hget, hshared] at hx
    cases hx
  · obtain ⟨e, call, he, hcall, hchild⟩ := h.shared hρ hget x hx
    exact ⟨e, call, he, hcall, hgrows hchild⟩
  · rw [← hsame hget, hmemo] at hx
    cases hx
  · exact h.memo hρ hget x hx hnode

/-- A frame is added. -/
theorem append (h : R.Kept g ρ p) (frame : Frame) :
    R.Kept g ρ { p with frames := p.frames ++ [frame] } :=
  h.untouched (L := {}) (.of_gauge_eq rfl) (by simp) fun hρ =>
    List.getElem?_append_left (h.made hρ)

/-- Nothing is known of frames that are not there yet. -/
theorem unknown (h : R.Kept g ρ p) : ρ p.frames.length = none := by
  cases hρ : ρ p.frames.length with
  | none => rfl
  | some s => exact absurd (h.made hρ) (Nat.lt_irrefl _)

/-- A frame may be added in which there is nothing. -/
theorem concat (h : R.Kept g ρ p) (frame : Frame) (s : Standing) (hmemo : frame.memo = [])
    (hshared : frame.shared = []) (hplaced : ∀ {k}, s = .clean k → k < p.scopes.length)
    (hcall : ∀ {k call}, s = .clean k → frame.call = some call → R.Covers call) :
    R.Kept g (Function.update ρ p.frames.length (some s))
      { p with frames := p.frames ++ [frame] } :=
  (h.append frame).register h.unknown List.getElem?_concat_length hmemo hshared hplaced hcall

/-- Less may be known, if of a frame and those of its calls nothing is known together. -/
theorem restrict (h : R.Kept g ρ p) (hρ : ∀ {f s}, ρ' f = some s → ρ f = some s)
    (hcalls : ∀ {f s call b}, ρ' f = some s → ρ b = some (R.below s call) →
      ρ' b = some (R.below s call)) : R.Kept g ρ' p :=
  ⟨fun hf => h.made (hρ hf), fun hf => h.placed (hρ hf), fun hf => h.calls (hρ hf),
    fun hf hframe x hx => by
      obtain ⟨e, call, he, hcall, hchild⟩ := h.shared (hρ hf) hframe x hx
      exact ⟨e, call, he, hcall, hcalls hf hchild⟩,
    fun hf => h.memo (hρ hf)⟩

/-- Nothing is known. -/
theorem nothing (R : Reserve) (g : ExpressionGraph) (p : Pass) : R.Kept g (fun _ => none) p :=
  ⟨nofun, nofun, nofun, nofun, nofun⟩

end Kept

namespace Ladder

variable {f b home : Nat} {stack : List Nat} {s : Standing} {call : Call}

theorem mono (h : Ladder ρ k stack) (hρ : ∀ {f s}, ρ f = some s → ρ' f = some s) :
    Ladder ρ' k stack := by
  induction h with
  | clean h => exact .clean fun f hf => hρ (h f hf)
  | mixed h _ ih => exact .mixed (hρ h) ih

theorem tail (h : Ladder ρ k (f :: stack)) : Ladder ρ k stack := by
  cases h with
  | clean h => exact .clean fun f' hf' => h f' (List.mem_cons_of_mem _ hf')
  | mixed _ hrest => exact hrest

/-- There is something known of each open frame. -/
theorem known (h : Ladder ρ k stack) : ∀ f ∈ stack, ∃ s, ρ f = some s := by
  induction h with
  | clean h => exact fun f hf => ⟨_, h f hf⟩
  | mixed h _ ih =>
    intro f hf
    rcases List.mem_cons.1 hf with rfl | hf
    · exact ⟨_, h⟩
    · exact ih f hf

/-- All frames are clean if the innermost one is. -/
theorem clean_of_head (h : Ladder ρ k (f :: stack)) {k' : Nat} (hf : ρ f = some (.clean k')) :
    ∀ f' ∈ f :: stack, ρ f' = some (.clean k) := by
  cases h with
  | clean h => exact h
  | mixed h => cases hf.symm.trans h

/-- The frame of a call is opened. -/
theorem push (h : Ladder ρ k (home :: stack)) (hhome : ρ home = some s)
    (hb : ρ b = some (R.below s call)) : Ladder ρ k (b :: home :: stack) := by
  by_cases hcall : R.Covers call
  · rw [below_of_covers hcall] at hb
    cases h with
    | clean h =>
      obtain rfl := Option.some.inj (hhome.symm.trans (h home List.mem_cons_self))
      refine .clean fun f hf => (List.mem_cons.1 hf).elim (fun hf => hf ▸ hb) (h f)
    | mixed h hrest =>
      cases hhome.symm.trans h
      exact .mixed hb (.mixed h hrest)
  · exact .mixed (hb.trans (congrArg some (if_neg hcall))) h

end Ladder

end Frames

/-! ### Courses -/

/-- All open frames are clean where a step is quiet. They always are where code is pledged. -/
def Firm (R : Reserve) (quiet : Prop) : Prop := quiet ∨ R.pledge ≠ none

/-- A state in which an expression can be compiled: quietly if the open frames are clean. -/
structure Ready (R : Reserve) (g : ExpressionGraph) (quiet : Prop) (ρ : Register) (stage : Stage)
    (k : Nat) (p : Pass) : Prop where
  neat : R.Neat k p
  placed : R.Firm quiet → k < p.scopes.length
  kept : R.Kept g ρ p
  ladder : Ladder ρ k (p.openFrames.get stage)
  clean : R.Firm quiet → ∀ f ∈ p.openFrames.get stage, ρ f = some (.clean k)
  /-- What has to be reported is not known of other nodes. -/
  quiet : R.sure → quiet

/-- What a step does to the frames: those that are known stay so, only new ones come to them, the
others are left as they are, and the same are open. -/
structure Moves (R : Reserve) (quiet : Prop) (ρ : Register) (p : Pass) (ρ' : Register)
    (q : Pass) : Prop where
  register : ∀ {f : Nat} {s : Standing}, ρ f = some s → ρ' f = some s
  fresh : ∀ {f : Nat}, ρ f = none → f < p.frames.length → ρ' f = none
  length_le : p.frames.length ≤ q.frames.length
  outside : ∀ {f : Nat}, ρ f = none → f < p.frames.length → q.frames[f]? = p.frames[f]?
  openFrames : ∀ stage, q.openFrames.get stage = p.openFrames.get stage
  full : Abides .full p q
  licensed : quiet → Abides R.licence p q

/-- From a state in which an expression can be compiled, the second step does what the first one
does, which leads to another such state, and a result as `Q` says. -/
def Course (R : Reserve) (g : ExpressionGraph) (quiet : Prop) (ρ : Register) (ctx : Context)
    (p : Pass) {α : Type} (m n : PassM α) (Q : α → Register → Pass → Prop) : Prop :=
  ctx.env = R.env → R.Ready g quiet ρ ctx.stage ctx.scope p → n p = m p ∧
    p.Gives m fun a q => ∃ ρ', R.Moves quiet ρ p ρ' q ∧
      R.Ready g quiet ρ' ctx.stage ctx.scope q ∧ Q a ρ' q

/-- From a state in which an expression can be compiled, two steps that do the same, and give good
code if they are quiet. -/
abbrev Earns (R : Reserve) (g : ExpressionGraph) (quiet : Prop) (ρ : Register) (ctx : Context)
    (p : Pass) (m n : PassM Code) : Prop :=
  R.Course g quiet ρ ctx p m n fun c _ q => quiet → R.Good ctx.scope c q

section Courses

variable {R : Reserve} {g : ExpressionGraph} {quiet : Prop} {ρ ρ' ρ'' : Register} {ctx : Context}
variable {stage : Stage} {k : Nat} {p q r : Pass}
variable {e : Expression} {f : Nat} {s : Standing} {u : Frame → Frame} {frame : Frame}
variable {g' : ExpressionGraph}

namespace Moves

theorem refl (R : Reserve) (quiet : Prop) (ρ : Register) (p : Pass) : R.Moves quiet ρ p ρ p :=
  ⟨id, fun h _ => h, le_rfl, fun _ _ => rfl, fun _ => rfl, .refl p, fun _ => .refl p⟩

theorem trans (h : R.Moves quiet ρ p ρ' q) (h' : R.Moves quiet ρ' q ρ'' r) :
    R.Moves quiet ρ p ρ'' r := by
  refine ⟨fun hρ => h'.register (h.register hρ), fun hρ hf => ?_, h.length_le.trans h'.length_le,
    fun hρ hf => ?_, fun stage => (h'.openFrames stage).trans (h.openFrames stage),
    h.full.trans h'.full, fun hquiet => (h.licensed hquiet).trans (h'.licensed hquiet)⟩
  · exact h'.fresh (h.fresh hρ hf) (Nat.lt_of_lt_of_le hf h.length_le)
  · rw [h'.outside (h.fresh hρ hf) (Nat.lt_of_lt_of_le hf h.length_le), h.outside hρ hf]

/-- Good code stays good. -/
theorem keeps (h : R.Moves quiet ρ p ρ' q) {c : Code} (hc : quiet → R.Good k c p) :
    quiet → R.Good k c q := fun hquiet => (hc hquiet).mono h.full

theorem of_remains (h : Remains .full p q) (hlicensed : quiet → Abides R.licence p q) :
    R.Moves quiet ρ p ρ q :=
  ⟨id, fun h _ => h, by rw [h.frames], fun _ _ => by rw [h.frames], fun _ => by rw [h.openFrames],
    h.toAbides, hlicensed⟩

/-- A frame that is known changes. -/
theorem withFrame {f : Nat} {s : Standing} (hf : ρ f = some s) (u : Frame → Frame) :
    R.Moves quiet ρ p ρ (p.withFrame f u) := by
  refine ⟨id, fun h _ => h, ?_, fun {f'} hρ _ => ?_, fun _ => rfl, .of_gauge_eq rfl,
    fun _ => .of_gauge_eq rfl⟩
  · rw [Pass.withFrame, List.length_modify]
  · have hne : f ≠ f' := by
      rintro rfl
      cases hf.symm.trans hρ
    simp [Pass.withFrame, hne]

/-- A frame comes to those that are known. -/
theorem concat (hkept : R.Kept g ρ p) (s : Standing) (frame : Frame) :
    R.Moves quiet ρ p (Function.update ρ p.frames.length (some s))
      { p with frames := p.frames ++ [frame] } := by
  refine ⟨fun hρ => ?_, fun hρ hf => ?_, by simp, fun _ hf => List.getElem?_append_left hf,
    fun _ => rfl, .of_gauge_eq rfl, fun _ => .of_gauge_eq rfl⟩
  · rwa [Function.update_of_ne (Nat.ne_of_lt (hkept.made hρ))]
  · rwa [Function.update_of_ne (Nat.ne_of_lt hf)]

/-- A step in other open frames, which are then left. -/
theorem within {p' : Pass} {stack : List Nat} (h : R.Moves quiet ρ (p'.withStack stage stack) ρ' r)
    (hstart : R.Moves quiet ρ p ρ p') :
    R.Moves quiet ρ p ρ' (r.withStack stage (p.openFrames.get stage)) := by
  have hend : ∀ {L}, Abides L r (r.withStack stage (p.openFrames.get stage)) := .of_gauge_eq rfl
  have hopened : ∀ {L}, Abides L p' (p'.withStack stage stack) := .of_gauge_eq rfl
  refine ⟨h.register, fun hρ hf => h.fresh hρ (Nat.lt_of_lt_of_le hf hstart.length_le),
    hstart.length_le.trans h.length_le, fun hρ hf => ?_, fun other => ?_,
    (hstart.full.trans (hopened.trans h.full)).trans hend, fun hquiet =>
      ((hstart.licensed hquiet).trans (hopened.trans (h.licensed hquiet))).trans hend⟩
  · exact (h.outside hρ (Nat.lt_of_lt_of_le hf hstart.length_le)).trans (hstart.outside hρ hf)
  · by_cases hother : other = stage
    · rw [hother]
      exact StageTable.get_set_self ..
    · calc (r.withStack stage (p.openFrames.get stage)).openFrames.get other
        _ = r.openFrames.get other := StageTable.get_set_of_ne _ hother _
        _ = (p'.withStack stage stack).openFrames.get other := h.openFrames other
        _ = p'.openFrames.get other := StageTable.get_set_of_ne _ hother _
        _ = p.openFrames.get other := hstart.openFrames other

end Moves

namespace Ready

variable {root : Nat}

/-- The same frames are open. -/
theorem moves (h : R.Ready g quiet ρ stage k p) (hq : R.Moves quiet ρ p ρ' q)
    (hkept : R.Kept g ρ' q) (hfit : R.sure → q.Fit .outspoken R.env k) :
    R.Ready g quiet ρ' stage k q := by
  refine ⟨⟨fun hL => (h.neat.tidy hL).abides hq.full, hfit⟩, fun hfirm =>
    Nat.lt_of_lt_of_le (h.placed hfirm) hq.full.length_scopes, hkept, ?_, fun hfirm => ?_,
    h.quiet⟩ <;> rw [hq.openFrames]
  · exact h.ladder.mono hq.register
  · exact fun f hf => hq.register (h.clean hfirm f hf)

/-- A frame that is known changes. -/
theorem withFrame (h : R.Ready g quiet ρ stage k p) {f : Nat} {s : Standing} (hf : ρ f = some s)
    {u : Frame → Frame} (hkept : R.Kept g ρ (p.withFrame f u)) :
    R.Ready g quiet ρ stage k (p.withFrame f u) :=
  h.moves (.withFrame hf u) hkept fun hs => (h.neat.fit hs).of_frames rfl

/-- Other frames are open. -/
theorem withStack (h : R.Ready g quiet ρ stage k p) {stack : List Nat} (hladder : Ladder ρ k stack)
    (hclean : R.Firm quiet → ∀ f ∈ stack, ρ f = some (.clean k)) :
    R.Ready g quiet ρ stage k (p.withStack stage stack) := by
  have hget : (p.withStack stage stack).openFrames.get stage = stack := StageTable.get_set_self ..
  refine ⟨h.neat.of_frames rfl, h.placed, h.kept.remains (L := {}) (.of_gauge_eq rfl) rfl,
    ?_, ?_, h.quiet⟩ <;> rw [hget]
  · exact hladder
  · exact hclean

/-- A state with one open frame, which is clean. -/
theorem of_clean (hneat : R.Neat k p) (hplaced : k < p.scopes.length) (hkept : R.Kept g ρ p)
    (hopen : p.openFrames.get stage = [root]) (hroot : ρ root = some (.clean k))
    (hquiet : R.sure → quiet) : R.Ready g quiet ρ stage k p := by
  have hclean : ∀ f ∈ p.openFrames.get stage, ρ f = some (.clean k) := by
    intro f hf
    rw [hopen] at hf
    rw [List.mem_singleton.1 hf, hroot]
  exact ⟨hneat, fun _ => hplaced, hkept, .clean hclean, fun _ => hclean, hquiet⟩

/-- A state with one open frame, in which there is nothing. -/
theorem fresh (hneat : R.Neat k p) (hplaced : k < p.scopes.length)
    (hroot : p.openFrames.get stage = [root]) (hframe : p.frames[root]? = some {})
    (hquiet : R.sure → quiet) : R.Ready g quiet (.only root k) stage k p :=
  .of_clean hneat hplaced ((Kept.nothing R g p).register rfl hframe rfl rfl
    (fun hk => Standing.clean.inj hk ▸ hplaced) fun _ => nofun) hroot (Function.update_self ..)
    hquiet

end Ready

namespace Course

variable {α β : Type} {m m' : PassM α} {f f' : α → PassM β} {n : PassM Code}
variable {Q : α → Register → Pass → Prop} {S : β → Register → Pass → Prop}

theorem pure {a : α} (h : Q a ρ p) : R.Course g quiet ρ ctx p (pure a) (pure a) Q :=
  fun _ hp => ⟨rfl, .pure ⟨ρ, .refl R quiet ρ p, hp, h⟩⟩

theorem throw (e : Fault) : R.Course g quiet ρ ctx p (throw e : PassM α) (throw e) Q :=
  fun _ _ => ⟨rfl, .throw e⟩

theorem bind (hm : R.Course g quiet ρ ctx p m m' Q)
    (hf : ∀ a ρ' q, R.Moves quiet ρ p ρ' q → Q a ρ' q →
      R.Course g quiet ρ' ctx q (f a) (f' a) S) :
    R.Course g quiet ρ ctx p (m >>= f) (m' >>= f') S := by
  intro henv hp
  obtain ⟨hsame, hgives⟩ := hm henv hp
  refine ⟨(bind_congr_run hsame f').trans ?_, hgives.bind fun a q ⟨ρ', hq, hready, ha⟩ => ?_⟩
  · cases hrun : m p with
    | error e q => exact (Observed.bind_of_error hrun _).trans (Observed.bind_of_error hrun _).symm
    | ok a q =>
      obtain ⟨ρ', hq, hready, ha⟩ := hgives a q hrun
      rw [bind_of_ok hrun, bind_of_ok hrun]
      exact (hf a ρ' q hq ha henv hready).1
  · refine (hf a ρ' q hq ha henv hready).2.mono fun b r ⟨ρ'', hr, hready', hb⟩ => ?_
    exact ⟨ρ'', hq.trans hr, hready', hb⟩

theorem mono {Q' : α → Register → Pass → Prop} (hm : R.Course g quiet ρ ctx p m m' Q)
    (h : ∀ a ρ' q, R.Moves quiet ρ p ρ' q → Q a ρ' q → Q' a ρ' q) :
    R.Course g quiet ρ ctx p m m' Q' := fun henv hp =>
  (hm henv hp).imp_right fun hgives => hgives.mono fun a q ⟨ρ', hq, hready, ha⟩ =>
    ⟨ρ', hq, hready, h a ρ' q hq ha⟩

theorem get_bind {k k' : Pass → PassM β} (h : R.Course g quiet ρ ctx p (k p) (k' p) S) :
    R.Course g quiet ρ ctx p (get >>= k) (get >>= k') S := h

/-- What holds of the state may be used. -/
theorem of_ready (h : R.Ready g quiet ρ ctx.stage ctx.scope p → R.Course g quiet ρ ctx p m m' Q) :
    R.Course g quiet ρ ctx p m m' Q := fun henv hp => h hp henv hp

/-- What a step gives may be found out apart. -/
theorem giving (hm : R.Course g quiet ρ ctx p m m' Q) {T : α → Pass → Prop} (hT : p.Gives m T) :
    R.Course g quiet ρ ctx p m m' fun a ρ' q => Q a ρ' q ∧ T a q := fun henv hp =>
  (hm henv hp).imp_right fun hgives => (hgives.both hT).mono
    fun _ _ ⟨⟨ρ', hq, hready, ha⟩, hT⟩ => ⟨ρ', hq, hready, ha, hT⟩

/-- A step that leaves the frames. -/
theorem step {T : α → Pass → Prop} (hfull : p.Gives m fun _ q => Remains .full p q)
    (hlicensed : quiet → p.Gives m fun _ q => Remains R.licence p q)
    (hsure : quiet → R.sure → ctx.Meets .outspoken p m T) :
    R.Course g quiet ρ ctx p m m fun a ρ' q =>
      (ρ' = ρ ∧ Remains .full p q) ∧ (R.sure → T a q) := by
  refine fun henv hp => ⟨rfl, fun a q hq => ?_⟩
  have hremains := hfull a q hq
  have hmoves : R.Moves quiet ρ p ρ q :=
    .of_remains hremains fun hquiet => (hlicensed hquiet a q hq).toAbides
  have hmeets : R.sure → q.Fit .outspoken R.env ctx.scope ∧ T a q := fun hs => by
    have hfit := hp.neat.fit hs
    rw [← henv] at hfit ⊢
    obtain ⟨hfit', -, hT⟩ := (hsure (hp.quiet hs) hs hfit).1 a q hq
    exact ⟨hfit', hT⟩
  refine ⟨ρ, hmoves, hp.moves hmoves (hp.kept.remains hremains.toAbides hremains.frames)
    fun hs => (hmeets hs).1, ⟨rfl, hremains⟩, fun hs => (hmeets hs).2⟩

/-- A step that leaves the frames and gives code. -/
theorem op (hfull : p.Gives n fun _ q => Remains .full p q)
    (hlicensed : quiet → p.Gives n fun _ q => Remains R.licence p q)
    (hsure : quiet → R.sure → ctx.Meets .outspoken p n (ctx.Holds .outspoken))
    (hordinary : quiet → R.licence.samples = false → ctx.Ordinarily p n)
    (hpledged : quiet → ctx.scope < p.scopes.length → ∀ T ∈ R.pledge,
      p.Gives n fun c q => q.Refers ctx.scope T c) : R.Earns g quiet ρ ctx p n n := by
  refine fun henv hp => ⟨rfl, fun c q hq => ?_⟩
  obtain ⟨ρ', hmoves, hready, -, hholds⟩ := (step hfull hlicensed hsure henv hp).2 c q hq
  refine ⟨ρ', hmoves, hready, fun hquiet => ⟨fun hL => ?_, fun T hT => ?_, fun hs =>
    (hholds hs).1, fun hs => (hholds hs).2 trivial⟩⟩
  · exact hordinary hquiet hL (hp.neat.tidy hL) (hp.placed (.inl hquiet)) c q hq
  · exact hpledged hquiet (hp.placed (.inl hquiet)) T hT c q hq

/-- Where nothing is pledged, no code has to be as it was. -/
theorem unpledged (hquiet : quiet → R.pledge = none) {P : Prop} {T : Chunk → Prop} (h : quiet)
    (hT : T ∈ R.pledge) : P := by
  rw [hquiet h] at hT
  cases hT

/-- An operation on good code. -/
theorem operates (hpledge : quiet → R.pledge = none) (cs : List Code)
    (hn : ctx.Operates { virtual := ¬(quiet ∧ R.licence.samples = false) } cs n)
    (hcs : ∀ c ∈ cs, quiet → R.Good ctx.scope c p) : R.Earns g quiet ρ ctx p n n := by
  refine op hn.plain.licensed.remains (fun _ => hn.plain.licensed.remains) (fun hquiet hs => ?_)
    (fun hquiet hL => ?_) fun hquiet _ T hT => unpledged hpledge hquiet hT
  · exact .of_good (hn (Context.meeting .outspoken ctx) ⟨id, fun _ => trivial, fun _ => id⟩ p
      fun c hc => ((hcs c hc hquiet).holds hs).good)
  · refine .of_good (hn ctx.avoiding ⟨id, fun h => h ⟨hquiet, hL⟩, fun _ => id⟩ p fun c hc => ?_)
    have hordinary : ctx.Ordinary c p := (hcs c hc hquiet).ordinary hL
    exact hordinary.good

end Course

theorem report_earns (problem : Problem) :
    R.Earns g quiet ρ ctx p (ctx.report problem) (ctx.report problem) :=
  .op ((report_remains ctx problem).mono fun _ _ h => h.1)
    (fun _ => (report_remains ctx problem).mono fun _ _ h => h.1)
    (fun _ _ => Context.report_holds problem) (fun _ _ => Context.report_ordinary problem)
    fun _ _ _ _ => (report_remains (L := {}) ctx problem).mono fun _ _ h => h.2.1 ▸ .none

/-- Components are selected of good code. Of code that is pledged none are. -/
theorem maskOutput_earns {c : Code} (h : quiet → R.Good ctx.scope c p) {output : Int}
    (hmask : quiet → R.pledge = none ∨ e.outputMask? output = none) :
    R.Earns g quiet ρ ctx p (ctx.maskOutput e output c) (ctx.maskOutput e output c) := by
  by_cases hnone : e.outputMask? output = none
  · have hrun : ctx.maskOutput e output c = Pure.pure c := by
      unfold Context.maskOutput
      rw [hnone]
      cases c <;> rfl
    rw [hrun]
    exact .pure h
  · exact .operates (fun hquiet => (hmask hquiet).resolve_right hnone) [c]
      (fun L _ _ hcs => L.maskOutput (hcs c (by simp)) e output) (by simpa using h)

theorem convert_earns (hpledge : quiet → R.pledge = none) {c : Code}
    (h : quiet → R.Good ctx.scope c p) (type : ValueType) :
    R.Earns g quiet ρ ctx p (ctx.convert c type) (ctx.convert c type) :=
  .operates hpledge [c] (fun L _ _ hcs => L.convert (hcs c (by simp)) type) (by simpa using h)

/-! ### Operations on frames -/

theorem stack_course : R.Course g quiet ρ ctx p ctx.stack ctx.stack fun stack ρ' q =>
    (ρ' = ρ ∧ q = p) ∧ stack = p.openFrames.get ctx.stage :=
  .get_bind (.pure ⟨⟨rfl, rfl⟩, rfl⟩)

theorem innermost_course : R.Course g quiet ρ ctx p ctx.innermost ctx.innermost fun x ρ' q =>
    (ρ' = ρ ∧ q = p) ∧ (∃ stack, p.openFrames.get ctx.stage = x.1 :: stack) ∧
      p.frames[x.1]? = some x.2 := by
  refine stack_course.bind fun stack ρ' q _ ⟨⟨hρ, hq⟩, hopen⟩ => ?_
  subst hρ hq
  split
  · exact .throw _
  refine .get_bind ?_
  split
  case h_1 frame hframe => exact .pure ⟨⟨rfl, rfl⟩, ⟨_, hopen.symm⟩, hframe⟩
  case h_2 => exact .throw _

/-- A frame that is known is changed, and what it has more is as the register says. -/
theorem updateFrame_course (hf : ρ f = some s)
    (hkept : R.Kept g ρ p → R.Kept g ρ (p.withFrame f u)) :
    R.Course g quiet ρ ctx p (updateFrame f u) (updateFrame f u) fun _ ρ' q =>
      ρ' = ρ ∧ q = p.withFrame f u :=
  fun _ hp => ⟨rfl, .modify ⟨ρ, .withFrame hf u, hp.withFrame hf (hkept hp.kept), rfl, rfl⟩⟩

theorem frame_withFrame (h : p.frames[f]? = some frame) :
    (p.withFrame f u).frames[f]? = some (u frame) := by
  simp only [Pass.withFrame, List.getElem?_modify, h, if_true]
  rfl

/-- A frame is changed in what the register does not speak of. -/
theorem updateActive_course (hf : ρ f = some s) (hcall : ∀ frame, (u frame).call = frame.call)
    (hshared : ∀ frame, (u frame).shared = frame.shared)
    (hmemo : ∀ frame, (u frame).memo = frame.memo) :
    R.Course g quiet ρ ctx p (updateFrame f u) (updateFrame f u) fun _ ρ' q =>
      ρ' = ρ ∧ q = p.withFrame f u :=
  updateFrame_course hf fun h => h.withFrame (fun _ hc => .inl (hcall _ ▸ hc))
    (fun _ _ hx => .inl (hshared _ ▸ hx)) fun _ _ hx => .inl (hmemo _ ▸ hx)

/-- The frame of a call, in the innermost frame, is at hand. -/
def Seated (R : Reserve) (ρ : Register) (ctx : Context) (p : Pass) (call : Call) : Prop :=
  ∃ home stack s b, p.openFrames.get ctx.stage = home :: stack ∧ ρ home = some s ∧
    ctx.shared = some b ∧ ρ b = some (R.below s call)

/-- A call gets its frame. -/
theorem shared_course {κ : Key} {home : Nat} (he : g.node? κ.node = some e)
    (hframe : p.frames[home]? = some frame) (hhome : ρ home = some s) :
    R.Course g quiet ρ ctx p (e.call?.mapM (Context.sharedFrame home κ))
      (e.call?.mapM (Context.sharedFrame home κ)) fun shared ρ' _ =>
        ∀ call, e.call? = some call → ∃ b, shared = some b ∧ ρ' b = some (R.below s call) := by
  refine fun _ hp => ⟨rfl, ?_⟩
  rcases Context.shared_cases e κ hframe with ⟨hnone, hrun⟩ | ⟨call, hcall, hcases⟩
  · refine .of_run hrun ⟨ρ, .refl R quiet ρ p, hp, fun call hcall => ?_⟩
    cases hnone.symm.trans hcall
  have hsame : ∀ {call'}, e.call? = some call' → call' = call := fun h =>
    Option.some.inj (h.symm.trans hcall)
  rcases hcases with ⟨b, hb, hrun⟩ | ⟨-, hrun⟩
  · refine .of_run hrun ⟨ρ, .refl R quiet ρ p, hp, fun call' hcall' => ⟨b, rfl, ?_⟩⟩
    obtain ⟨e', call'', he', hcall'', hρ⟩ := hp.kept.shared hhome hframe _ hb
    cases he.symm.trans he'
    rw [hsame hcall', ← hsame hcall'']
    exact hρ
  · have hplaced : ∀ {k}, R.below s call = .clean k → k < p.scopes.length := by
      intro k hclean
      rw [below_of_covers (covers_of_below hclean)] at hclean
      exact hp.kept.placed (hclean ▸ hhome)
    have hconcat := hp.kept.concat (Frame.ofCall call κ.node) (R.below s call) rfl rfl hplaced
      fun hclean hc => Option.some.inj hc ▸ covers_of_below hclean
    have hadded : R.Moves quiet ρ p _ _ :=
      .concat hp.kept (R.below s call) (Frame.ofCall call κ.node)
    have hhome' := hadded.register hhome
    have hchild : Function.update ρ p.frames.length (some (R.below s call)) p.frames.length =
        some (R.below s call) := Function.update_self ..
    have hmoves := hadded.trans (.withFrame hhome' fun frame =>
      { frame with shared := (κ.ofCall, p.frames.length) :: frame.shared })
    refine .of_run hrun ⟨_, hmoves, hp.moves hmoves ?_ fun hs => (hp.neat.fit hs).of_frames rfl,
      fun call' hcall' => ⟨_, rfl, hsame hcall' ▸ hchild⟩⟩
    refine hconcat.withFrame (fun _ hc => .inl hc) (fun hρ x hx => ?_) fun _ x hx => .inl hx
    rcases List.mem_cons.1 hx with rfl | hx
    · cases hhome'.symm.trans hρ
      exact .inr ⟨e, call, he, hcall, hchild⟩
    · exact .inl hx

/-! ### Compilations -/

/-- An input whose code is asked for is one of a node of the reserve. -/
def Asks (R : Reserve) (input : Input) : Prop := input.isConnected → R.nodes input.node

/-- Two compilers do the same and keep to a reserve. -/
def Compiles (R : Reserve) (g : ExpressionGraph) (c d : Compiler) : Prop :=
  ∀ {quiet : Prop} {ρ : Register} {ctx : Context} {p : Pass} {input : Input},
    (quiet → R.Asks input) → R.Course g quiet ρ ctx p (c ctx input) (d ctx input)
      fun code _ q => quiet → R.Answers ctx.scope input code q

/-- What is compiled may be compiled quietly. -/
theorem Course.upgrade {quiet' : Prop} {α : Type} {m n : PassM α}
    {Q : α → Register → Pass → Prop} (hup : quiet → quiet')
    (hplaced : quiet' → ctx.scope < p.scopes.length)
    (hclean : quiet' → ∀ f ∈ p.openFrames.get ctx.stage, ρ f = some (.clean ctx.scope))
    (h : R.Course g quiet' ρ ctx p m n Q) : R.Course g quiet ρ ctx p m n Q := by
  intro henv hp
  have hp' : R.Ready g quiet' ρ ctx.stage ctx.scope p :=
    ⟨hp.neat, fun h => h.elim hplaced fun hs => hp.placed (.inr hs), hp.kept, hp.ladder,
      fun h => h.elim hclean fun hs => hp.clean (.inr hs), fun hs => hup (hp.quiet hs)⟩
  refine (h henv hp').imp_right fun hgives =>
    hgives.mono fun a q ⟨ρ', hmoves, hready, ha⟩ => ⟨ρ', ?_, ?_, ha⟩
  · exact { hmoves with licensed := fun hquiet => hmoves.licensed (hup hquiet) }
  · exact ⟨hready.neat, fun h => hready.placed (h.imp_left hup), hready.kept, hready.ladder,
      fun h => hready.clean (h.imp_left hup), hp.quiet⟩

section Compilers

variable {c d : Compiler} {e e' : Expression} {input : Input} {home : Nat} {stack : List Nat}
variable {frame : Frame}

/-- Whoever asks for it, code of the nodes is as it was pledged. -/
theorem Compiles.pledged (hc : R.Compiles g c d) (hpledge : R.pledge ≠ none)
    (hinput : R.Asks input) :
    R.Course g quiet ρ ctx p (c ctx input) (d ctx input) fun code _ q =>
      R.Answers ctx.scope input code q :=
  .of_ready fun hp => (Course.upgrade (fun _ : quiet => trivial)
    (fun _ => hp.placed (.inr hpledge)) (fun _ => hp.clean (.inr hpledge))
    (hc fun _ => hinput)).mono fun _ _ _ _ h => h trivial

/-- Two expressions that differ in how they are compiled only. Compiled quietly, they give good
code. -/
structure Alike (R : Reserve) (g : ExpressionGraph) (id : NodeId) (e e' : Expression) : Prop where
  eq : e' = { e with inputs := e'.inputs, compile := e'.compile }
  unmasked : R.nodes id → R.pledge = none ∨ ∀ output, e.outputMask? output = none
  compile : ∀ {c d : Compiler} {quiet : Prop} {ρ : Register} {ctx : Context} {p : Pass}
    (output : Int), R.Compiles g c d → (quiet → R.nodes id) →
    (∀ call, e.call? = some call → R.Seated ρ ctx p call) →
    R.Earns g quiet ρ ctx p (e.compile c ctx output) (e'.compile d ctx output)

/-- The result of an expression is kept in the innermost frame. -/
theorem settle_earns {result : Code} {s : Standing} (hhome : ρ home = some s)
    (hgood : quiet → R.Good ctx.scope result p)
    (hmask : quiet → R.pledge = none ∨ ∀ output, e.outputMask? output = none)
    (hquiet : R.nodes input.node →
      (∀ f ∈ p.openFrames.get ctx.stage, ρ f = some (.clean ctx.scope)) → quiet) :
    R.Earns g quiet ρ ctx p (ctx.settle e input home result)
      (ctx.settle e input home result) := by
  refine .of_ready fun hp => ?_
  refine innermost_course.bind fun ⟨top, _⟩ ρ₁ q₁ _ ⟨⟨hρ, hq⟩, ⟨stack, hopen⟩, _⟩ => ?_
  subst hρ hq
  have hladder := hp.ladder
  rw [hopen] at hladder
  obtain ⟨s', htop⟩ := hladder.known top List.mem_cons_self
  refine (updateFrame_course htop fun hkept => ?_).bind fun _ ρ₂ q₂ hq₂ _ => ?_
  · refine hkept.withFrame (fun _ hc => .inl hc) (fun _ x hx => .inl hx)
      fun {k frame} htop x hx => ?_
    rcases List.mem_cons.1 hx with rfl | hx
    · refine .inr fun hnode => ?_
      -- A clean frame is one of the scope that is compiled for.
      have hclean := hladder.clean_of_head htop
      obtain rfl : k = ctx.scope := Standing.clean.inj
        (Option.some.inj (htop.symm.trans (hclean top List.mem_cons_self)))
      exact hgood (hquiet hnode (hopen ▸ hclean))
    · exact .inl hx
  refine (maskOutput_earns (hq₂.keeps hgood) fun h => (hmask h).imp_right (· _)).bind
    fun masked ρ₃ q₃ hq₃ hmasked => ?_
  refine Course.bind (updateActive_course ((hq₂.trans hq₃).register hhome) (fun _ => rfl)
    (fun _ => rfl) fun _ => rfl) fun _ ρ₄ q₄ hq₄ _ => .pure fun h => ?_
  exact (hmasked h).mono hq₄.full

/-- An expression is compiled, and its result is kept. -/
theorem compileFresh_earns (halike : R.Alike g input.node e e') (hc : R.Compiles g c d)
    (he : g.node? input.node = some e) (hopen : p.openFrames.get ctx.stage = home :: stack)
    (hframe : p.frames[home]? = some frame) (hnode : quiet → R.nodes input.node)
    (hquiet : R.nodes input.node →
      (∀ f ∈ p.openFrames.get ctx.stage, ρ f = some (.clean ctx.scope)) → quiet) :
    R.Earns g quiet ρ ctx p (ctx.compileFresh c e input home)
      (ctx.compileFresh d e' input home) := by
  refine .of_ready fun hp => ?_
  obtain ⟨s, hhome⟩ := hp.ladder.known home (hopen ▸ List.mem_cons_self)
  let κ := ctx.keyOf e input
  have hunfold : ∀ (c : Compiler) (compile : Compiler → Context → Int → PassM Code)
      (inputs : List Input), ctx.compileFresh c { e with inputs, compile } input home =
      (updateFrame home fun frame => { frame with active := (κ, e.kind) :: frame.active }) >>=
        fun _ => e.call?.mapM (Context.sharedFrame home κ) >>= fun shared =>
          compile c { ctx with node := input.node, shared } input.output >>=
            ctx.settle e input home := fun _ _ _ => rfl
  rw [halike.eq, hunfold, ← show ({ e with inputs := e.inputs, compile := e.compile } :
    Expression) = e from rfl, hunfold]
  refine Course.bind (updateActive_course hhome (fun _ => rfl) (fun _ => rfl) fun _ => rfl)
    fun _ ρ₁ q₁ hq₁ ⟨hρ, hq⟩ => ?_
  subst hρ hq
  refine Course.bind (shared_course he (frame_withFrame hframe) hhome)
    fun shared ρ₂ q₂ hq₂ hshared => ?_
  have hmoves := hq₁.trans hq₂
  have hseat : ∀ call, e.call? = some call →
      R.Seated ρ₂ { ctx with node := input.node, shared } q₂ call := by
    intro call hcall
    obtain ⟨b, hb, hρb⟩ := hshared call hcall
    exact ⟨home, stack, s, b, (hmoves.openFrames _).trans hopen, hmoves.register hhome, hb, hρb⟩
  refine Course.bind (fun henv hready =>
    halike.compile input.output hc hnode hseat henv hready) fun result ρ₃ q₃ hq₃ hresult => ?_
  refine settle_earns (hq₃.register (hmoves.register hhome)) hresult
    (fun h => halike.unmasked (hnode h)) fun hnode hclean => hquiet hnode fun f hf => ?_
  -- The standing of an open frame is known from the start.
  obtain ⟨s', hs'⟩ := hp.ladder.known f hf
  have hmoves' := hmoves.trans hq₃
  rw [hs', ← hmoves'.register hs']
  exact hclean f ((hmoves'.openFrames _).symm ▸ hf)

/-- An output of an expression is compiled, or its result is found. -/
theorem compileExpression_earns (halike : R.Alike g input.node e e') (hc : R.Compiles g c d)
    (he : g.node? input.node = some e) (hnode : quiet → R.nodes input.node) :
    R.Earns g quiet ρ ctx p (ctx.compileExpression c e input)
      (ctx.compileExpression d e' input) := by
  have hkey : ctx.keyOf e' input = ctx.keyOf e input := by rw [halike.eq]; rfl
  have hmask : ∀ code,
      ctx.maskOutput e' input.output code = ctx.maskOutput e input.output code := by
    intro code
    rw [halike.eq]
    rfl
  refine .of_ready fun hp => ?_
  unfold Context.compileExpression
  rw [hkey]
  refine innermost_course.bind fun ⟨home, frame⟩ ρ' q _ ⟨⟨hρ, hq⟩, ⟨stack, hopen⟩, hframe⟩ => ?_
  subst hρ hq
  -- A node of the reserve is compiled quietly in clean frames, whoever asks for it.
  let quiet' : Prop :=
    R.nodes input.node ∧ ∀ f ∈ q.openFrames.get ctx.stage, ρ' f = some (.clean ctx.scope)
  have hup : quiet → quiet' := fun h => ⟨hnode h, hp.clean (.inl h)⟩
  have hplaced : quiet' → ctx.scope < q.scopes.length := fun h =>
    hp.kept.placed (h.2 home (hopen ▸ List.mem_cons_self))
  refine Course.mono (.upgrade (Q := fun c _ q => quiet' → R.Good ctx.scope c q) hup hplaced
    (fun h => h.2) ?_) fun c _ q _ hc h => hc (hup h)
  dsimp only
  split
  case h_1 result hmemo =>
    rw [hmask]
    refine maskOutput_earns (fun ⟨hnode, hclean⟩ => ?_) fun h =>
      (halike.unmasked h.1).imp_right (· _)
    obtain ⟨l₁, l₂, hl, -⟩ := List.lookup_eq_some_iff.1 hmemo
    exact hp.kept.memo (hclean home (hopen ▸ List.mem_cons_self)) hframe (_, result)
      (hl ▸ List.mem_append_right _ List.mem_cons_self) hnode
  case h_2 =>
    refine .get_bind ?_
    split
    · exact report_earns _
    · exact compileFresh_earns halike hc he hopen hframe (·.1) fun hnode hclean => ⟨hnode, hclean⟩

/-- A step in other open frames, which are then left. -/
theorem within_earns {m n x y : PassM Code} {close : Code → PassM Code} {p' : Pass}
    (hx : x p = (m >>= close) (p'.withStack ctx.stage stack))
    (hy : y p = (n >>= close) (p'.withStack ctx.stage stack))
    (hclose : ∀ {q : Pass} (result : Code), q.openFrames.get ctx.stage = stack →
      close result q = .ok result (q.withStack ctx.stage (p.openFrames.get ctx.stage)))
    (hstart : R.Ready g quiet ρ ctx.stage ctx.scope p → R.Moves quiet ρ p ρ p' ∧
      R.Ready g quiet ρ ctx.stage ctx.scope (p'.withStack ctx.stage stack))
    (hm : R.Earns g quiet ρ ctx (p'.withStack ctx.stage stack) m n) :
    R.Earns g quiet ρ ctx p x y := by
  intro henv hp
  obtain ⟨hmoves, hready⟩ := hstart hp
  obtain ⟨hsame, hgives⟩ := hm henv hready
  refine ⟨(hy.trans (bind_congr_run hsame close)).trans hx.symm, .congr_run hx <|
    hgives.bind fun result q ⟨ρ', hmoves', hready', hgood⟩ => ?_⟩
  have hget : q.openFrames.get ctx.stage = stack :=
    (hmoves'.openFrames _).trans (StageTable.get_set_self ..)
  refine .of_run (hclose result hget) ⟨ρ', hmoves'.within hmoves, ?_, fun hquiet =>
    (hgood hquiet).of_gauge_eq rfl⟩
  exact hready'.withStack (hp.ladder.mono hmoves'.register) fun hfirm f hf =>
    hmoves'.register (hp.clean hfirm f hf)

/-- The code of a call, whose frame is at hand. -/
theorem callFunction_earns (hc : R.Compiles g c d) {call : Call} {body : Input}
    (hseat : R.Seated ρ ctx p call) (hbody : quiet → R.Asks body)
    (hcall : quiet → R.Covers call) :
    R.Earns g quiet ρ ctx p (ctx.callFunction c call body) (ctx.callFunction d call body) := by
  obtain ⟨home, stack, s, b, hopen, hhome, hshared, hb⟩ := hseat
  refine within_earns (Context.callFunction_run hshared c call body)
    (Context.callFunction_run hshared d call body)
    (fun result hget => bind_of_ok (Context.closeFrame_eq hget))
    (fun hp => ⟨.withFrame hb _, ?_⟩) ?_
  · have hp₁ := hp.withFrame hb (u := fun frame => { frame with call := some call }) <|
      hp.kept.withFrame (fun hclean hc => .inr (Option.some.inj hc ▸ covers_of_below
        (Option.some.inj (hb.symm.trans hclean)))) (fun _ x hx => .inl hx) fun _ x hx => .inl hx
    have hladder := hp.ladder
    have hclean := hp.clean
    rw [hopen] at hladder hclean ⊢
    refine hp₁.withStack (hladder.push hhome hb) fun hfirm f hf => ?_
    rcases List.mem_cons.1 hf with rfl | hf
    · have hcovers : R.Covers call := hfirm.elim hcall fun hpledge h => absurd h hpledge
      obtain rfl := Option.some.inj (hhome.symm.trans (hclean hfirm home List.mem_cons_self))
      rw [hb, below_of_covers hcovers]
    · exact hclean hfirm f hf
  · have hinner : ∀ {q}, R.Earns g quiet ρ { ctx with shared := none } q (ctx.compileBody c body)
        (ctx.compileBody d body) := by
      intro q
      unfold Context.compileBody
      split
      · rename_i hconnected
        exact (hc hbody).mono fun _ _ _ _ ha hquiet => (ha hquiet).good fun _ => hconnected
      · exact report_earns _
    exact hinner

/-- A step in the frames of the caller. -/
theorem inCaller_earns {m n : PassM Code} {top : Nat}
    (hopen : p.openFrames.get ctx.stage = top :: stack)
    (hm : R.Earns g quiet ρ ctx (p.withStack ctx.stage stack) m n) :
    R.Earns g quiet ρ ctx p (ctx.inCaller m) (ctx.inCaller n) := by
  refine within_earns (Context.inCaller_eq hopen m) (Context.inCaller_eq hopen n)
    (fun result hget => ?_) (fun hp => ⟨.refl R quiet ρ p, ?_⟩) hm
  · rw [bind_of_ok (show ctx.stack _ = .ok stack _ by rw [← hget]; rfl), hopen]
    rfl
  · exact hp.withStack (hopen ▸ hp.ladder).tail fun hfirm f hf =>
      hp.clean hfirm f (hopen ▸ List.mem_cons_of_mem _ hf)

/-- The argument that the innermost frame holds. -/
theorem callArgument_course (hpledge : quiet → R.pledge = none) (index : Int) :
    R.Course g quiet ρ ctx p (ctx.callArgument index) (ctx.callArgument index)
      fun argument ρ' q => (ρ' = ρ ∧ q = p) ∧ (quiet → R.Asks argument) ∧
        ∃ top stack, p.openFrames.get ctx.stage = top :: stack := by
  refine .of_ready fun hp => ?_
  refine innermost_course.bind fun ⟨top, frame⟩ ρ' q _ ⟨⟨hρ, hq⟩, ⟨stack, hopen⟩, hframe⟩ => ?_
  subst hρ hq
  have hnone : quiet → R.Asks .none := fun _ h => by cases h
  refine stack_course.bind fun _ ρ' q _ ⟨⟨hρ, hq⟩, hstack⟩ => ?_
  subst hρ hq hstack
  split
  case h_1 call hcall =>
    refine .pure ⟨⟨rfl, rfl⟩, ?_, top, stack, hopen⟩
    split
    · intro hquiet
      have htop := hp.clean (.inl hquiet) top (hopen ▸ List.mem_cons_self)
      exact hp.kept.calls htop hframe hcall (hpledge hquiet) index
    · exact hnone
  case h_2 => exact .pure ⟨⟨rfl, rfl⟩, hnone, top, stack, hopen⟩

/-- The code of a function input: an argument is compiled where the call stands. -/
theorem functionArgument_earns (hpledge : quiet → R.pledge = none) (hc : R.Compiles g c d)
    (index : Int) {preview : Input} (hpreview : quiet → R.Asks preview) (type : ValueType) :
    R.Earns g quiet ρ ctx p (ctx.functionArgument c index preview type)
      (ctx.functionArgument d index preview type) := by
  refine (callArgument_course hpledge index).bind fun argument ρ' q _
    ⟨⟨hρ, hq⟩, hasks, top, stack, hopen⟩ => ?_
  subst hρ hq
  unfold Context.compileArgument
  split
  · rename_i hargument
    refine (inCaller_earns hopen ((hc hasks).mono fun _ _ _ _ ha hquiet =>
      (ha hquiet).good fun _ => hargument)).bind fun _ _ _ _ hcode =>
        convert_earns hpledge hcode type
  · split
    · rename_i hconnected
      refine Course.bind ((hc hpreview).mono fun _ _ _ _ ha hquiet =>
        (ha hquiet).good fun _ => hconnected) fun _ _ _ _ hcode => convert_earns hpledge hcode type
    · exact report_earns _

end Compilers

/-- Two graphs whose nodes are alike. -/
def Matches (R : Reserve) (g g' : ExpressionGraph) : Prop :=
  ∀ id, (g.node? id = none ∧ g'.node? id = none) ∨
    ∃ e e', g.node? id = some e ∧ g'.node? id = some e' ∧ R.Alike g id e e'

/-- **Graphs** keep to a reserve, and do the same, if their nodes do. -/
theorem compileAt_course (hg : R.Matches g g') (n : Nat) :
    R.Compiles g (g.compileAt n) (g'.compileAt n) := by
  -- Connections are followed one level less deep each time.
  induction n using Nat.strongRecOn with
  | _ n ih =>
  intro quiet ρ ctx p input hinput
  rw [ExpressionGraph.compileAt_eq, ExpressionGraph.compileAt_eq]
  split
  case isFalse hconnected => exact .pure fun _ => .inr ⟨by simpa using hconnected, rfl⟩
  rename_i hconnected
  rcases hg input.node with ⟨h, h'⟩ | ⟨e, e', h, h', halike⟩ <;> rw [h, h']
  · exact (report_earns _).mono fun _ _ _ _ h hquiet => .inl (h hquiet)
  · cases n with
    | zero => exact .throw _
    | succ n =>
      exact (compileExpression_earns halike (ih n n.lt_succ_self) h fun hquiet =>
        hinput hquiet hconnected).mono fun _ _ _ _ h hquiet => .inl (h hquiet)

theorem compile_course (hg : R.Matches g g') (hdepth : g'.depth = g.depth) :
    R.Compiles g g.compile g'.compile := by
  unfold ExpressionGraph.compile
  rw [hdepth]
  exact compileAt_course hg g.depth

end Courses

end Reserve

end ShaderGraph
