import ShaderGraph.Proofs.Frames
import ShaderGraph.Proofs.Watching

/-!
# Code stays in the frames of its scope

Every frame belongs to one scope, which a ledger says, and what is kept in the frame is code of that
scope. A key is compiled once in a frame, and what comes of it is what the frame keeps. This module
says so of a state (`Ledger.Orderly`, `Context.Prepared`), of what a compilation does to the frames
(`Pass.Balanced`), and of a step (`Context.Tracked`); and it says what a watch may look for
(`Watch.Sound`), so that an expression that is watched is compiled as it is without
(`Expression.Tracked.observed`).
-/

namespace ShaderGraph

open Pass

/-- The terms in a context: reports are asked for only where a property is compiled. -/
def Terms.within (t : Terms) (ctx : Context) : Terms :=
  { t with loud := t.loud ∧ ctx.property.isSome }

/-- The keys of a frame: those in progress in it, and those with a result. -/
def Frame.keys (frame : Frame) : List Key :=
  frame.active.map Prod.fst ++ frame.memo.map Prod.fst

/-- A scope that properties are compiled in. -/
def Pass.IsStageScope (p : Pass) (k : Nat) : Prop := ∃ stage, p.stageScopes.get stage = k

/-- Code of a scope; and if there is none where properties are compiled, that was reported. -/
def Pass.Backs (p : Pass) (t : Terms) (k : Nat) (c : Code) : Prop :=
  (∀ i, c = some i → i < (p.scope k).length) ∧
    (t.loud → p.IsStageScope k → c = none → p.success = false)

theorem Pass.Backs.mono {p q : Pass} {t : Terms} {k : Nat} {c : Code} (h : p.Backs t k c)
    (hq : Since p q) : q.Backs t k c := by
  refine ⟨fun i hi => hq.lt_scope (h.1 i hi), fun hloud hstage hc => hq.failed (h.2 hloud ?_ hc)⟩
  unfold IsStageScope at hstage ⊢
  rwa [hq.stageScopes] at hstage

/-! ### Frames in order -/

namespace Ledger

/-- A frame keeps for a key what came of its compilation, which is code of its scope. -/
def Keeps (l : Ledger) (t : Terms) (p : Pass) (f : Nat) (x : Key × Code) : Prop :=
  l.call f x.1 = some x.2 ∧ ∃ k, l.scope f = some k ∧ p.Backs t k x.2

/-- The frames of a state are as a ledger says. -/
structure Orderly (t : Terms) (l : Ledger) (p : Pass) : Prop where
  /-- Frames that belong to a scope exist. -/
  made : ∀ {f k : Nat}, l.scope f = some k → f < p.frames.length
  /-- What was compiled in a frame is in progress in it, or has a result. -/
  begun : ∀ {f : Nat} {κ : Key} {c : Code}, l.call f κ = some c →
    ∃ frame, p.frames[f]? = some frame ∧ κ ∈ frame.keys
  distinct : ∀ {f : Nat} {frame : Frame}, p.frames[f]? = some frame → frame.keys.Nodup
  kept : ∀ {f : Nat} {frame : Frame}, p.frames[f]? = some frame →
    ∀ x ∈ frame.memo, l.Keeps t p f x
  /-- The frames of calls belong to the scope of the frame that the calls are in. -/
  shared : ∀ {f : Nat} {frame : Frame}, p.frames[f]? = some frame →
    ∀ x ∈ frame.shared, ∃ k, l.scope f = some k ∧ l.scope x.2 = some k

namespace Orderly

variable {t : Terms} {l : Ledger} {p q : Pass} {f k : Nat} {frame : Frame} {κ : Key} {c : Code}

/-- A frame may change if it keeps its keys, and what it keeps besides is in the ledger. -/
theorem update (h : l.Orderly t p) (hq : Since p q) {u : Frame → Frame}
    (hframe : p.frames[f]? = some frame) (hframes : q.frames = p.frames.modify f u)
    (hnodup : (u frame).keys.Nodup) (hkeys : ∀ κ ∈ frame.keys, κ ∈ (u frame).keys)
    (hmemo : ∀ x ∈ (u frame).memo, x ∈ frame.memo ∨ l.Keeps t q f x)
    (hshared : ∀ x ∈ (u frame).shared, x ∈ frame.shared ∨
      ∃ k, l.scope f = some k ∧ l.scope x.2 = some k) : l.Orderly t q := by
  have hold : ∀ {f' : Nat} {frame' : Frame}, q.frames[f']? = some frame' →
      (f' = f ∧ frame' = u frame) ∨ p.frames[f']? = some frame' := by
    intro f' frame' hget
    rw [hframes, List.getElem?_modify] at hget
    by_cases hf : f = f'
    · subst hf
      rw [hframe] at hget
      exact .inl ⟨rfl, by simpa using hget.symm⟩
    · simp only [hf, if_false] at hget
      exact .inr (by simpa using hget)
  have hkeeps : ∀ {f' : Nat} {x : Key × Code}, l.Keeps t p f' x → l.Keeps t q f' x :=
    fun ⟨hcall, k, hscope, hbacks⟩ => ⟨hcall, k, hscope, hbacks.mono hq⟩
  refine ⟨fun hk => ?_, fun hc => ?_, fun hget => ?_, fun hget x hx => ?_, fun hget x hx => ?_⟩
  · rw [hframes, List.length_modify]
    exact h.made hk
  · rename_i f' κ c
    obtain ⟨frame', hget, hκ⟩ := h.begun hc
    by_cases hf : f = f'
    · subst hf
      cases hframe.symm.trans hget
      exact ⟨u frame, by simp [hframes, hframe], hkeys κ hκ⟩
    · exact ⟨frame', by simp [hframes, hf, hget], hκ⟩
  · rcases hold hget with ⟨-, rfl⟩ | hget
    · exact hnodup
    · exact h.distinct hget
  · rcases hold hget with ⟨rfl, rfl⟩ | hget
    · exact (hmemo x hx).elim (fun hx => hkeeps (h.kept hframe x hx)) id
    · exact hkeeps (h.kept hget x hx)
  · rcases hold hget with ⟨rfl, rfl⟩ | hget
    · exact (hshared x hx).elim (h.shared hframe x) id
    · exact h.shared hget x hx

/-- A frame may be added in which there is nothing. -/
theorem concat (h : l.Orderly t p) (hq : Since p q) (hframes : q.frames = p.frames ++ [frame])
    (hkeys : frame.keys = []) (hmemo : frame.memo = []) (hshared : frame.shared = []) :
    l.Orderly t q := by
  have hold : ∀ {f' : Nat} {frame' : Frame}, q.frames[f']? = some frame' →
      frame' = frame ∨ p.frames[f']? = some frame' := by
    intro f' frame' hget
    rw [hframes] at hget
    rcases Nat.lt_or_ge f' p.frames.length with hlt | hge
    · rw [List.getElem?_append_left hlt] at hget
      exact .inr hget
    · rw [List.getElem?_append_right hge] at hget
      exact .inl (List.mem_singleton.1 (List.mem_of_getElem? hget))
  refine ⟨fun hk => ?_, fun hc => ?_, fun hget => ?_, fun hget x hx => ?_, fun hget x hx => ?_⟩
  · rw [hframes, List.length_append]
    exact Nat.lt_of_lt_of_le (h.made hk) (Nat.le_add_right _ _)
  · obtain ⟨frame', hget, hκ⟩ := h.begun hc
    refine ⟨frame', ?_, hκ⟩
    rw [hframes, List.getElem?_append_left (List.getElem?_eq_some_iff.1 hget).1, hget]
  · rcases hold hget with rfl | hget
    · rw [hkeys]
      exact List.nodup_nil
    · exact h.distinct hget
  · rcases hold hget with rfl | hget
    · rw [hmemo] at hx
      cases hx
    · obtain ⟨hcall, k, hscope, hbacks⟩ := h.kept hget x hx
      exact ⟨hcall, k, hscope, hbacks.mono hq⟩
  · rcases hold hget with rfl | hget
    · rw [hshared] at hx
      cases hx
    · exact h.shared hget x hx

/-- The frames stay as they are. -/
theorem later (h : l.Orderly t p) (hq : Since p q) (hframes : q.frames = p.frames) :
    l.Orderly t q := by
  refine ⟨fun hk => ?_, fun hc => ?_, fun hget => ?_, fun hget x hx => ?_, fun hget x hx => ?_⟩ <;>
    rw [hframes] at *
  · exact h.made hk
  · exact h.begun hc
  · exact h.distinct hget
  · obtain ⟨hcall, k, hscope, hbacks⟩ := h.kept hget x hx
    exact ⟨hcall, k, hscope, hbacks.mono hq⟩
  · exact h.shared hget x hx

/-- A frame comes to belong to a scope. -/
theorem own (h : l.Orderly t p) (hf : f < p.frames.length)
    (hfree : l.scope f = none ∨ l.scope f = some k) : (l.own f k).Orderly t p := by
  have hle := le_own hfree
  refine ⟨fun hk => ?_, h.begun, h.distinct, fun hget x hx => ?_, fun hget x hx => ?_⟩
  · rename_i f' k'
    by_cases hne : f' = f
    · exact hne ▸ hf
    · rw [scope_own_of_ne hne] at hk
      exact h.made hk
  · obtain ⟨hcall, k', hscope, hbacks⟩ := h.kept hget x hx
    exact ⟨hcall, k', hle.1 _ _ hscope, hbacks⟩
  · obtain ⟨k', hscope, hchild⟩ := h.shared hget x hx
    exact ⟨k', hle.1 _ _ hscope, hle.1 _ _ hchild⟩

/-- A key comes to be compiled. -/
theorem enter (h : l.Orderly t p) (hframe : p.frames[f]? = some frame) (hκ : κ ∈ frame.keys)
    (hnew : l.call f κ = none) : (l.enter f κ c).Orderly t p := by
  have hle : l ≤ l.enter f κ c := le_enter hnew
  refine ⟨h.made, fun hc => ?_, h.distinct, fun hget x hx => ?_, h.shared⟩
  · rename_i f' κ' c'
    by_cases heq : f' = f ∧ κ' = κ
    · obtain ⟨rfl, rfl⟩ := heq
      exact ⟨frame, hframe, hκ⟩
    · rw [call_enter_of_ne heq] at hc
      exact h.begun hc
  · obtain ⟨hcall, k, hscope, hbacks⟩ := h.kept hget x hx
    exact ⟨hle.2 _ _ _ hcall, k, hscope, hbacks⟩

/-- A frame that is not there yet belongs to no scope. -/
theorem scope_length_eq_none (h : l.Orderly t p) : l.scope p.frames.length = none := by
  cases hscope : l.scope p.frames.length with
  | none => rfl
  | some k => exact absurd (h.made hscope) (Nat.lt_irrefl _)

/-- Nothing came yet of a key that a frame does not have. -/
theorem call_eq_none (h : l.Orderly t p) (hframe : p.frames[f]? = some frame)
    (hκ : κ ∉ frame.keys) : l.call f κ = none := by
  cases hcall : l.call f κ with
  | none => rfl
  | some c =>
    obtain ⟨frame', hget, hmem⟩ := h.begun hcall
    cases hframe.symm.trans hget
    exact absurd hmem hκ

end Orderly

end Ledger

/-! ### Compilations -/

namespace Pass

variable {p q : Pass} {frames : List Frame} {openFrames : StageTable (List Nat)}

/-- What a compilation does to the frames: what it opens it closes again, what comes into progress
leaves it, and what was kept is kept. Frames that are there already stay with their scopes. -/
structure Balanced (l : Ledger) (p : Pass) (l' : Ledger) (q : Pass) : Prop extends Since p q where
  nesting : q.nesting = p.nesting
  frames : ∀ {f : Nat} {frame : Frame}, p.frames[f]? = some frame →
    ∃ frame', q.frames[f]? = some frame' ∧ frame.memo <:+ frame'.memo
  scopesOf : ∀ f < p.frames.length, l'.scope f = l.scope f

namespace Balanced

variable {l l' l'' : Ledger} {p q r : Pass}

theorem length_le (h : Balanced l p l' q) : p.frames.length ≤ q.frames.length := by
  by_contra hlt
  obtain ⟨frame', hget, -⟩ := h.frames (List.getElem?_eq_getElem (Nat.lt_of_not_le hlt))
  exact Nat.lt_irrefl _ (List.getElem?_eq_some_iff.1 hget).1

theorem of_later (h : Later p q) : Balanced l p l q := by
  refine ⟨h.toSince, ?_, fun hget => ⟨_, h.frames ▸ hget, List.suffix_rfl⟩, fun _ _ => rfl⟩
  simp only [Pass.nesting, h.frames, h.openFrames]

theorem refl (l : Ledger) (p : Pass) : Balanced l p l p := of_later (.refl p)

theorem trans (h : Balanced l p l' q) (h' : Balanced l' q l'' r) : Balanced l p l'' r := by
  refine ⟨h.toSince.trans h'.toSince, h'.nesting.trans h.nesting, fun hget => ?_, fun f hf => ?_⟩
  · obtain ⟨frame', hget', hsuffix⟩ := h.frames hget
    obtain ⟨frame'', hget'', hsuffix'⟩ := h'.frames hget'
    exact ⟨frame'', hget'', hsuffix.trans hsuffix'⟩
  · rw [h'.scopesOf f (Nat.lt_of_lt_of_le hf h.length_le), h.scopesOf f hf]

theorem openFrames_eq (h : Balanced l p l' q) (stage : Stage) :
    q.openFrames.get stage = p.openFrames.get stage :=
  congrFun (congrArg Nesting.opened h.nesting) stage

end Balanced

/-- Only the frames change. -/
theorem Since.of_frames (h : q = { p with frames, openFrames }) : Since p q := by
  obtain rfl := h
  exact ⟨fun _ => List.prefix_rfl, Nat.le_refl _, id, rfl, rfl, fun _ h _ => h, id, List.prefix_rfl⟩

theorem Fit.of_frames {t : Terms} {env : Environment} {k : Nat} (hp : p.Fit t env k)
    (h : q = { p with frames, openFrames }) : q.Fit t env k := by
  obtain rfl := h
  exact { hp with stacked := hp.stacked_of_eq rfl }

end Pass

namespace Context

variable {t : Terms} {l l' : Ledger} {ctx : Context} {p q : Pass}

/-- A state in which an expression can be compiled. -/
structure Prepared (t : Terms) (l : Ledger) (ctx : Context) (p : Pass) : Prop where
  fit : p.Fit (t.within ctx) ctx.env ctx.scope
  orderly : l.Orderly t p
  opened : p.openFrames.get ctx.stage ≠ []
  /-- The open frames belong to the scope that is compiled for. -/
  owned : ∀ f ∈ p.openFrames.get ctx.stage, l.scope f = some ctx.scope
  shared : ∀ b, ctx.shared = some b → l.scope b = some ctx.scope
  /-- Properties are compiled in the scopes of the stages, and nothing else is. -/
  voiced : ctx.property.isSome ↔ p.IsStageScope ctx.scope

namespace Prepared

/-- The innermost frame. -/
theorem exists_innermost (h : ctx.Prepared t l p) : ∃ home stack frame,
    p.openFrames.get ctx.stage = home :: stack ∧ p.frames[home]? = some frame ∧
      l.scope home = some ctx.scope := by
  cases hopen : p.openFrames.get ctx.stage with
  | nil => exact absurd hopen h.opened
  | cons home stack =>
    have howned := h.owned home (by rw [hopen]; exact List.mem_cons_self)
    exact ⟨home, stack, _, rfl, List.getElem?_eq_getElem (h.orderly.made howned), howned⟩

/-- The same frames are open. -/
theorem of_balanced (h : ctx.Prepared t l p) (hle : l ≤ l')
    (hfit : q.Fit (t.within ctx) ctx.env ctx.scope) (horderly : l'.Orderly t q)
    (hq : Balanced l p l' q) : ctx.Prepared t l' q := by
  refine ⟨hfit, horderly, ?_, fun f hf => hle.1 _ _ (h.owned f ?_),
    fun b hb => hle.1 _ _ (h.shared b hb), h.voiced.trans ?_⟩
  · rw [hq.openFrames_eq]
    exact h.opened
  · rwa [hq.openFrames_eq] at hf
  · unfold IsStageScope
    rw [hq.stageScopes]

theorem later (h : ctx.Prepared t l p) (hfit : q.Fit (t.within ctx) ctx.env ctx.scope)
    (hq : Later p q) : ctx.Prepared t l q :=
  h.of_balanced l.le_refl hfit (h.orderly.later hq.toSince hq.frames) (.of_later hq)

theorem holds (h : ctx.Prepared t l p) {c : Code} (hc : p.Backs t ctx.scope c) :
    ctx.Holds (t.within ctx) c p :=
  ⟨hc.1, fun hloud => hc.2 hloud.1 (h.voiced.1 hloud.2)⟩

end Prepared

variable {α β : Type} {m : PassM α} {f : α → PassM β} {n : Ledger → Probe → PassM α}
variable {k : Ledger → Probe → α → PassM β} {Q : α → Pass → Prop} {R : β → Pass → Prop}

/-- From a state in which an expression can be compiled, a step does the same as the probed steps,
and leads to another such state with the same frames open, and a result as `Q` says. -/
def Tracked (t : Terms) (l : Ledger) (ctx : Context) (p : Pass) (m : PassM α)
    (n : Ledger → Probe → PassM α) (Q : α → Pass → Prop) : Prop :=
  ctx.Prepared t l p → Observed l p m n fun a l' q =>
    ctx.Prepared t l' q ∧ Balanced l p l' q ∧ Q a q

namespace Tracked

/-- A step that compiles no expression. -/
theorem step (hm : Oblivious m) (h : ctx.Meets (t.within ctx) p m Q) :
    ctx.Tracked t l p m (fun _ _ => m) Q := by
  intro hp
  obtain ⟨hok, herror⟩ := h hp.fit
  refine .same hm (fun a q hq => ?_) herror
  obtain ⟨hfit, hlater, ha⟩ := hok a q hq
  exact ⟨hp.later hfit hlater, .of_later hlater, ha⟩

theorem pure {a : α} (h : Q a p) : ctx.Tracked t l p (pure a) (fun _ _ => pure a) Q :=
  fun hp => .pure ⟨hp, .refl l p, h⟩

theorem bind (hm : ctx.Tracked t l p m n Q)
    (hf : ∀ a l' q, Since p q → Q a q → ctx.Tracked t l' q (f a) (fun last b => k last b a) R) :
    ctx.Tracked t l p (m >>= f) (fun last b => n last b >>= k last b) R := by
  intro hp
  refine (hm hp).bind fun a l' q _ ⟨hq, hbalanced, ha⟩ => ?_
  refine (hf a l' q hbalanced.toSince ha hq).mono fun b l'' r _ ⟨hr, hbalanced', hb⟩ => ?_
  exact ⟨hr, hbalanced.trans hbalanced', hb⟩

theorem mono {S : α → Pass → Prop} (hm : ctx.Tracked t l p m n Q)
    (h : ∀ a q, Since p q → Q a q → S a q) : ctx.Tracked t l p m n S := by
  intro hp
  refine (hm hp).mono fun a l' q _ ⟨hq, hbalanced, ha⟩ => ?_
  exact ⟨hq, hbalanced, h a q hbalanced.toSince ha⟩

theorem ite {c : Prop} [Decidable c] {m' : PassM α} {n' : Ledger → Probe → PassM α}
    (hm : c → ctx.Tracked t l p m n Q) (hm' : ¬c → ctx.Tracked t l p m' n' Q) :
    ctx.Tracked t l p (if c then m else m') (fun last b => if c then n last b else n' last b)
      Q := by
  by_cases h : c
  · simp only [if_pos h]
    exact hm h
  · simp only [if_neg h]
    exact hm' h

end Tracked

/-- What is asked of the code of an input. -/
def Answers (t : Terms) (ctx : Context) (input : Input) (c : Code) (p : Pass) : Prop :=
  ctx.Points c p ∧ (t.loud → input.isConnected → c = none → p.success = false)

theorem Answers.holds {input : Input} {c : Code} (h : ctx.Answers t input c p)
    (hinput : t.loud → input.isConnected) : ctx.Holds t c p :=
  ⟨h.1, fun hloud => h.2 hloud (hinput hloud)⟩

end Context

/-- A compiler does the same as the probed compilers, and gives code for what is connected. -/
def Compiler.Tracked (t : Terms) (c : Compiler) (d : Ledger → Probe → Compiler) : Prop :=
  ∀ (ctx : Context) (input : Input) (l : Ledger) (p : Pass),
    ctx.Tracked t l p (c ctx input) (fun last b => d last b ctx input)
      (ctx.Answers (t.within ctx) input)

/-- An expression is compiled the same from compilers that do the same. -/
def Expression.Tracked (t : Terms) (e : Expression) : Prop :=
  ∀ (c : Compiler) (d : Ledger → Probe → Compiler), Compiler.Tracked t c d →
    ∀ (ctx : Context) (output : Int) (l : Ledger) (p : Pass),
      (e.call?.isSome → ctx.shared.isSome) →
        ctx.Tracked t l p (e.compile c ctx output) (fun last b => e.compile (d last b) ctx output)
          (ctx.Holds (t.within ctx))

/-! ### Watches that never strike -/

namespace Context

/-- What holds where the compilation of an expression begins. -/
structure Begins (t : Terms) (l : Ledger) (ctx : Context) (p : Pass) : Prop
    extends ctx.Prepared t l p where
  /-- What is compiled is in the ledger from then on. -/
  entered : ∀ f κ, ctx.compiling? p = some (f, κ) → (l.call f κ).isSome

/-- What holds where a compilation has ended. -/
structure Ends (t : Terms) (l : Ledger) (ctx : Context) (p : Pass) (c : Code) (l' : Ledger)
    (q : Pass) : Prop where
  le : l ≤ l'
  prepared : ctx.Prepared t l' q
  balanced : Balanced l p l' q
  points : ctx.Points c q

end Context

/-- A watch that finds what it looks for. -/
structure Watch.Sound (t : Terms) (W : Ledger → Watch) : Prop where
  asked : ∀ {l last : Ledger} {ctx : Context} {p : Pass} (marks : List LogEntry), l ≤ last →
    ctx.Prepared t l p → (W last).asked ctx (p.under marks)
  answered : ∀ {l l' last : Ledger} {ctx : Context} {p q : Pass} {c : Code}
    (marks marks' : List LogEntry), l' ≤ last → ctx.Prepared t l p → ctx.Ends t l p c l' q →
      (W last).answered ctx (p.under marks) c (q.under marks')
  before : ∀ {l last : Ledger} {ctx : Context} {p : Pass} (marks : List LogEntry), l ≤ last →
    ctx.Begins t l p → (W last).before ctx (p.under marks)
  after : ∀ {l l' last : Ledger} {ctx : Context} {p q : Pass} {c : Code}
    (marks marks' : List LogEntry), l' ≤ last → ctx.Begins t l p → ctx.Ends t l p c l' q →
      (∀ f κ, ctx.compiling? p = some (f, κ) → l.call f κ = some c) →
      (W last).after ctx (p.under marks) c (q.under marks')

/-- The code that a step ends with. -/
def Pass.codeOf : EStateM.Result Fault Pass Code → Code
  | .ok c _ => c
  | .error _ _ => none

section Probed

variable {t : Terms} {W : Ledger → Watch} {e : Expression} {c : Compiler}
variable {d : Ledger → Probe → Compiler} {ctx : Context} {l l' : Ledger} {p : Pass}

/-- A compiler may be watched. -/
theorem Compiler.Tracked.asked (hc : Compiler.Tracked t c d) (hW : Watch.Sound t W) :
    Compiler.Tracked t c fun last b => b.ask (W last) (d last b) := by
  intro ctx input l p hp
  have hguard := (hc ctx input l p hp).guard (fun last => (W last).asked ctx)
    (fun last => (W last).answered ctx) (fun last b hlast => hW.asked _ hlast hp)
    fun code l' q last b hle hlast _ hend =>
      hW.answered _ _ hlast hp ⟨hle, hend.1, hend.2.1, hend.2.2.1⟩
  refine hguard.congr rfl fun last b => ?_
  obtain ⟨_ | alarm, tally⟩ := b <;> rfl

/-- A probe changes nothing about an expression, once what is compiled is in the ledger. -/
theorem Expression.Tracked.observed (he : e.Tracked t) (hW : Watch.Sound t W)
    (hc : Compiler.Tracked t c d) (output : Int) (hcall : e.call?.isSome → ctx.shared.isSome)
    (hle : l ≤ l') (hcount : ∀ b : Probe, b.count ctx (b.view l p) = b.view l' p)
    (hbegins : ctx.Begins t l' p)
    (hentered : ∀ f κ, ctx.compiling? p = some (f, κ) →
      l'.call f κ = some (codeOf (e.compile c ctx output p))) :
    Observed l p (e.compile c ctx output)
      (fun last b => (e.probed (W last) b).compile (d last b) ctx output) fun code l'' q =>
        (l' ≤ l'' ∧ code = codeOf (e.compile c ctx output p)) ∧ ctx.Prepared t l'' q ∧
          Balanced l' p l'' q ∧ ctx.Holds (t.within ctx) code q := by
  obtain ⟨l'', hle', hsame, hok, herror⟩ :=
    he c _ (hc.asked hW) ctx output l' p hcall hbegins.toPrepared
  have hplain : Observed l' p (e.compile c ctx output)
      (fun last b => e.compile (b.ask (W last) (d last b)) ctx output) fun code l'' q =>
        (l' ≤ l'' ∧ code = codeOf (e.compile c ctx output p)) ∧ ctx.Prepared t l'' q ∧
          Balanced l' p l'' q ∧ ctx.Holds (t.within ctx) code q :=
    ⟨l'', hle', hsame, fun code q hq => ⟨⟨hle', by rw [hq]; rfl⟩, hok code q hq⟩, herror⟩
  have hguard := hplain.guard (fun last => (W last).before ctx)
    (fun last => (W last).after ctx) (fun last b hlast => hW.before _ hlast hbegins)
    fun code l'' q last b hle'' hlast _ hend => by
      obtain ⟨⟨-, hcode⟩, hprepared, hbalanced, hholds⟩ := hend
      refine hW.after _ _ hlast hbegins ⟨hle'', hprepared, hbalanced, hholds.1⟩ fun f κ h => ?_
      rw [hentered f κ h, hcode]
  exact (hguard.counting hle hcount).congr rfl fun last b => Expression.compile_probed _ _ _ _

end Probed

end ShaderGraph
