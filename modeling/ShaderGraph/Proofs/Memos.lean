import ShaderGraph.Proofs.Inlining

/-!
# Results in frames and in one frame

A pass keeps the results of a function in the frame of its call; a pass over the inlined graph keeps
those of all copies in the outermost frame. The frame of a chain of calls (`Pass.FrameOf`) and the
copies for that chain keep the same results (`Pass.Memos`), and they go on to do so when a result is
kept, when a call is given its frame, and when a stage leaves all frames for a fresh one.
-/

namespace ShaderGraph

/-- What the outputs of a call have in common where no attributes are compiled. -/
def Key.ofNode (n : NodeId) (previousFrame : Bool) : Key := ⟨n, -1, none, previousFrame⟩

/-- The key of a copy. -/
def Graph.copyKey (g : Graph) (chain : List NodeId) (κ : Key) : Key :=
  { κ with node := g.copyNumber chain κ.node }

theorem Graph.copyKey_inj {g : Graph} {chain chain' : List NodeId} {κ κ' : Key}
    (h : (chain, κ.node) ∈ g.copies) (heq : g.copyKey chain κ = g.copyKey chain' κ') :
    chain = chain' ∧ κ = κ' := by
  cases κ
  cases κ'
  simp only [copyKey, Key.mk.injEq] at heq
  obtain ⟨hnumber, rfl, rfl, rfl⟩ := heq
  obtain ⟨rfl, rfl⟩ := copyNumber_inj h hnumber
  exact ⟨rfl, rfl⟩

namespace Pass

variable {roots : Stage → Nat}

/-! ### The frames of chains of calls -/

/-- The frame of a chain of calls, reached from an outermost frame. -/
inductive FrameOf (ties : List Ties) (root : Nat) (previousFrame : Bool) :
    List NodeId → Nat → Prop where
  | root : FrameOf ties root previousFrame [] root
  | call {chain : List NodeId} {n : NodeId} {a b : Nat} {t : Ties}
      (h : FrameOf ties root previousFrame chain a) (ht : ties[a]? = some t)
      (hb : (Key.ofNode n previousFrame, b) ∈ t.shared) :
      FrameOf ties root previousFrame (n :: chain) b

/-- The outermost frames of the stages: all different, and none is the frame of a call. -/
structure Rooted (roots : Stage → Nat) (ties : List Ties) : Prop where
  injective : Function.Injective roots
  outermost : ∀ stage, ∃ t, ties[roots stage]? = some t ∧ t.call = none

theorem Rooted.mono {ties ties' : List Ties} (h : Rooted roots ties) (hgrows : Grows ties ties') :
    Rooted roots ties' := by
  refine ⟨h.injective, fun stage => ?_⟩
  obtain ⟨t, ht, hcall⟩ := h.outermost stage
  obtain ⟨t', ht', hcall', -⟩ := hgrows.keeps ht
  exact ⟨t', ht', hcall'.trans hcall⟩

theorem Rooted.lt_length {ties : List Ties} (h : Rooted roots ties) (stage : Stage) :
    roots stage < ties.length := by
  obtain ⟨t, ht, -⟩ := h.outermost stage
  exact (List.getElem?_eq_some_iff.1 ht).1

namespace FrameOf

variable {G : ExpressionGraph} {ties : List Ties} {root f f' : Nat} {previousFrame : Bool}
variable {chain chain' : List NodeId} {roots : Stage → Nat} {stage stage' : Stage}

theorem mono {ties' : List Ties} (h : FrameOf ties root previousFrame chain f)
    (hgrows : Grows ties ties') : FrameOf ties' root previousFrame chain f := by
  induction h with
  | root => exact .root
  | call _ ht hb ih =>
    obtain ⟨t', ht', -, -, hshared⟩ := hgrows.keeps ht
    exact .call ih ht' (hshared _ hb)

theorem lt_length (hlinks : Links G ties) (hroot : root < ties.length)
    (h : FrameOf ties root previousFrame chain f) : f < ties.length := by
  cases h with
  | root => exact hroot
  | call _ ht hb => exact hlinks.lt_length ht hb

/-- A chain of calls has one frame. -/
theorem unique (hlinks : Links G ties) (h : FrameOf ties root previousFrame chain f)
    (h' : FrameOf ties root previousFrame chain f') : f = f' := by
  induction h generalizing f' with
  | root =>
    cases h'
    rfl
  | call _ ht hb ih =>
    cases h' with
    | call h' ht' hb' =>
      obtain rfl := ih h'
      cases ht.symm.trans ht'
      exact hlinks.single ht hb hb'

/-- A frame is the frame of one chain of calls in one stage. -/
theorem inj (hlinks : Links G ties) (hrooted : Rooted roots ties)
    (h : FrameOf ties (roots stage) previousFrame chain f)
    (h' : FrameOf ties (roots stage') previousFrame chain' f) :
    stage = stage' ∧ chain = chain' := by
  have houter : ∀ {stage : Stage} {a b : Nat} {κ : Key} {t : Ties}, ties[a]? = some t →
      (κ, b) ∈ t.shared → b ≠ roots stage := by
    rintro stage a b κ t ht hb rfl
    obtain ⟨-, e, call, -, -, hframe⟩ := hlinks.child ht hb
    obtain ⟨t', ht', hnone⟩ := hrooted.outermost stage
    simp [ht', hnone] at hframe
  induction h generalizing chain' with
  | root =>
    generalize hf : roots stage = f at h'
    cases h' with
    | root => exact ⟨hrooted.injective hf, rfl⟩
    | call _ ht hb => exact absurd hf.symm (houter ht hb)
  | call _ ht hb ih =>
    cases h' with
    | root => exact absurd rfl (houter ht hb)
    | call h' ht' hb' =>
      obtain ⟨rfl, hkey⟩ := hlinks.parent ht ht' hb hb'
      obtain ⟨rfl, rfl⟩ := ih h'
      exact ⟨rfl, by rw [(Key.mk.inj hkey).1]⟩

/-- A call that is given a frame adds that frame only. -/
theorem of_addChild {home : Nat} {κ : Key} {call : Call} (hhome : home < ties.length)
    (h : FrameOf (addChild ties home κ call) root previousFrame chain f) :
    FrameOf ties root previousFrame chain f ∨ f = ties.length := by
  induction h with
  | root => exact .inl .root
  | call _ ht hb ih =>
    rcases mem_shared_addChild hhome ht hb with ⟨t', ht', hb'⟩ | ⟨-, -, hlength⟩
    · rcases ih with ih | rfl
      · exact .inl (.call ih ht' hb')
      · exact absurd (List.getElem?_eq_some_iff.1 ht').1 (Nat.lt_irrefl _)
    · exact .inr hlength

theorem append (h : FrameOf ties root previousFrame chain f) (ties' : List Ties) :
    FrameOf (ties ++ ties') root previousFrame chain f := by
  induction h with
  | root => exact .root
  | call _ ht hb ih =>
    refine .call ih ?_ hb
    rwa [List.getElem?_append_left (List.getElem?_eq_some_iff.1 ht).1]

/-- A fresh frame has no calls in it. -/
theorem of_concat (h : FrameOf (ties ++ [({} : Frame).ties]) root previousFrame chain f) :
    FrameOf ties root previousFrame chain f := by
  induction h with
  | root => exact .root
  | @call _ _ a _ t _ ht hb ih =>
    refine .call ih ?_ hb
    by_cases hlt : a < ties.length
    · rwa [List.getElem?_append_left hlt] at ht
    · rw [List.getElem?_append_right (Nat.not_lt.1 hlt)] at ht
      obtain rfl := List.mem_singleton.1 (List.mem_of_getElem? ht)
      cases hb

theorem eq_root (h : FrameOf ties root previousFrame chain f) (hroot : ties.length ≤ root) :
    chain = [] ∧ f = root := by
  induction h with
  | root => exact ⟨rfl, rfl⟩
  | call _ ht _ ih =>
    obtain ⟨-, rfl⟩ := ih
    exact absurd (List.getElem?_eq_some_iff.1 ht).1 (Nat.not_lt.2 hroot)

end FrameOf

/-! ### Results -/

/-- The result that a frame keeps for a key. -/
def memo? (p : Pass) (f : Nat) (κ : Key) : Option Code := (p.frames[f]?).bind (·.memo.lookup κ)

section Memo

variable {p : Pass} {f f' : Nat} {κ κ' : Key}

theorem memo?_withFrame {u : Frame → Frame} (hu : ∀ frame, (u frame).memo = frame.memo) :
    (p.withFrame f u).memo? f' κ = p.memo? f' κ := by
  unfold memo? withFrame
  rw [List.getElem?_modify]
  cases p.frames[f']? with
  | none => rfl
  | some frame =>
    by_cases h : f = f'
    · simp [h, hu]
    · simp [h]

theorem memo?_keep (hf : f < p.frames.length) (result : Code) :
    (p.withFrame f fun frame => { frame with memo := (κ, result) :: frame.memo }).memo? f' κ' =
      if f' = f ∧ κ' = κ then some result else p.memo? f' κ' := by
  unfold memo? withFrame
  rw [List.getElem?_modify]
  by_cases h : f' = f
  · subst h
    rw [List.getElem?_eq_getElem hf]
    by_cases hκ : κ' = κ
    · simp [hκ]
    · simp [hκ, List.lookup_cons, beq_false_of_ne hκ]
  · rw [if_neg fun hboth => h hboth.1]
    simp [Ne.symm h]

theorem memo?_concat {frame : Frame} (hmemo : frame.memo = []) :
    ({ p with frames := p.frames ++ [frame] } : Pass).memo? f κ = p.memo? f κ := by
  unfold memo?
  by_cases hlt : f < p.frames.length
  · rw [List.getElem?_append_left hlt]
  · rw [List.getElem?_append_right (Nat.not_lt.1 hlt),
      List.getElem?_eq_none (Nat.not_lt.1 hlt)]
    cases h : ([frame])[f - p.frames.length]? with
    | none => rfl
    | some frame' =>
      obtain rfl := List.mem_singleton.1 (List.mem_of_getElem? h)
      simp [hmemo]

theorem memo?_withChild {home : Nat} {call : Call} :
    (p.withChild home κ call).memo? f κ' = p.memo? f κ' := by
  let added : Pass := { p with frames := p.frames ++ [Frame.ofCall call κ.node] }
  have hshared : (p.withChild home κ call).memo? f κ' = added.memo? f κ' :=
    memo?_withFrame (p := added) (f := home) fun _ => rfl
  rw [hshared, memo?_concat rfl]

end Memo

/-- The frame of every chain of calls keeps what the outermost frame of the other pass keeps for the
copies; for a chain without a frame that is nothing. -/
structure Memos (g : Graph) (roots roots' : Stage → Nat) (p q : Pass) : Prop where
  kept : ∀ {stage : Stage} {chain : List NodeId} {κ : Key} {f : Nat},
    (chain, κ.node) ∈ g.copies → FrameOf p.ties (roots stage) κ.previousFrame chain f →
    q.memo? (roots' stage) (g.copyKey chain κ) = p.memo? f κ
  absent : ∀ {stage : Stage} {chain : List NodeId} {κ : Key}, (chain, κ.node) ∈ g.copies →
    (∀ f, ¬FrameOf p.ties (roots stage) κ.previousFrame chain f) →
    q.memo? (roots' stage) (g.copyKey chain κ) = none

namespace Memos

variable {g : Graph} {G : ExpressionGraph} {roots roots' : Stage → Nat} {p q p' q' : Pass}
variable {stage : Stage} {chain : List NodeId} {κ : Key} {home : Nat}

section

variable (h : Memos g roots roots' p q)

include h

theorem congr (hties : p'.ties = p.ties)
    (hp : ∀ f κ, p'.memo? f κ = p.memo? f κ) (hq : ∀ f κ, q'.memo? f κ = q.memo? f κ) :
    Memos g roots roots' p' q' where
  kept hcopy hframe := by
    rw [hp, hq]
    exact h.kept hcopy (hties ▸ hframe)
  absent hcopy hnone := by
    rw [hq]
    exact h.absent hcopy (hties ▸ hnone)

/-- Both passes keep a result. -/
theorem keep (hlinks : Links G p.ties)
    (hrooted : Rooted roots p.ties) (hroots' : Function.Injective roots')
    (hroot' : roots' stage < q.frames.length) (hcopy : (chain, κ.node) ∈ g.copies)
    (hframe : FrameOf p.ties (roots stage) κ.previousFrame chain home) (result : Code) :
    Memos g roots roots'
      (p.withFrame home fun frame => { frame with memo := (κ, result) :: frame.memo })
      (q.withFrame (roots' stage) fun frame =>
        { frame with memo := (g.copyKey chain κ, result) :: frame.memo }) := by
  have hhome : home < p.frames.length := by
    rw [← length_ties]
    exact hframe.lt_length hlinks (hrooted.lt_length stage)
  have hsame : ∀ {stage' chain' κ'}, (chain', κ'.node) ∈ g.copies →
      roots' stage' = roots' stage ∧ g.copyKey chain' κ' = g.copyKey chain κ →
      stage' = stage ∧ chain' = chain ∧ κ' = κ := fun hcopy' ⟨hstage, hkey⟩ =>
    ⟨hroots' hstage, Graph.copyKey_inj hcopy' hkey⟩
  have hties : (p.withFrame home fun frame =>
      { frame with memo := (κ, result) :: frame.memo }).ties = p.ties := ties_withFrame fun _ => rfl
  constructor
  · intro stage' chain' κ' f hcopy' hframe'
    rw [hties] at hframe'
    rw [memo?_keep hroot', memo?_keep hhome]
    by_cases hkept : roots' stage' = roots' stage ∧ g.copyKey chain' κ' = g.copyKey chain κ
    · obtain ⟨rfl, rfl, rfl⟩ := hsame hcopy' hkept
      obtain rfl := hframe.unique hlinks hframe'
      simp
    · rw [if_neg hkept, if_neg]
      · exact h.kept hcopy' hframe'
      · rintro ⟨rfl, rfl⟩
        obtain ⟨rfl, rfl⟩ := hframe.inj hlinks hrooted hframe'
        exact hkept ⟨rfl, rfl⟩
  · intro stage' chain' κ' hcopy' hnone
    rw [hties] at hnone
    rw [memo?_keep hroot', if_neg, h.absent hcopy' hnone]
    intro hkept
    obtain ⟨rfl, rfl, rfl⟩ := hsame hcopy' hkept
    exact hnone home hframe

/-- A call is given a frame, which keeps nothing yet. -/
theorem share (hlinks : Links G p.ties)
    (hrooted : Rooted roots p.ties) {call : Call} (hhome : home < p.frames.length)
    (hlinks' : Links G (p.withChild home κ call).ties) :
    Memos g roots roots' (p.withChild home κ call) q := by
  have hlt : home < p.ties.length := by rwa [length_ties]
  have hgrows : Grows p.ties (p.withChild home κ call).ties := by
    rw [ties_withChild]
    exact grows_addChild hlt
  constructor
  · intro stage' chain' κ' f hcopy hframe
    rw [memo?_withChild]
    rcases FrameOf.of_addChild hlt (ties_withChild ▸ hframe) with hframe' | rfl
    · exact h.kept hcopy hframe'
    · -- No frame of the chain was there before the new one.
      rw [h.absent hcopy fun f hf => ?_]
      · simp [memo?, length_ties]
      · have hnew := (hf.mono hgrows).unique hlinks' hframe
        rw [hnew] at hf
        exact Nat.lt_irrefl _ (hf.lt_length hlinks (hrooted.lt_length stage'))
  · intro stage' chain' κ' hcopy hnone
    exact h.absent hcopy fun f hf => hnone f (hf.mono hgrows)

/-- Both passes leave all frames of a stage for fresh ones. -/
theorem restarted (stage : Stage) :
    Memos g (Function.update roots stage p.frames.length)
      (Function.update roots' stage q.frames.length) (p.restarted stage) (q.restarted stage) := by
  have hfresh : ∀ (p : Pass) (κ : Key), p.memo? p.frames.length κ = none := by
    simp [memo?]
  have hmemo : ∀ (p : Pass) (f : Nat) (κ : Key), (p.restarted stage).memo? f κ = p.memo? f κ :=
    fun _ _ _ => memo?_concat rfl
  constructor
  · intro stage' chain' κ' f hcopy hframe
    rw [ties_restarted] at hframe
    rw [hmemo, hmemo]
    by_cases hstage : stage' = stage
    · subst hstage
      rw [Function.update_self] at hframe
      obtain ⟨-, rfl⟩ := hframe.of_concat.eq_root (Nat.le_of_eq length_ties)
      rw [Function.update_self, hfresh, hfresh]
    · rw [Function.update_of_ne hstage] at hframe ⊢
      exact h.kept hcopy hframe.of_concat
  · intro stage' chain' κ' hcopy hnone
    rw [ties_restarted] at hnone
    rw [hmemo]
    by_cases hstage : stage' = stage
    · subst hstage
      rw [Function.update_self, hfresh]
    · rw [Function.update_of_ne hstage] at hnone ⊢
      exact h.absent hcopy fun f hf => hnone f (hf.append _)

end

end Memos

end Pass

end ShaderGraph
