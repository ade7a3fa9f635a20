import Mathlib.Logic.Function.Basic
import ShaderGraph.Proofs.Coupling

/-!
# The nesting of compilations

While a node is compiled, some frames are open and keys are in progress in them. This module says
how the two belong together. Each frame above the outermost one was opened by a call whose key is in
progress in the frame below it (`Pass.Linked`), and a frame is the frame of one call only
(`Pass.Links`). Both survive what compilations do to the frames (`Pass.Stands`).

If the nodes have ranks that decrease along connections, then what is in progress in the open frames
has a higher rank than what is compiled next.
-/

namespace ShaderGraph

/-- What the outputs of a call have in common. -/
def Key.ofCall (κ : Key) : Key := { κ with output := -1 }

/-- How a frame is tied to others: what it is the frame of, and the frames of its calls. -/
structure Ties where
  call : Option Call
  callNode : NodeId
  shared : List (Key × Nat)

/-- The ties of a frame. -/
def Frame.ties (f : Frame) : Ties := ⟨f.call, f.callNode, f.shared⟩

namespace Pass

/-- The open frames of each stage, and the keys in progress in each frame. -/
structure Nesting where
  opened : Stage → List Nat
  active : Nat → List Key

/-- The keys in progress in a frame. -/
def activeIn (frames : List Frame) (f : Nat) : List Key :=
  (frames[f]?).elim [] fun frame => frame.active.map Prod.fst

/-- The nesting in a state. -/
def nesting (p : Pass) : Nesting := ⟨p.openFrames.get, activeIn p.frames⟩

/-- The ties of all frames. -/
def ties (p : Pass) : List Ties := p.frames.map Frame.ties

namespace Nesting

/-- A key comes into progress in a frame. -/
def enter (N : Nesting) (f : Nat) (κ : Key) : Nesting :=
  { N with active := Function.update N.active f (κ :: N.active f) }

/-- Other frames are open in a stage. -/
def reopen (N : Nesting) (stage : Stage) (stack : List Nat) : Nesting :=
  { N with opened := Function.update N.opened stage stack }

variable {N : Nesting} {f f' : Nat}

@[simp] theorem reopen_active (stage : Stage) (stack : List Nat) :
    (N.reopen stage stack).active = N.active := rfl

@[simp] theorem reopen_opened_self (stage : Stage) (stack : List Nat) :
    (N.reopen stage stack).opened stage = stack := Function.update_self ..

@[simp] theorem enter_active_self (f : Nat) (κ : Key) :
    (N.enter f κ).active f = κ :: N.active f := Function.update_self ..

theorem enter_active_of_ne (h : f' ≠ f) (κ : Key) :
    (N.enter f κ).active f' = N.active f' := Function.update_of_ne h ..

theorem mem_enter {κ κ' : Key} :
    κ' ∈ (N.enter f κ).active f' ↔ (f' = f ∧ κ' = κ) ∨ κ' ∈ N.active f' := by
  by_cases h : f' = f
  · subst h
    simp
  · simp [enter_active_of_ne h, h]

@[simp] theorem reopen_reopen (stage : Stage) (stack stack' : List Nat) :
    (N.reopen stage stack).reopen stage stack' = N.reopen stage stack' := by
  simp [reopen]

theorem reopen_self (stage : Stage) : N.reopen stage (N.opened stage) = N := by
  simp [reopen]

end Nesting

/-! ### Ties between frames -/

/-- The frames of calls: each comes after the frame the call is in, belongs to that call only, and
holds the call of its node. A call has one frame. -/
structure Links (g : ExpressionGraph) (ties : List Ties) : Prop where
  child : ∀ {a b : Nat} {κ : Key} {t : Ties}, ties[a]? = some t → (κ, b) ∈ t.shared →
    a < b ∧ ∃ e call, g.node? κ.node = some e ∧ e.call? = some call ∧
      (ties[b]?).map (fun t => (t.call, t.callNode)) = some (some call, κ.node)
  parent : ∀ {a a' b : Nat} {κ κ' : Key} {t t' : Ties}, ties[a]? = some t → ties[a']? = some t' →
    (κ, b) ∈ t.shared → (κ', b) ∈ t'.shared → a = a' ∧ κ = κ'
  single : ∀ {a b b' : Nat} {κ : Key} {t : Ties}, ties[a]? = some t → (κ, b) ∈ t.shared →
    (κ, b') ∈ t.shared → b = b'

/-- Frames keep what they are the frames of, and the frames of their calls; other frames are shared
only if they are new. -/
structure Grows (old new : List Ties) : Prop where
  keeps : ∀ {a : Nat} {t : Ties}, old[a]? = some t →
    ∃ t', new[a]? = some t' ∧ t'.call = t.call ∧ t'.callNode = t.callNode ∧
      ∀ x ∈ t.shared, x ∈ t'.shared
  fresh : ∀ {a b : Nat} {κ : Key} {t' : Ties}, new[a]? = some t' → (κ, b) ∈ t'.shared →
    (∃ t, old[a]? = some t ∧ (κ, b) ∈ t.shared) ∨ old.length ≤ b

namespace Grows

theorem refl (ties : List Ties) : Grows ties ties :=
  ⟨fun h => ⟨_, h, rfl, rfl, fun _ => id⟩, fun h hb => .inl ⟨_, h, hb⟩⟩

theorem length_le {old new : List Ties} (h : Grows old new) : old.length ≤ new.length := by
  by_contra hlt
  obtain ⟨t', ht', -⟩ := h.keeps (List.getElem?_eq_getElem (Nat.lt_of_not_le hlt))
  exact Nat.lt_irrefl _ (List.getElem?_eq_some_iff.1 ht').1

theorem trans {a b c : List Ties} (h : Grows a b) (h' : Grows b c) : Grows a c where
  keeps {i t} ht := by
    obtain ⟨t₁, ht₁, hcall₁, hnode₁, hshared₁⟩ := h.keeps ht
    obtain ⟨t₂, ht₂, hcall₂, hnode₂, hshared₂⟩ := h'.keeps ht₁
    exact ⟨t₂, ht₂, hcall₂.trans hcall₁, hnode₂.trans hnode₁,
      fun x hx => hshared₂ x (hshared₁ x hx)⟩
  fresh {i b κ t} ht hb := by
    rcases h'.fresh ht hb with ⟨t₁, ht₁, hb₁⟩ | hle
    · exact h.fresh ht₁ hb₁
    · exact .inr (Nat.le_trans h.length_le hle)

end Grows

/-- Adds a frame at the end, for a call in an earlier one. -/
def addChild (ties : List Ties) (home : Nat) (κ : Key) (call : Call) : List Ties :=
  (ties ++ [Ties.mk (some call) κ.node []]).modify home fun t =>
    { t with shared := (κ, ties.length) :: t.shared }

section AddChild

variable {ties : List Ties} {home : Nat} {κ : Key} {call : Call}

theorem getElem?_addChild {a : Nat} {t : Ties} (h : ties[a]? = some t) :
    (addChild ties home κ call)[a]? = some
      (if home = a then { t with shared := (κ, ties.length) :: t.shared } else t) := by
  have hlt : a < ties.length := (List.getElem?_eq_some_iff.1 h).1
  rw [addChild, List.getElem?_modify, List.getElem?_append_left hlt, h]
  rfl

theorem getElem?_addChild_length (hhome : home < ties.length) :
    (addChild ties home κ call)[ties.length]? = some ⟨some call, κ.node, []⟩ := by
  rw [addChild, List.getElem?_modify, List.getElem?_concat_length]
  simp [Nat.ne_of_lt hhome]

/-- What is shared once a frame was added was shared before, or is the new frame. -/
theorem mem_shared_addChild (hhome : home < ties.length) {a b : Nat} {κ' : Key} {t : Ties}
    (ht : (addChild ties home κ call)[a]? = some t) (hb : (κ', b) ∈ t.shared) :
    (∃ t', ties[a]? = some t' ∧ (κ', b) ∈ t'.shared) ∨ (a = home ∧ κ' = κ ∧ b = ties.length) := by
  by_cases hlt : a < ties.length
  · obtain ⟨t', ht'⟩ : ∃ t', ties[a]? = some t' := ⟨_, List.getElem?_eq_getElem hlt⟩
    rw [getElem?_addChild ht', Option.some.injEq] at ht
    subst ht
    split at hb
    case isTrue h =>
      rcases List.mem_cons.1 hb with hb | hb
      · simp only [Prod.mk.injEq] at hb
        exact .inr ⟨h.symm, hb.1, hb.2⟩
      · exact .inl ⟨t', ht', hb⟩
    case isFalse => exact .inl ⟨t', ht', hb⟩
  · have hlen : a < (addChild ties home κ call).length := (List.getElem?_eq_some_iff.1 ht).1
    simp only [addChild, List.length_modify, List.length_append, List.length_singleton] at hlen
    obtain rfl : a = ties.length := by omega
    rw [getElem?_addChild_length hhome, Option.some.injEq] at ht
    subst ht
    cases hb

theorem grows_addChild (hhome : home < ties.length) : Grows ties (addChild ties home κ call) where
  keeps {a t} ht := by
    refine ⟨_, getElem?_addChild ht, ?_⟩
    split
    · exact ⟨rfl, rfl, fun x hx => List.mem_cons_of_mem _ hx⟩
    · exact ⟨rfl, rfl, fun x hx => hx⟩
  fresh ht hb := by
    rcases mem_shared_addChild hhome ht hb with h | ⟨-, -, rfl⟩
    · exact .inl h
    · exact .inr (Nat.le_refl _)

end AddChild

namespace Links

variable {g : ExpressionGraph} {ties : List Ties}

theorem lt_length (h : Links g ties) {a b : Nat} {κ : Key} {t : Ties} (ht : ties[a]? = some t)
    (hb : (κ, b) ∈ t.shared) : b < ties.length := by
  obtain ⟨-, e, call, -, -, hcall⟩ := h.child ht hb
  obtain ⟨t', ht', -⟩ := Option.map_eq_some_iff.1 hcall
  exact (List.getElem?_eq_some_iff.1 ht').1

theorem addChild (h : Links g ties) {home : Nat} (hhome : home < ties.length) {κ : Key}
    {e : Expression} {call : Call} (he : g.node? κ.node = some e) (hcall : e.call? = some call)
    (hnew : ∀ {t : Ties} {b : Nat}, ties[home]? = some t → (κ, b) ∉ t.shared) :
    Links g (addChild ties home κ call) where
  child {a b κ' t} ht hb := by
    rcases mem_shared_addChild hhome ht hb with ⟨t', ht', hb'⟩ | ⟨rfl, rfl, rfl⟩
    · obtain ⟨hlt, e', call', he', hcall', hframe⟩ := h.child ht' hb'
      obtain ⟨t'', ht'', heq⟩ := Option.map_eq_some_iff.1 hframe
      refine ⟨hlt, e', call', he', hcall', ?_⟩
      rw [getElem?_addChild ht'', ← heq]
      split <;> rfl
    · exact ⟨hhome, e, call, he, hcall, by rw [getElem?_addChild_length hhome]; rfl⟩
  parent {a a' b κ₁ κ₂ t t'} ht ht' hb hb' := by
    rcases mem_shared_addChild hhome ht hb with ⟨u, hu, hbu⟩ | ⟨rfl, rfl, rfl⟩
    · rcases mem_shared_addChild hhome ht' hb' with ⟨u', hu', hbu'⟩ | ⟨rfl, rfl, rfl⟩
      · exact h.parent hu hu' hbu hbu'
      · exact absurd (h.lt_length hu hbu) (Nat.lt_irrefl _)
    · rcases mem_shared_addChild hhome ht' hb' with ⟨u', hu', hbu'⟩ | ⟨rfl, rfl, -⟩
      · exact absurd (h.lt_length hu' hbu') (Nat.lt_irrefl _)
      · exact ⟨rfl, rfl⟩
  single {a b b' κ' t} ht hb hb' := by
    rcases mem_shared_addChild hhome ht hb with ⟨u, hu, hbu⟩ | ⟨rfl, rfl, rfl⟩
    · rcases mem_shared_addChild hhome ht hb' with ⟨u', hu', hbu'⟩ | ⟨rfl, rfl, -⟩
      · cases hu.symm.trans hu'
        exact h.single hu hbu hbu'
      · exact absurd hbu (hnew hu)
    · rcases mem_shared_addChild hhome ht hb' with ⟨u', hu', hbu'⟩ | ⟨-, -, rfl⟩
      · exact absurd hbu' (hnew hu')
      · rfl

/-- A frame of its own is the frame of no call. -/
theorem concat (h : Links g ties) : Links g (ties ++ [({} : Frame).ties]) := by
  have hold : ∀ {a b : Nat} {κ : Key} {t : Ties}, (ties ++ [({} : Frame).ties])[a]? = some t →
      (κ, b) ∈ t.shared → ties[a]? = some t := by
    intro a b κ t ht hb
    by_cases hlt : a < ties.length
    · rwa [List.getElem?_append_left hlt] at ht
    · rw [List.getElem?_append_right (by omega)] at ht
      obtain rfl := List.mem_singleton.1 (List.mem_of_getElem? ht)
      cases hb
  refine ⟨fun ht hb => ?_, fun ht ht' hb hb' => h.parent (hold ht hb) (hold ht' hb') hb hb',
    fun ht hb hb' => h.single (hold ht hb) hb hb'⟩
  obtain ⟨hlt, e, call, he, hcall, hframe⟩ := h.child (hold ht hb) hb
  rw [List.getElem?_append_left (h.lt_length (hold ht hb) hb)]
  exact ⟨hlt, e, call, he, hcall, hframe⟩

end Links

/-! ### Open frames -/

/-- The open frames of a stage, the innermost first, and the keys of the calls that opened them.
Where the nodes have ranks, nothing in progress below a frame is of lower rank than its call. -/
inductive Linked (rank : Option (NodeId → Nat)) (active : Nat → List Key) (ties : List Ties) :
    List Nat → List Key → Prop where
  | root {f : Nat} {t : Ties} (ht : ties[f]? = some t) (hcall : t.call = none) :
      Linked rank active ties [f] []
  | call {a b : Nat} {stack : List Nat} {links : List Key} {t : Ties} {κ : Key}
      (h : Linked rank active ties (a :: stack) links) (ht : ties[a]? = some t)
      (hshared : (κ.ofCall, b) ∈ t.shared) (hlt : a < b) (hκ : κ ∈ active a) (hnew : κ ∉ links)
      (hshelter : ∀ r ∈ rank, ∀ f ∈ a :: stack, ∀ κ' ∈ active f, r κ.node ≤ r κ'.node) :
      Linked rank active ties (b :: a :: stack) (κ :: links)

namespace Linked

variable {rank : Option (NodeId → Nat)} {active : Nat → List Key} {ties : List Ties}
variable {stack : List Nat} {links : List Key}

section

variable (h : Linked rank active ties stack links)

include h

theorem length_eq : stack.length = links.length + 1 := by
  induction h with
  | root => rfl
  | call _ _ _ _ _ _ _ ih => simp only [List.length_cons] at ih ⊢; omega

/-- Inner frames come after outer ones. -/
theorem pairwise : stack.Pairwise (· > ·) := by
  induction h with
  | root => exact List.pairwise_singleton ..
  | call _ _ _ hlt _ _ _ ih =>
    refine List.pairwise_cons.2 ⟨fun f hf => ?_, ih⟩
    rcases List.mem_cons.1 hf with rfl | hf
    · exact hlt
    · exact Nat.lt_trans ((List.pairwise_cons.1 ih).1 f hf) hlt

theorem nodup_links : links.Nodup := by
  induction h with
  | root => exact List.nodup_nil
  | call _ _ _ _ _ hnew _ ih => exact List.nodup_cons.2 ⟨hnew, ih⟩

/-- The calls that opened frames are in progress. -/
theorem exists_of_mem_links {κ : Key} (hκ : κ ∈ links) : ∃ f ∈ stack, κ ∈ active f := by
  induction h with
  | root => cases hκ
  | @call a b stack links t κ' _ _ _ _ hactive _ _ ih =>
    rcases List.mem_cons.1 hκ with rfl | hκ
    · exact ⟨a, by simp, hactive⟩
    · obtain ⟨f, hf, hactive'⟩ := ih hκ
      exact ⟨f, List.mem_cons_of_mem _ hf, hactive'⟩

/-- Only what is in progress below the innermost frame matters. -/
theorem congr {active' : Nat → List Key}
    (heq : ∀ f ∈ stack.tail, active' f = active f) : Linked rank active' ties stack links := by
  induction h with
  | root ht hcall => exact .root ht hcall
  | @call a b stack links t κ _ ht hshared hlt hκ hnew hshelter ih =>
    refine .call (ih fun f hf => heq f (List.mem_cons_of_mem _ hf)) ht hshared hlt ?_ hnew ?_
    · rwa [heq a (by simp)]
    · intro r hr f hf κ' hκ'
      exact hshelter r hr f hf κ' (heq f hf ▸ hκ')

theorem mono {ties' : List Ties} (hgrows : Grows ties ties') :
    Linked rank active ties' stack links := by
  induction h with
  | root ht hcall =>
    obtain ⟨t', ht', hcall', -, -⟩ := hgrows.keeps ht
    exact .root ht' (hcall'.trans hcall)
  | call _ ht hshared hlt hκ hnew hshelter ih =>
    obtain ⟨t', ht', -, -, hshared'⟩ := hgrows.keeps ht
    exact .call ih ht' (hshared' _ hshared) hlt hκ hnew hshelter

end

/-- A key that comes into progress in the innermost frame leaves the links as they are. -/
theorem enter {N : Nesting} {home : Nat} (h : Linked rank N.active ties (home :: stack) links)
    (κ : Key) : Linked rank (N.enter home κ).active ties (home :: stack) links := by
  refine h.congr fun f hf => Nesting.enter_active_of_ne ?_ κ
  exact Nat.ne_of_lt ((List.pairwise_cons.1 h.pairwise).1 f hf)

/-- Every open frame exists. -/
theorem lt_length {g : ExpressionGraph} (hties : Links g ties)
    (h : Linked rank active ties stack links) : ∀ f ∈ stack, f < ties.length := by
  induction h with
  | root ht => simpa using (List.getElem?_eq_some_iff.1 ht).1
  | call _ ht hshared _ _ _ _ ih =>
    intro f hf
    rcases List.mem_cons.1 hf with rfl | hf
    · exact hties.lt_length ht hshared
    · exact ih f hf

end Linked

/-- Frames are idle but for those of calls in progress. -/
structure Busy (N : Nesting) (ties : List Ties) : Prop where
  lt_length : ∀ {f : Nat}, N.active f ≠ [] → f < ties.length
  called : ∀ {a b : Nat} {κ : Key} {t : Ties}, ties[a]? = some t → (κ, b) ∈ t.shared →
    N.active b ≠ [] → ∃ κ' ∈ N.active a, κ'.node = κ.node

namespace Busy

variable {N : Nesting} {ties ties' : List Ties}

theorem mono (h : Busy N ties) (hgrows : Grows ties ties') : Busy N ties' where
  lt_length hf := Nat.lt_of_lt_of_le (h.lt_length hf) hgrows.length_le
  called ht hb hactive := by
    rcases hgrows.fresh ht hb with ⟨t, ht, hb⟩ | hle
    · exact h.called ht hb hactive
    · exact absurd (h.lt_length hactive) (Nat.not_lt.2 hle)

theorem enter {g : ExpressionGraph} {rank : Option (NodeId → Nat)} {home : Nat} {stack : List Nat}
    {links : List Key} (h : Busy N ties) (hties : Links g ties)
    (hlinked : Linked rank N.active ties (home :: stack) links) (κ : Key) :
    Busy (N.enter home κ) ties where
  lt_length {f} hf := by
    by_cases hne : f = home
    · exact hlinked.lt_length hties f (by simp [hne])
    · exact h.lt_length (by rwa [Nesting.enter_active_of_ne hne] at hf)
  called {a b κ' t} ht hb hactive := by
    by_cases hne : b = home
    · subst hne
      cases hlinked with
      | root ht' hcall =>
        -- The outermost frame is the frame of no call.
        obtain ⟨-, e, call, -, -, hframe⟩ := hties.child ht hb
        simp [ht', hcall] at hframe
      | @call a' _ stack links t' κ'' _ ht' hshared hlt hκ =>
        obtain ⟨rfl, rfl⟩ := hties.parent ht ht' hb hshared
        exact ⟨κ'', Nesting.mem_enter.2 (.inr hκ), rfl⟩
    · rw [Nesting.enter_active_of_ne hne] at hactive
      obtain ⟨κ'', hκ'', hnode⟩ := h.called ht hb hactive
      exact ⟨κ'', Nesting.mem_enter.2 (.inr hκ''), hnode⟩

end Busy

end Pass

end ShaderGraph
