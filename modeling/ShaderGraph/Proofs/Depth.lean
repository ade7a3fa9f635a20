import Mathlib.Data.Finset.Card
import Mathlib.Data.List.Nodup
import Mathlib.Tactic.Ring
import ShaderGraph.Proofs.Frames

/-!
# How deep compilations nest

A nested compilation puts a new key into the innermost open frame, or leaves that frame and puts a
new key into one below it. So the numbers of keys in progress, read from the outermost frame
inwards, grow lexicographically. With `k` keys at most `k + 1` frames are open, each with at most
`k` keys in progress; read as digits of a number to the base `k + 1` (`Pass.load`), they grow with
each nested compilation and stay below `(k + 1) ^ (k + 1)`.
-/

namespace ShaderGraph

namespace Pass

/-! ### The load of the open frames -/

/-- The numbers of keys in progress in the open frames as the digits of a number to the base
`k + 1`, the outermost frame first. -/
def load (k : Nat) (active : Nat → List Key) : List Nat → Nat
  | [] => 0
  | f :: stack => load k active stack + (active f).length * (k + 1) ^ (k - stack.length)

section Load

variable {k : Nat} {active active' : Nat → List Key} {stack : List Nat}

theorem load_congr (h : ∀ f ∈ stack, active' f = active f) :
    load k active' stack = load k active stack := by
  induction stack with
  | nil => rfl
  | cons f stack ih =>
    rw [load, load, h f (by simp), ih fun f' hf' => h f' (List.mem_cons_of_mem _ hf')]

theorem load_add_le (hlen : stack.length ≤ k + 1) (hactive : ∀ f, (active f).length ≤ k) :
    load k active stack + (k + 1) ^ (k + 1 - stack.length) ≤ (k + 1) ^ (k + 1) := by
  induction stack with
  | nil => simp [load]
  | cons f stack ih =>
    simp only [List.length_cons] at hlen
    have hpow : (k + 1) ^ (k + 1 - stack.length) =
        k * (k + 1) ^ (k - stack.length) + (k + 1) ^ (k - stack.length) := by
      rw [show k + 1 - stack.length = (k - stack.length) + 1 by omega, pow_succ]
      ring
    have hdigit := Nat.mul_le_mul_right ((k + 1) ^ (k - stack.length)) (hactive f)
    simp only [load, List.length_cons, show k + 1 - (stack.length + 1) = k - stack.length by omega]
    omega

end Load

/-! ### Nestings in which compilation goes on -/

/-- A nesting with the given open frames and the calls that opened them, in which only keys of a
finite set are in progress, none twice in a frame. -/
structure Poised (g : ExpressionGraph) (rank : Option (NodeId → Nat)) (keys : Finset Key)
    (stage : Stage) (N : Nesting) (old : List Ties) (stack : List Nat) (links : List Key) :
    Prop where
  opened : N.opened stage = stack
  ties : Links g old
  linked : Linked rank N.active old stack links
  busy : Busy N old
  nodup : ∀ f, (N.active f).Nodup
  subset : ∀ f, ∀ κ ∈ N.active f, κ ∈ keys

/-- Whatever is in progress in the given frames has a higher rank than a node. -/
def Over (rank : Option (NodeId → Nat)) (N : Nesting) (stack : List Nat) (node : NodeId) : Prop :=
  ∀ r ∈ rank, ∀ f ∈ stack, ∀ κ ∈ N.active f, r node < r κ.node

/-- A depth that suffices to compile an input. -/
def Enough (keys : Finset Key) (N : Nesting) (stack : List Nat) (depth : Nat) : Prop :=
  (keys.card + 1) ^ (keys.card + 1) <
    depth + load keys.card N.active stack + (keys.card + 1) ^ (keys.card + 1 - stack.length)

/-- A depth that suffices for the inputs of what came into progress last. -/
def EnoughWithin (keys : Finset Key) (N : Nesting) (stack : List Nat) (depth : Nat) : Prop :=
  (keys.card + 1) ^ (keys.card + 1) ≤ depth + load keys.card N.active stack

namespace Poised

variable {g : ExpressionGraph} {rank : Option (NodeId → Nat)} {keys : Finset Key} {stage : Stage}
variable {N : Nesting} {old : List Ties} {stack : List Nat} {links : List Key} {depth home : Nat}
variable {κ : Key} {b : Nat}

section Position

variable (h : Poised g rank keys stage N old stack links)

include h

theorem length_active_le (f : Nat) : (N.active f).length ≤ keys.card := by
  rw [← List.toFinset_card_of_nodup (h.nodup f)]
  exact Finset.card_le_card fun κ hκ => h.subset f κ (List.mem_toFinset.1 hκ)

theorem length_links_le : links.length ≤ keys.card := by
  rw [← List.toFinset_card_of_nodup h.linked.nodup_links]
  refine Finset.card_le_card fun κ hκ => ?_
  obtain ⟨f, -, hactive⟩ := h.linked.exists_of_mem_links (List.mem_toFinset.1 hκ)
  exact h.subset f κ hactive

theorem length_stack_le : stack.length ≤ keys.card + 1 := by
  have hlen := h.linked.length_eq
  have hlinks := h.length_links_le
  omega

theorem mono {old' : List Ties} (hgrows : Grows old old') (hties : Links g old') :
    Poised g rank keys stage N old' stack links :=
  ⟨h.opened, hties, h.linked.mono hgrows, h.busy.mono hgrows, h.nodup, h.subset⟩

/-- There is depth left to compile one more key. -/
theorem pos_of_enough (hdepth : Enough keys N stack depth) : 0 < depth := by
  have hload := load_add_le h.length_stack_le h.length_active_le
  unfold Enough at hdepth
  omega

end Position

theorem enter (h : Poised g rank keys stage N old (home :: stack) links) (hκ : κ ∈ keys)
    (hnew : ∀ f ∈ home :: stack, κ ∉ N.active f) :
    Poised g rank keys stage (N.enter home κ) old (home :: stack) links where
  opened := h.opened
  ties := h.ties
  linked := h.linked.enter κ
  busy := h.busy.enter h.ties h.linked κ
  nodup f := by
    by_cases hf : f = home
    · subst hf
      rw [Nesting.enter_active_self]
      exact List.nodup_cons.2 ⟨hnew f (by simp), h.nodup f⟩
    · rw [Nesting.enter_active_of_ne hf]
      exact h.nodup f
  subset f κ' hκ' := by
    rcases Nesting.mem_enter.1 hκ' with ⟨-, rfl⟩ | hκ'
    · exact hκ
    · exact h.subset f κ' hκ'

/-- Coming into progress costs one compilation of the depth. -/
theorem enoughWithin_enter (h : Poised g rank keys stage N old (home :: stack) links)
    (hdepth : Enough keys N (home :: stack) (depth + 1)) (κ : Key) :
    EnoughWithin keys (N.enter home κ) (home :: stack) depth := by
  have hsame : load keys.card (N.enter home κ).active stack = load keys.card N.active stack := by
    refine load_congr fun f hf => Nesting.enter_active_of_ne ?_ κ
    exact Nat.ne_of_lt ((List.pairwise_cons.1 h.linked.pairwise).1 f hf)
  unfold Enough at hdepth
  unfold EnoughWithin
  simp only [load, List.length_cons, Nesting.enter_active_self, hsame, Nat.add_mul, Nat.one_mul,
    show keys.card + 1 - (stack.length + 1) = keys.card - stack.length by omega] at hdepth ⊢
  omega

/-- An input in the same frame. -/
theorem enough_of_within (hdepth : EnoughWithin keys N stack depth) :
    Enough keys N stack depth := by
  have hpow : 0 < (keys.card + 1) ^ (keys.card + 1 - stack.length) :=
    Nat.pow_pos (Nat.succ_pos _)
  unfold EnoughWithin at hdepth
  unfold Enough
  omega

/-- A call opens its frame. -/
theorem push {t : Ties} (h : Poised g rank keys stage N old (home :: stack) links)
    (ht : old[home]? = some t) (hshared : (κ.ofCall, b) ∈ t.shared) (hlt : home < b)
    (hκ : κ ∈ N.active home) (hnew : κ ∉ links)
    (hshelter : ∀ r ∈ rank, ∀ f ∈ home :: stack, ∀ κ' ∈ N.active f, r κ.node ≤ r κ'.node) :
    Poised g rank keys stage (N.reopen stage (b :: home :: stack)) old (b :: home :: stack)
      (κ :: links) :=
  { h with
    opened := Nesting.reopen_opened_self ..
    linked := .call h.linked ht hshared hlt hκ hnew hshelter
    busy := ⟨h.busy.lt_length, h.busy.called⟩ }

theorem enough_push (hdepth : EnoughWithin keys N (home :: stack) depth) :
    Enough keys (N.reopen stage (b :: home :: stack)) (b :: home :: stack) depth := by
  refine enough_of_within ?_
  unfold EnoughWithin at hdepth ⊢
  rw [Nesting.reopen_active, load]
  omega

/-- The caller's frame becomes the innermost one. -/
theorem pop (h : Poised g rank keys stage N old (b :: home :: stack) (κ :: links)) :
    Poised g rank keys stage (N.reopen stage (home :: stack)) old (home :: stack) links :=
  { h with
    opened := Nesting.reopen_opened_self ..
    linked := by cases h.linked with | call h => exact h
    busy := ⟨h.busy.lt_length, h.busy.called⟩ }

/-- What the inner frame counted for is less than one key in the frame below. -/
theorem enough_pop (h : Poised g rank keys stage N old (b :: stack) links)
    (hdepth : EnoughWithin keys N (b :: stack) depth) :
    Enough keys (N.reopen stage stack) stack depth := by
  have hlen := h.length_stack_le
  simp only [List.length_cons] at hlen
  have hpow : (keys.card + 1) ^ (keys.card + 1 - stack.length) =
      keys.card * (keys.card + 1) ^ (keys.card - stack.length) +
        (keys.card + 1) ^ (keys.card - stack.length) := by
    rw [show keys.card + 1 - stack.length = (keys.card - stack.length) + 1 by omega, pow_succ]
    ring
  have hpos : 0 < (keys.card + 1) ^ (keys.card - stack.length) := Nat.pow_pos (Nat.succ_pos _)
  have hdigit := Nat.mul_le_mul_right ((keys.card + 1) ^ (keys.card - stack.length))
    (h.length_active_le b)
  unfold EnoughWithin at hdepth
  unfold Enough
  simp only [load, Nesting.reopen_active] at hdepth ⊢
  omega

end Poised

end Pass

end ShaderGraph
