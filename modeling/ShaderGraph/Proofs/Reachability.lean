import Mathlib.Algebra.Order.BigOperators.Group.Finset
import ShaderGraph.Pass.Validation

/-!
# The search for virtual textures

The search follows every connection of a graph at most once, so it does not run out of steps: it
finds a node that uses a virtual texture exactly if one is reached
(`ExpressionGraph.reachesVirtualTexture_iff`).
-/

namespace ShaderGraph

namespace ExpressionGraph

variable {g : ExpressionGraph} {visited : List NodeId} {n m : NodeId} {e : Expression}

/-- A node leads to one that uses a virtual texture, past none of the given nodes. -/
inductive Leads (g : ExpressionGraph) (visited : List NodeId) : NodeId → Prop where
  | here {n : NodeId} {e : Expression} (hnew : n ∉ visited) (he : g.node? n = some e)
      (huses : e.usesVirtualTexture) : Leads g visited n
  | step {n : NodeId} {e : Expression} {i : Input} (hnew : n ∉ visited) (he : g.node? n = some e)
      (hi : i ∈ e.inputs) (h : Leads g visited i.node) : Leads g visited n

namespace Leads

theorem not_mem (h : Leads g visited n) : n ∉ visited := by
  cases h with
  | here hnew => exact hnew
  | step hnew => exact hnew

theorem exists_node (h : Leads g visited n) : ∃ e, g.node? n = some e := by
  cases h with
  | here _ he => exact ⟨_, he⟩
  | step _ he => exact ⟨_, he⟩

theorem of_cons (h : Leads g (m :: visited) n) : Leads g visited n := by
  induction h with
  | here hnew he huses => exact .here (fun h => hnew (List.mem_cons_of_mem _ h)) he huses
  | step hnew he hi _ ih => exact .step (fun h => hnew (List.mem_cons_of_mem _ h)) he hi ih

/-- A node that does not exist is on no way. -/
theorem cons_of_missing (h : Leads g visited n) (hm : g.node? m = none) :
    Leads g (m :: visited) n := by
  have hne : ∀ {n e}, g.node? n = some e → n ∉ visited → n ∉ m :: visited := by
    intro n e he hnew hmem
    rcases List.mem_cons.1 hmem with rfl | hmem
    · rw [hm] at he
      cases he
    · exact hnew hmem
  induction h with
  | here hnew he huses => exact .here (hne he hnew) he huses
  | step hnew he hi _ ih => exact .step (hne he hnew) he hi ih

/-- A way that leads past a node goes on from one of its inputs. -/
theorem cons_or (h : Leads g visited n) (hm : g.node? m = some e)
    (huses : e.usesVirtualTexture = false) :
    Leads g (m :: visited) n ∨ ∃ i ∈ e.inputs, Leads g (m :: visited) i.node := by
  induction h with
  | @here n e' hnew he huses' =>
    refine .inl (.here (fun hmem => ?_) he huses')
    rcases List.mem_cons.1 hmem with rfl | hmem
    · cases he.symm.trans hm
      rw [huses] at huses'
      cases huses'
    · exact hnew hmem
  | @step n e' i hnew he hi _ ih =>
    rcases ih with ih | ih
    · by_cases hne : n = m
      · subst hne
        cases he.symm.trans hm
        exact .inr ⟨i, hi, ih⟩
      · exact .inl (.step (by simp [hne, hnew]) he hi ih)
    · exact .inr ih

end Leads

/-! ### The steps of the search -/

/-- The number of connections of a node. -/
def width (g : ExpressionGraph) (n : NodeId) : Nat := (g.node? n).elim 0 fun e => e.inputs.length

/-- The number of connections that were not followed yet. -/
def unseen (g : ExpressionGraph) (visited : List NodeId) : Nat :=
  ∑ n ∈ (Finset.range (g.expressions.length + 1)).filter (· ∉ visited), g.width n

theorem lt_of_node? (h : g.node? n = some e) : n < g.expressions.length + 1 := by
  unfold node? at h
  split at h
  case isTrue => cases h
  case isFalse =>
    have hlt : n - 1 < g.expressions.length := (List.getElem?_eq_some_iff.1 h).1
    exact Nat.lt_succ_of_le (Nat.le_of_pred_lt hlt)

theorem unseen_cons (hnew : n ∉ visited) (he : g.node? n = some e) :
    e.inputs.length + g.unseen (n :: visited) = g.unseen visited := by
  have herase : (Finset.range (g.expressions.length + 1)).filter (· ∉ n :: visited) =
      ((Finset.range (g.expressions.length + 1)).filter (· ∉ visited)).erase n := by
    ext m
    simp only [Finset.mem_filter, Finset.mem_erase, List.mem_cons, not_or]
    tauto
  have hmem : n ∈ (Finset.range (g.expressions.length + 1)).filter (· ∉ visited) :=
    Finset.mem_filter.2 ⟨Finset.mem_range.2 (lt_of_node? he), hnew⟩
  have hwidth : g.width n = e.inputs.length := by simp [width, he]
  unfold unseen
  rw [herase, ← hwidth, Finset.add_sum_erase _ _ hmem]

theorem unseen_cons_le : g.unseen (n :: visited) ≤ g.unseen visited := by
  refine Finset.sum_le_sum_of_subset fun m hm => ?_
  simp only [Finset.mem_filter, List.mem_cons, not_or] at hm ⊢
  exact ⟨hm.1, hm.2.2⟩

theorem unseen_nil : g.unseen [] = (g.expressions.flatMap (·.inputs)).length := by
  have hsum : ∀ l : List Expression,
      ∑ k ∈ Finset.range l.length, (l[k]?).elim 0 (fun e => e.inputs.length) =
        (l.flatMap (·.inputs)).length := by
    intro l
    induction l with
    | nil => rfl
    | cons e l ih =>
      rw [List.length_cons, Finset.sum_range_succ', List.flatMap_cons, List.length_append, ← ih]
      simp [Nat.add_comm]
  unfold unseen
  rw [Finset.filter_true_of_mem (by simp), Finset.sum_range_succ', ← hsum]
  rfl

/-- **The search** finds what is reached, if it has as many steps as there are connections left. -/
theorem findsVirtualTexture_iff {steps : Nat} {pending : List Input}
    (h : pending.length + g.unseen visited ≤ steps) :
    g.findsVirtualTexture steps visited pending ↔ ∃ i ∈ pending, Leads g visited i.node := by
  induction steps generalizing visited pending with
  | zero =>
    obtain rfl : pending = [] := List.length_eq_zero_iff.1 (by omega)
    simp [findsVirtualTexture]
  | succ steps ih =>
    cases pending with
    | nil => simp [findsVirtualTexture]
    | cons input pending =>
      rw [List.length_cons] at h
      unfold findsVirtualTexture
      simp only [List.mem_cons, exists_eq_or_imp]
      split
      case isTrue hskip =>
        have hnot : ¬Leads g visited input.node := by
          intro hleads
          obtain ⟨e, he⟩ := hleads.exists_node
          simp only [Bool.or_eq_true, Bool.not_eq_true', List.contains_iff_mem] at hskip
          rcases hskip with hskip | hskip
          · have hzero : input.node = 0 := by simpa [Input.isConnected] using hskip
            rw [hzero] at he
            cases he
          · exact hleads.not_mem hskip
        rw [ih (by omega)]
        simp [hnot]
      case isFalse hskip =>
        have hnew : input.node ∉ visited := by
          simp only [Bool.or_eq_true, List.contains_iff_mem, not_or] at hskip
          exact hskip.2
        cases he : g.node? input.node with
        | none =>
          have hle : g.unseen (input.node :: visited) ≤ g.unseen visited := unseen_cons_le
          rw [ih (by omega)]
          constructor
          · rintro ⟨i, hi, hleads⟩
            exact .inr ⟨i, hi, hleads.of_cons⟩
          · rintro (hleads | ⟨i, hi, hleads⟩)
            · obtain ⟨e, he'⟩ := hleads.exists_node
              rw [he] at he'
              cases he'
            · exact ⟨i, hi, hleads.cons_of_missing he⟩
        | some e =>
          have hcount := unseen_cons hnew he
          rw [Bool.or_eq_true, ih (by rw [List.length_append]; omega)]
          cases huses : e.usesVirtualTexture with
          | true => simp [Leads.here hnew he huses]
          | false =>
            simp only [Bool.false_eq_true, false_or, List.mem_append]
            constructor
            · rintro ⟨i, hi | hi, hleads⟩
              · exact .inl (.step hnew he hi hleads.of_cons)
              · exact .inr ⟨i, hi, hleads.of_cons⟩
            · rintro (hleads | ⟨i, hi, hleads⟩)
              · rcases hleads.cons_or he huses with hagain | ⟨i, hi, hleads⟩
                · exact absurd (List.mem_cons_self ..) hagain.not_mem
                · exact ⟨i, .inl hi, hleads⟩
              · rcases hleads.cons_or he huses with hleads | ⟨i, hi, hleads⟩
                · exact ⟨i, .inr hi, hleads⟩
                · exact ⟨i, .inl hi, hleads⟩

theorem reachesVirtualTexture_iff (root : Input) :
    g.reachesVirtualTexture root ↔ Leads g [] root.node := by
  unfold reachesVirtualTexture
  rw [findsVirtualTexture_iff (by rw [unseen_nil]; simp; omega)]
  simp

end ExpressionGraph

end ShaderGraph
