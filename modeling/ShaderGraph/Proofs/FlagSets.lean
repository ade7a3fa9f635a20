import Mathlib.Data.List.Induction
import ShaderGraph.Pass.State

/-!
# Sets of small numbers

What is in a set of flags, and how it grows: the least number that is missing is at most the bound
of the set, so adding it moves the bound by one at most (`FlagSet.bound_insertLeast_le`).
-/

namespace ShaderGraph

namespace FlagSet

/-- A number is in the set. -/
def Has (s : FlagSet) (i : Nat) : Prop := s[i]? = some true

variable {s : FlagSet} {i j : Nat}

theorem Has.lt_length (h : s.Has i) : i < s.length := (List.getElem?_eq_some_iff.mp h).1

/-- A flag that is set leaves all others as they are. -/
theorem Has.set (h : s.Has i) (j : Nat) : Has (s.set j true) i := by
  by_cases hij : j = i
  · subst hij
    exact List.getElem?_set_self h.lt_length
  · exact (List.getElem?_set_ne hij).trans h

theorem Has.append (h : s.Has i) (more : FlagSet) : Has (s ++ more) i :=
  (List.getElem?_append_left h.lt_length).trans h

theorem Has.insert (h : s.Has i) (j : Nat) : (s.insert j).Has i := (h.append _).set j

theorem has_insert_self (s : FlagSet) (i : Nat) : (s.insert i).Has i :=
  List.getElem?_set_self (by simp; omega)

theorem Has.of_set (h : Has (s.set i true) j) : s.Has j ∨ j = i := by
  by_cases hij : i = j
  · exact .inr hij.symm
  · exact .inl ((List.getElem?_set_ne hij).symm.trans h)

theorem Has.of_insert (h : (s.insert i).Has j) : s.Has j ∨ j = i := by
  refine h.of_set.imp_left fun hpadded => ?_
  unfold Has at *
  rcases Nat.lt_or_ge j s.length with hlt | hge
  · rwa [List.getElem?_append_left hlt] at hpadded
  · rw [List.getElem?_append_right hge, List.getElem?_replicate] at hpadded
    split at hpadded <;> cases hpadded

/-- The least number that is missing is added, and nothing else. -/
theorem insertLeast_spec (s : FlagSet) :
    ¬s.Has s.insertLeast.1 ∧ (∀ i < s.insertLeast.1, s.Has i) ∧
      ∀ i, s.insertLeast.2.Has i ↔ s.Has i ∨ i = s.insertLeast.1 := by
  unfold insertLeast
  split
  case h_1 i hi =>
    obtain ⟨hlt, hfree, hbelow⟩ := List.findIdx?_eq_some_iff_getElem.mp hi
    refine ⟨fun hhas => ?_, fun j hj => ?_, fun j => ⟨Has.of_set, ?_⟩⟩
    · simp [Has, List.getElem?_eq_getElem hlt] at hhas
      simp [hhas] at hfree
    · have hset := hbelow j hj
      simpa [Has, List.getElem?_eq_getElem (Nat.lt_trans hj hlt)] using hset
    · rintro (hj | rfl)
      · exact hj.set i
      · exact List.getElem?_set_self hlt
  case h_2 hnone =>
    have hfull : ∀ j < s.length, s.Has j := fun j hj => by
      have hset := List.findIdx?_eq_none_iff.mp hnone s[j] (List.getElem_mem hj)
      simpa [Has, List.getElem?_eq_getElem hj] using hset
    refine ⟨fun hhas => Nat.lt_irrefl _ hhas.lt_length, hfull, fun j => ⟨fun hj => ?_, ?_⟩⟩
    · have hlt := hj.lt_length
      rw [List.length_append, List.length_singleton] at hlt
      rcases Nat.lt_succ_iff_lt_or_eq.mp hlt with hlt | heq
      · exact .inl (hfull j hlt)
      · exact .inr heq
    · rintro (hj | rfl)
      · exact hj.append _
      · exact List.getElem?_concat_length

/-! ### Bounds -/

theorem bound_concat (s : FlagSet) (b : Bool) :
    bound (s ++ [b]) = if b then s.length + 1 else bound s := by
  cases b <;> simp [bound]

/-- The bound is the least one. -/
theorem bound_le_iff {n : Nat} : s.bound ≤ n ↔ ∀ i, s.Has i → i < n := by
  induction s using List.reverseRecOn with
  | nil => simp [bound, Has]
  | append_singleton s b ih =>
    rw [bound_concat]
    cases b with
    | true =>
      rw [if_pos rfl]
      refine ⟨fun hn i hi => ?_, fun h => h s.length List.getElem?_concat_length⟩
      have hlt := hi.lt_length
      rw [List.length_append, List.length_singleton] at hlt
      omega
    | false =>
      rw [if_neg (by simp), ih]
      refine ⟨fun h i hi => h i ?_, fun h i hi => h i (hi.append _)⟩
      rcases Nat.lt_or_ge i s.length with hlt | hge
      · exact (List.getElem?_append_left hlt).symm.trans hi
      · have hlast := (List.getElem?_append_right hge).symm.trans hi
        cases hrest : i - s.length <;> simp [hrest] at hlast

theorem bound_insert_le {n : Nat} (hs : s.bound ≤ n) (hi : i < n) : (s.insert i).bound ≤ n :=
  bound_le_iff.2 fun j hj => hj.of_insert.elim (bound_le_iff.1 hs j) fun h => h ▸ hi

/-- To fill the first gap moves the bound by one at most. -/
theorem bound_insertLeast_le (s : FlagSet) : s.insertLeast.2.bound ≤ s.bound + 1 := by
  obtain ⟨-, hbelow, hhas⟩ := s.insertLeast_spec
  have hbound := bound_le_iff.1 (Nat.le_refl s.bound)
  refine bound_le_iff.2 fun i hi => ?_
  rcases (hhas i).1 hi with hi | rfl
  · exact Nat.lt_succ_of_lt (hbound i hi)
  · -- All below the gap are in the set, the bound itself is not.
    refine Nat.lt_of_not_le fun hlarge => ?_
    exact Nat.lt_irrefl _ (hbound s.bound (hbelow _ (by omega)))

end FlagSet

end ShaderGraph
