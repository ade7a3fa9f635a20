import ShaderGraph.Proofs.LicensedSteps
import ShaderGraph.Proofs.Stacks

/-!
# What emitting code leaves alone

Between the moment at which a lookup looks for its stack and the moment at which it adds one, it
emits code, and without a licence to sample that leaves the stacks and their entries alone. So a
lookup is given the stack that is found for its key, and otherwise one that it adds
(`Context.acquireStack_ok`).
-/

namespace ShaderGraph

open Pass

namespace Context

variable {ctx : Context} {p q : Pass} {l : Lookup}

/-- The key of a lookup is that of its scope and its texture. -/
theorem stackKey_ok {key : StackKey} (h : ctx.stackKey l p = .ok key q) :
    key.scope = ctx.scope ∧ key.preallocated = l.preallocated ∧ q.kept = p.kept := by
  have hkept := ((stackKey_plain l).remains _ _ h).kept rfl
  obtain ⟨_, _, -, h⟩ := exists_of_bind h
  obtain ⟨_, _, -, h⟩ := exists_of_bind h
  obtain ⟨_, _, -, h⟩ := exists_of_bind h
  cases h
  exact ⟨rfl, rfl, hkept⟩

/-- **A stack is acquired**: the one that is found for the key of the lookup, and if there is none,
a new one behind all others. -/
theorem acquireStack_ok {i : Nat} (h : ctx.acquireStack l p = .ok i q) :
    ∃ key p₁, ctx.stackKey l p = .ok key p₁ ∧
      (findStack? p key = some i ∧ q = p₁ ∨
        findStack? p key = none ∧ i = p.stackEntries.length ∧
          q.slots.layerStacks = p.slots.layerStacks ++ [.fresh l.preallocated] ∧
          ∃ pageTable p₂ p₃, q.stackEntries = p.stackEntries ++ [⟨key, pageTable⟩] ∧
            p₂.scopes = p₁.scopes ∧ ctx.emitLookup i l p₂ = .ok pageTable p₃ ∧
            q.scopes = p₃.scopes) := by
  obtain ⟨key, p₁, hkey, h⟩ := exists_of_bind h
  have hsame := (stackKey_ok hkey).2.2
  have hentries : p₁.stackEntries = p.stackEntries := congrArg StackState.entries hsame
  have hstacks : p₁.slots.layerStacks = p.slots.layerStacks := congrArg StackState.layers hsame
  refine ⟨key, p₁, hkey, ?_⟩
  rw [← findStack?_of_kept_eq hsame]
  obtain ⟨_, p₂, hget, h⟩ := exists_of_bind h
  cases hget
  cases hfind : findStack? p₁ key with
  | some j =>
    simp only [hfind] at h
    cases h
    exact .inl ⟨rfl, rfl⟩
  | none =>
    simp only [hfind] at h
    obtain ⟨_, p₃, hset, h⟩ := exists_of_bind h
    obtain ⟨_, p₄, hnote, h⟩ := exists_of_bind h
    obtain ⟨pageTable, p₅, hlookup, h⟩ := exists_of_bind h
    have hkept := ((emitLookup_plain _ _).remains _ _ hlookup).kept rfl
    cases h
    cases hnote
    cases hset
    refine .inr ⟨rfl, congrArg List.length hentries, ?_, pageTable, _, p₅, ?_, ?_, hlookup, rfl⟩
    · exact (congrArg StackState.layers hkept).trans (congrArg (· ++ _) hstacks)
    · exact congrArg (· ++ _) ((congrArg StackState.entries hkept).trans hentries)
    · rfl

/-- A stack that was acquired has an entry with the key of the lookup. -/
theorem acquireStack_key {i : Nat} (h : ctx.acquireStack l p = .ok i q) :
    ∃ entry, q.stackEntries[i]? = some entry ∧ entry.key.scope = ctx.scope ∧
      entry.key.preallocated = l.preallocated := by
  obtain ⟨key, p₁, hkey, hfound | ⟨-, rfl, -, pageTable, _, _, hentries, -⟩⟩ := acquireStack_ok h
  all_goals obtain ⟨hscope, hpreallocated, hkept⟩ := stackKey_ok hkey
  · obtain ⟨hfind, rfl⟩ := hfound
    obtain ⟨entry, s, hentry, -, hagrees, -⟩ := usable_of_findStack? hfind
    have hentries : q.stackEntries = p.stackEntries := congrArg StackState.entries hkept
    refine ⟨entry, hentries ▸ hentry, ?_, ?_⟩
    · exact (StackKey.scope_eq_of_agrees hagrees).trans hscope
    · exact (StackKey.preallocated_eq_of_agrees hagrees).trans hpreallocated
  · refine ⟨⟨key, pageTable⟩, ?_, hscope, hpreallocated⟩
    rw [hentries]
    exact List.getElem?_concat_length

end Context

end ShaderGraph
