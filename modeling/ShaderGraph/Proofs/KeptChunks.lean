import ShaderGraph.Proofs.EmissionContracts
import ShaderGraph.Proofs.Termination

/-!
# The stock of a pass

The stock of a pass is what its code is made of: the chunks, the uniform expressions and the
interpolators. A report leaves it as it is (`Context.report_eq`), and chunks stay where they are
(`Pass.Prolongs`).
-/

namespace ShaderGraph

variable {ctx : Context} {c : Code} {d : Chunk} {p : Pass}

/-- The float types. -/
def ValueType.floats : List ValueType := [float, float1, float2, float3, float4]

namespace Pass

/-- The part of a state that code is made of. -/
structure Stock where
  scopes : List Scope
  nextTemporary : Nat
  uniforms : UniformTable
  interpolators : List Interpolator

/-- The part of a state that code is made of. -/
def stock (p : Pass) : Stock := ⟨p.scopes, p.nextTemporary, p.uniforms, p.interpolators⟩

/-- The chunks of the first state are chunks of the second, in the same places. -/
def Prolongs (p q : Pass) : Prop := ∀ k, p.scope k <+: q.scope k

section Prolongs

variable {p q r : Pass}

theorem Prolongs.refl (p : Pass) : p.Prolongs p := fun _ => List.prefix_rfl

theorem Prolongs.trans (h : p.Prolongs q) (h' : q.Prolongs r) : p.Prolongs r :=
  fun k => (h k).trans (h' k)

theorem scope_of_stock_eq (h : q.stock = p.stock) : q.scope = p.scope := by
  have hscopes : q.scopes = p.scopes := congrArg Stock.scopes h
  funext k
  simp only [scope, hscopes]

theorem Prolongs.of_stock_eq (h : q.stock = p.stock) : p.Prolongs q := fun k => by
  simp only [scope_of_stock_eq h, List.prefix_rfl]

theorem Prolongs.append (p : Pass) (k : Nat) (c : Chunk) : p.Prolongs (p.append k c) := by
  intro j
  rcases p.scope_append k j c with h | ⟨-, h⟩
  · simp only [h, List.prefix_rfl]
  · exact h ▸ List.prefix_append _ _

end Prolongs

end Pass

open Pass

theorem Context.Sees.prolong {q : Pass} (h : ctx.Sees c d p) (hq : p.Prolongs q) :
    ctx.Sees c d q := by
  obtain ⟨i, hi, hd⟩ := h
  exact ⟨i, hi, getElem?_of_prefix (hq _) hd⟩

theorem Context.Sees.mem (h : ctx.Sees c d p) : d ∈ p.scope ctx.scope := by
  obtain ⟨i, -, hd⟩ := h
  exact List.mem_of_getElem? hd

theorem Context.Sees.isNone (h : ctx.Sees c d p) : c.isNone = false := by
  obtain ⟨i, rfl, -⟩ := h
  rfl

/-- A chunk that was added is seen at the end of its scope. -/
theorem Context.sees_append (h : ctx.scope < p.scopes.length) (d : Chunk) :
    ctx.Sees (some (p.scope ctx.scope).length) d (p.append ctx.scope d) :=
  ⟨_, rfl, getElem?_append h d⟩

/-- A report gives no code and leaves the stock as it is. -/
theorem Context.report_eq (ctx : Context) (problem : Problem) (p : Pass) :
    ∃ q, ctx.report problem p = .ok none q ∧ q.stock = p.stock := by
  unfold report
  rw [get_bind_eq]
  cases p.sink with
  | some held => exact ⟨_, rfl, rfl⟩
  | none =>
    obtain ⟨log, -, h⟩ := addDiagnostic_eq
      ⟨(ctx.location p).1 ++ problem.message, (ctx.location p).2, problem.kind⟩ p
    exact ⟨_, bind_of_ok h, rfl⟩

end ShaderGraph
