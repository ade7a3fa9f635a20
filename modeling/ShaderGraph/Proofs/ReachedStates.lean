import ShaderGraph.Proofs.Effects

/-!
# States that a compilation reaches

Compiling makes a pass evolve. Besides that, a compilation gives each stage its scope before
anything is compiled, records the result of the normal and where it ends, and compiles the programs
of the slots when all code is there. `Pass.Step` lists this, and `Pass.Reaches` says that a
compilation gets from one state to another. What every step keeps holds from a state on to the end.
-/

namespace ShaderGraph

open Relation

namespace Pass

/-- How a compilation moves on. -/
inductive Step (p : Pass) : Pass → Prop where
  | effect {q : Pass} (h : Effect p q) : Step p q
  /-- A stage is given its scope. There are no results yet. -/
  | stage (stage : Stage) (k : Nat) (hresults : ∀ property, p.results.get property = none) :
      Step p { p with stageScopes := p.stageScopes.set stage k }
  /-- The result of the normal is recorded. -/
  | normal {c : Code} (hsuits : p.Suits .normal c) : Step p (p.withResult .normal c)
  /-- The normal ends. -/
  | normalEnd (n : Nat) : Step p { p with normalEnd := n }
  /-- The programs of the slots are compiled. -/
  | programs {slots : UniformSet} (h : p.slots.withPrograms = .ok slots) :
      Step p { p with slots := slots }

/-- A compilation gets from the first state to the second. -/
def Reaches : Pass → Pass → Prop := ReflTransGen Step

namespace Reaches

variable {p q r : Pass}

@[refl] theorem refl (p : Pass) : p.Reaches p := ReflTransGen.refl

@[trans] theorem trans (h : p.Reaches q) (h' : q.Reaches r) : p.Reaches r :=
  ReflTransGen.trans h h'

theorem step (h : p.Reaches q) (h' : Step q r) : p.Reaches r := ReflTransGen.tail h h'

theorem evolves (h : p.Reaches q) (h' : q.Evolves r) : p.Reaches r := by
  induction h' with
  | refl => exact h
  | tail _ heffect ih => exact ih.step (.effect heffect)

end Reaches

end Pass

/-- The programs of the scalars are compiled before those of the vectors. -/
theorem UniformSet.withPrograms_ok {set slots : UniformSet} (h : set.withPrograms = .ok slots) :
    ∃ ps qs table final,
      Uniform.programs (set.scalars.map (·.expr)) set.parameters = .ok (ps, table) ∧
      Uniform.programs (set.vectors.map (·.expr)) table = .ok (qs, final) ∧
      slots = { set with scalarPrograms := ps, vectorPrograms := qs, parameters := final } := by
  obtain ⟨⟨ps, table⟩, hscalars, hrest⟩ := exists_of_bind_ok h
  obtain ⟨⟨qs, final⟩, hvectors, hset⟩ := exists_of_bind_ok hrest
  exact ⟨ps, qs, table, final, hscalars, hvectors, (Except.ok.inj hset).symm⟩

namespace Pass

variable {p q : Pass}

/-- Programs leave the slots as they are. -/
theorem table_withPrograms {set slots : UniformSet} (h : set.withPrograms = .ok slots)
    (kind : SlotKind) : slots.table kind = set.table kind := by
  obtain ⟨ps, qs, table, final, -, -, rfl⟩ := UniformSet.withPrograms_ok h
  cases kind <;> rfl

theorem Step.sound (h : Step p q) (hp : p.Sound) : q.Sound := by
  cases h with
  | effect h => exact h.sound hp
  | stage =>
    exact ⟨hp.ordered, hp.numbered, hp.listed, hp.slotted, hp.interned, hp.single, hp.counted,
      hp.implemented⟩
  | normal => exact hp.with_results _ _
  | normalEnd => exact hp.with_results _ _
  | programs h => exact hp.with_slots (table_withPrograms h)

theorem Step.retains (h : Step p q) : p.Retains q := by
  cases h with
  | effect h => exact h.retains
  | programs h => exact .of_eq rfl rfl (table_withPrograms h) rfl rfl
  | stage | normal | normalEnd => exact .of_eq rfl rfl (fun _ => rfl) rfl rfl

/-- **What a step keeps**, a compilation keeps. -/
theorem Reaches.invariant {P : Pass → Prop} (hstep : ∀ p q, Step p q → P p → P q)
    (h : p.Reaches q) (hp : P p) : P q := by
  induction h with
  | refl => exact hp
  | tail _ hlast ih => exact hstep _ _ hlast ih

namespace Reaches

theorem sound (h : p.Reaches q) (hp : p.Sound) : q.Sound :=
  h.invariant (fun _ _ => Step.sound) hp

/-- **A compilation** only adds to the stores. -/
theorem retains (h : p.Reaches q) : p.Retains q :=
  h.invariant (P := p.Retains) (fun _ _ hstep hp => hp.trans hstep.retains) (.refl p)

end Reaches

end Pass

end ShaderGraph
