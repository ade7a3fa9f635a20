import ShaderGraph.Proofs.NodeLogic
import ShaderGraph.Proofs.PlainOperations

/-!
# What nodes are compiled from

A node is compiled from plain steps and from the code of its inputs, which the compiler of the
inputs gives (`Node.compile_built`). Function inputs and calls are the exception: they open and
leave frames. So what holds of plain steps, and of the compiler of the inputs, holds of every other
node by one induction over `Context.Built`.
-/

namespace ShaderGraph

open Pass

/-- In a context, a licence allows for whatever node is compiled. -/
structure Pass.Licence.Covers (L : Licence) (ctx : Context) : Prop where
  samples : L.samples = true ∨ ctx.material.domain.isSurfaceOrDecal = false
  implements : L.implements = true ∨ ctx.property.isSome
  reports : L.reports = true ∨ ctx.stage ≠ .pixel

theorem Pass.Licence.Covers.full (ctx : Context) : Licence.full.Covers ctx :=
  ⟨.inl rfl, .inl rfl, .inl rfl⟩

/-- What is made, in a context, from plain steps, from steps that need a licence, and from the
compilation of some inputs. -/
inductive Context.Built (L : Licence) (ctx : Context) (inputs : List Input) :
    {α : Type} → (Compiler → PassM α) → Prop where
  | plain {α : Type} {m : PassM α} (h : Plain m) : Built L ctx inputs fun _ => m
  | licensed {α : Type} {m : PassM α} (h : Steps L m) : Built L ctx inputs fun _ => m
  | interpolator : Built L ctx inputs fun _ => ctx.readInterpolator
  | input {i : Input} (h : i ∈ inputs) : Built L ctx inputs fun compile => compile ctx i
  | bind {α β : Type} {f : Compiler → PassM α} {k : α → Compiler → PassM β}
      (hf : Built L ctx inputs f) (hk : ∀ a, Built L ctx inputs (k a)) :
      Built L ctx inputs fun compile => f compile >>= fun a => k a compile

namespace Context

open Concerns

variable {L : Licence} {ctx : Context}

/-- An operation is made from plain steps. -/
theorem Operates.plain {A : Allowance} {cs : List Code} {m : PassM Code}
    (h : ctx.Operates A cs m) : Plain m :=
  (h (stepping {} ctx) ⟨fun _ => trivial, fun _ => trivial, fun _ _ => trivial⟩ {} fun _ _ =>
    .unasked _).1

/-- The function of a custom output is not implemented for a property. -/
theorem implementOutput_covered (hL : L.Covers ctx) (name : String) (index : Int) (c : Code) :
    Steps L (ctx.implementOutput name index c) := by
  rcases hL.implements with hL | hproperty
  · exact implementOutput_steps hL _ _ c
  · obtain ⟨property, hproperty⟩ := Option.isSome_iff_exists.1 hproperty
    simp only [implementOutput, hproperty]
    exact .report _ rfl

/-- The logic of what nodes are made from. -/
def building (hL : L.Covers ctx) (inputs : List Input) : ctx.NodeLogic inputs where
  Ends _ f Q := Built L ctx inputs f ∧ ∀ a q, Q a q
  Later _ _ := True
  Good _ _ := True
  Points _ _ := True
  trans _ _ := trivial
  lasts _ _ := trivial
  stays _ _ := trivial
  points _ := trivial
  nowhere := trivial
  pure _ := ⟨.plain (.pure _), fun _ _ => trivial⟩
  bind {_ _ _ p _ _ _ _} hf hk :=
    ⟨.bind hf.1 fun a => (hk a p trivial (hf.2 a p)).1, (hk default p trivial (hf.2 _ p)).2⟩
  input h _ := ⟨.input h, fun _ _ => trivial⟩
  peek h := ⟨.input h, fun _ _ => trivial⟩
  operation _ h _ := ⟨.plain h.plain, fun _ _ => trivial⟩
  value _ := ⟨.plain (staticBoolValue_plain _), fun _ _ _ => trivial⟩
  known := ⟨.plain (.pure _), fun _ _ _ => trivial⟩
  sample _ _ _ _ := ⟨.licensed (sample_steps hL.samples _), fun _ _ => trivial⟩
  interpolator := ⟨.interpolator, fun _ _ => trivial⟩

end Context

namespace Node

open Context

variable {L : Licence} {ctx : Context}

/-- **A node that stays in its frame** is compiled from its inputs and from steps within a licence
that covers the context. -/
theorem compile_licensed (hL : L.Covers ctx) (g : Graph) (node : Node)
    (hnode : node.staysInFrame) (output : Int) :
    Built L ctx (node.inputs g) fun compile => node.compile g compile ctx output := by
  have hallows : (building hL (node.inputs g)).Allows node :=
    ⟨fun _ => trivial, False.elim, fun _ _ => trivial, .inl trivial, fun _ _ _ _ c name index _ =>
      ⟨.licensed (implementOutput_covered hL name index c), fun _ _ => trivial⟩⟩
  exact ((building hL _).node (p := {}) hnode hallows output).1

theorem compile_built (g : Graph) (node : Node) (hnode : node.staysInFrame) (output : Int) :
    Built .full ctx (node.inputs g) fun compile => node.compile g compile ctx output :=
  compile_licensed (.full ctx) g node hnode output

end Node

end ShaderGraph
