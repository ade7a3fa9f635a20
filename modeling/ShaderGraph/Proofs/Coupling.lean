import ShaderGraph.Proofs.NodeSteps

/-!
# Two runs side by side

Two steps are coupled if, from related states, they break off with the same fault or return the
same result in related states. A relation that takes in what plain steps do (`Pass.Absorbs`) couples
every plain step with itself, and every node that stays in its frame with itself, as long as it
couples the two compilers of the inputs.
-/

namespace ShaderGraph

namespace Pass

variable {p q : Pass} {ctx : Context}

/-- Two steps end alike: with related states after the same result, or after the same fault. -/
def Agree (E : Fault → Pass → Pass → Prop) (R : Pass → Pass → Prop) {α : Type} :
    EStateM.Result Fault Pass α → EStateM.Result Fault Pass α → Prop
  | .ok a p, .ok b q => a = b ∧ R p q
  | .error e p, .error f q => e = f ∧ E e p q
  | _, _ => False

/-- From states in one relation, two steps end alike in states in another. -/
def Couples (E : Fault → Pass → Pass → Prop) (R S : Pass → Pass → Prop) {α : Type}
    (m n : PassM α) : Prop := ∀ p q, R p q → Agree E S (m p) (n q)

/-- Two steps that end alike, and keep states related. -/
abbrev Keeps (E : Fault → Pass → Pass → Prop) (R : Pass → Pass → Prop) {α : Type}
    (m n : PassM α) : Prop := Couples E R R m n

theorem bind_of_ok {α β : Type} {m : PassM α} {f : α → PassM β} {a : α} (h : m p = .ok a q) :
    (m >>= f) p = f a q := by
  change EStateM.bind m f p = _
  simp only [EStateM.bind, h]

theorem bind_congr_run {α β : Type} {m n : PassM α} (h : n p = m p) (f : α → PassM β) :
    (n >>= f) p = (m >>= f) p := by
  change EStateM.bind n f p = EStateM.bind m f p
  unfold EStateM.bind
  rw [h]

theorem get_bind_eq {α : Type} (f : Pass → PassM α) (p : Pass) : (get >>= f) p = f p p := rfl

/-- What ends alike may be followed by what ends alike. -/
theorem Agree.bind {E : Fault → Pass → Pass → Prop} {S T : Pass → Pass → Prop} {α β : Type}
    {m n : PassM α} {f k : α → PassM β} (hmn : Agree E S (m p) (n q))
    (hf : ∀ a, Couples E S T (f a) (k a)) : Agree E T ((m >>= f) p) ((n >>= k) q) := by
  change Agree E T (EStateM.bind m f p) (EStateM.bind n k q)
  unfold EStateM.bind
  cases hp : m p <;> cases hq : n q <;> rw [hp, hq] at hmn
  case ok.ok a p' b q' =>
    obtain ⟨rfl, hs⟩ := hmn
    exact hf a p' q' hs
  case error.error => exact hmn
  all_goals exact hmn.elim

namespace Couples

variable {E : Fault → Pass → Pass → Prop} {R S T : Pass → Pass → Prop} {α β : Type}

theorem pure (a : α) : Keeps E R (pure a) (pure a) := fun _ _ h => ⟨rfl, h⟩

theorem throw {e : Fault} (h : ∀ p q, R p q → E e p q) :
    Couples E R S (throw e : PassM α) (throw e) := fun p q hr => ⟨rfl, h p q hr⟩

theorem modify {u v : Pass → Pass} (h : ∀ p q, R p q → S (u p) (v q)) :
    Couples E R S (modify u) (modify v) := fun p q hr => ⟨rfl, h p q hr⟩

theorem bind {m n : PassM α} {f k : α → PassM β} (hm : Couples E R S m n)
    (hf : ∀ a, Couples E S T (f a) (k a)) : Couples E R T (m >>= f) (n >>= k) :=
  fun p q hr => (hm p q hr).bind hf

/-- The steps may be chosen by the states they start in. -/
theorem get_bind {f k : Pass → PassM α}
    (h : ∀ p q, R p q → Agree E S (f p p) (k q q)) :
    Couples E R S (get >>= f) (get >>= k) := h

theorem mono {R' S' : Pass → Pass → Prop} {m n : PassM α} (h : Couples E R S m n)
    (hr : ∀ p q, R' p q → R p q) (hs : ∀ p q, S p q → S' p q) : Couples E R' S' m n := by
  intro p q hpq
  have hmn := h p q (hr p q hpq)
  cases hp : m p <;> cases hq : n q <;> rw [hp, hq] at hmn
  case ok.ok => exact ⟨hmn.1, hs _ _ hmn.2⟩
  case error.error => exact hmn
  all_goals exact hmn.elim

theorem forM {l : List α} {f k : α → PassM PUnit} (h : ∀ a ∈ l, Keeps E R (f a) (k a)) :
    Keeps E R (l.forM f) (l.forM k) := by
  induction l with
  | nil => exact pure _
  | cons a l ih => exact (h a (by simp)).bind fun _ => ih fun b hb => h b (by simp [hb])

end Couples

/-- A relation between states that takes in whatever plain steps do. -/
structure Absorbs (E : Fault → Pass → Pass → Prop) (R : Pass → Pass → Prop) : Prop where
  fault : ∀ {p q : Pass} {e : Fault}, R p q → e.concernsFrames = false → E e p q
  core : ∀ {p q : Pass}, R p q → p.core = q.core
  update : ∀ {p q : Pass} {u : Pass → Pass}, R p q → (∀ p, (u p).apart = p.apart) →
    (∀ p, (u p).core = (u p.core).core) → (∀ p, Abides .full p (u p)) → R (u p) (u q)
  note : ∀ level message attributes,
    Keeps E R (note level message attributes) (note level message attributes)
  report : ∀ (ctx : Context) {problem : Problem}, problem.isOrdinary →
    Keeps E R (ctx.report problem) (ctx.report problem)
  reportGlobally : ∀ {problem : Problem}, problem.isOrdinary →
    Keeps E R (reportGlobally problem) (reportGlobally problem)

variable {E : Fault → Pass → Pass → Prop} {R : Pass → Pass → Prop}

/-- **Steps that know nothing of frames** end alike in related states. -/
theorem Steps.couples (hR : Absorbs E R) {L : Licence} {α : Type} {m : PassM α} (hm : Steps L m) :
    Keeps E R m m := by
  induction hm with
  | pure a => exact .pure a
  | throw h => exact .throw fun p q hr => hR.fault hr h
  | read hcore _ ih =>
    refine .get_bind fun p q hr => ?_
    -- What is read is in the core, so both sides go on with the same step.
    rw [hcore q, ← hR.core hr, ← hcore p]
    exact ih p p q hr
  | change hapart hcore habides =>
    exact .modify fun p q hr => hR.update hr hapart hcore fun p => (habides p).full
  | note level message attributes => exact hR.note level message attributes
  | report ctx h => exact hR.report ctx h
  | reportGlobally _ h => exact hR.reportGlobally h
  | seq _ hf ihm ihf =>
    rename_i m f _
    intro p q hr
    have hmm := ihm p q hr
    change Agree E R (EStateM.bind m f p) (EStateM.bind m f q)
    unfold EStateM.bind
    cases hp : m p <;> cases hq : m q <;> rw [hp, hq] at hmm
    case ok.ok a p' b q' =>
      obtain ⟨rfl, hs⟩ := hmm
      exact ihf a ⟨p, p', hp⟩ p' q' hs
    case error.error => exact hmm
    all_goals exact hmm.elim

/-- The diagnostics that are held back for a node. -/
def heldFor (p : Pass) (id : NodeId) : List Diagnostic := (p.interpolatorErrors.lookup id).getD []

/-- Interpolators are read alike, if what is held back for them is reported alike. -/
theorem Absorbs.readInterpolator (hR : Absorbs E R)
    (hheld : ∀ p q, R p q → Keeps E R ((p.heldFor ctx.node).forM addDiagnostic)
      ((q.heldFor ctx.node).forM addDiagnostic)) :
    Keeps E R ctx.readInterpolator ctx.readInterpolator := by
  unfold Context.readInterpolator
  split
  · exact hR.report ctx rfl
  refine .get_bind fun p q hpq => ?_
  have hsame : p.interpolators = q.interpolators :=
    (congrArg interpolators (hR.core hpq) : p.core.interpolators = q.core.interpolators)
  rw [← hsame]
  cases p.interpolators.findIdx? fun i => i.node == ctx.node with
  | some index =>
    dsimp only
    cases p.interpolators[index]? with
    | none => exact hR.report ctx rfl p q hpq
    | some i =>
      exact ((Context.interpolatorOffset_steps (L := .full) rfl _ _).couples hR).bind
        (fun offset => (Context.emitTemporary_plain _ _).couples hR) p q hpq
  | none => exact (hheld p q hpq).bind (fun _ => hR.report ctx rfl) p q hpq

/-- A function input is compiled alike if what the caller compiles for it is, and its preview. -/
theorem Absorbs.argument (hR : Absorbs E R) {a preview : Input} {index : Int} {type : ValueType}
    {m n m' n' : PassM Code} (hargument : a.isConnected → Keeps E R m n)
    (hpreview : Keeps E R m' n') :
    Keeps E R
      (if a.isConnected then m >>= fun code => ctx.convert code type
        else if preview.isConnected then m' >>= fun code => ctx.convert code type
        else ctx.report (.missingFunctionInput index))
      (if a.isConnected then n >>= fun code => ctx.convert code type
        else if preview.isConnected then n' >>= fun code => ctx.convert code type
        else ctx.report (.missingFunctionInput index)) := by
  have hconvert : ∀ code, Keeps E R (ctx.convert code type) (ctx.convert code type) := fun code =>
    (Context.convert_plain _ _).couples hR
  split
  case isTrue hconnected => exact (hargument hconnected).bind hconvert
  split
  · exact hpreview.bind hconvert
  · exact hR.report ctx rfl

end Pass

open Pass

/-- **What is built** from plain steps and inputs ends alike if the compilers of the inputs do. -/
theorem Context.Built.couples {E : Fault → Pass → Pass → Prop} {R : Pass → Pass → Prop}
    (hR : Absorbs E R) {ctx : Context} {inputs : List Input}
    (hinterpolator : Keeps E R ctx.readInterpolator ctx.readInterpolator)
    {c d : Compiler} (hinput : ∀ i ∈ inputs, Keeps E R (c ctx i) (d ctx i))
    {L : Licence} {α : Type} {f : Compiler → PassM α} (hf : Built L ctx inputs f) :
    Keeps E R (f c) (f d) := by
  induction hf with
  | plain h | licensed h => exact h.couples hR
  | interpolator => exact hinterpolator
  | input h => exact hinput _ h
  | bind _ _ ihf ihk => exact ihf.bind ihk

end ShaderGraph
