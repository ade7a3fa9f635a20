import ShaderGraph.Proofs.EmissionContracts
import ShaderGraph.Proofs.Nesting

/-!
# Watching a compilation

Two things are done to the expressions of a graph, to say what happens while it is compiled. They
are watched: where an expression is not about to be compiled in a state as it has to be, or did not
end in one, the compilation breaks off with an alarm (`Expression.watched`). So a watch never
strikes if the watched graph does the same as the graph, whatever the alarm. And they are counted:
each time a key is about to be compiled in a frame, an entry is put in front of the log, which no
step reads (`Expression.counted`).

What a watch looks for is often known only in the end: which scope a frame belongs to, and what
comes of the keys that are compiled in it. That is kept in a `Ledger`, which only grows.
`Pass.Observed l p m n Q` says that the step `m` from `p` does the same as the probed steps `n`,
for every ledger that goes on from the one it ends with.
-/

namespace ShaderGraph

open Pass

/-! ### Changed graphs -/

/-- What is looked for while a graph is compiled. -/
structure Watch where
  /-- What has to hold of the state in which the code of an input is asked for. -/
  asked : Context → Pass → Prop
  /-- What has to hold of that state, the code and the state in which it is given. -/
  answered : Context → Pass → Code → Pass → Prop
  /-- What has to hold of the state in which an expression begins to be compiled. -/
  before : Context → Pass → Prop
  /-- What has to hold of that state, the result and the state in which it ends. -/
  after : Context → Pass → Code → Pass → Prop

/-- A frame and a key, and the entry that counts the compilations of the key in the frame. -/
structure Tally where
  frame : Nat
  key : Key
  entry : LogEntry

open Classical in
/-- A step that breaks off where it does not start or end as it has to. -/
noncomputable def guarded (before : Pass → Prop) (after : Pass → Code → Pass → Prop)
    (alarm : Fault) (m : PassM Code) : PassM Code := fun p =>
  if before p then (m >>= fun c q => if after p c q then .ok c q else .error alarm q) p
  else .error alarm p

namespace Watch

/-- A compilation of an expression that is watched. -/
noncomputable def guard (w : Watch) (alarm : Fault) (ctx : Context) (m : PassM Code) :
    PassM Code := guarded (w.before ctx) (w.after ctx) alarm m

/-- A compiler that is watched. -/
noncomputable def ask (w : Watch) (alarm : Fault) (compile : Compiler) : Compiler :=
  fun ctx input => guarded (w.asked ctx) (w.answered ctx) alarm (compile ctx input)

end Watch

/-- The frame and the key that an expression is being compiled for, unless it is compiled apart from
all keys. -/
def Context.compiling? (ctx : Context) (p : Pass) : Option (Nat × Key) :=
  (p.openFrames.get ctx.stage).head?.bind fun f => (p.nesting.active f).head?.map fun κ => (f, κ)

/-- Counts a compilation that begins. -/
def Tally.count (t : Tally) (ctx : Context) (p : Pass) : Pass :=
  if ctx.compiling? p = some (t.frame, t.key) then { p with log := t.entry :: p.log } else p

namespace Expression

/-- An expression that is watched, as is the compiler of its inputs. -/
noncomputable def watched (w : Watch) (alarm : Fault) (e : Expression) : Expression :=
  { e with
    compile := fun compile ctx output =>
      w.guard alarm ctx (e.compile (w.ask alarm compile) ctx output) }

/-- An expression whose compilations are counted. -/
def counted (t : Tally) (e : Expression) : Expression :=
  { e with
    compile := fun compile ctx output => do
      modify (t.count ctx)
      e.compile compile ctx output }

end Expression

/-- A graph with a change to all its expressions. -/
def ExpressionGraph.map (h : Expression → Expression) (g : ExpressionGraph) : ExpressionGraph :=
  { g with expressions := g.expressions.map h }

theorem ExpressionGraph.node?_map (h : Expression → Expression) (g : ExpressionGraph)
    (id : NodeId) : (g.map h).node? id = (g.node? id).map h := by
  unfold node? map
  split
  · rfl
  · rw [List.getElem?_map]

/-- How a graph is changed: it is watched if there is an alarm, and counts if there is a tally. -/
structure Probe where
  alarm : Option Fault
  tally : Option Tally

/-- An expression that is watched or counts. -/
noncomputable def Expression.probed (w : Watch) (b : Probe) (e : Expression) : Expression :=
  b.tally.elim id counted (b.alarm.elim id (watched w) e)

namespace Probe

/-- Counts a compilation that begins, if there is a tally. -/
def count (b : Probe) (ctx : Context) (p : Pass) : Pass :=
  b.tally.elim p fun t => t.count ctx p

/-- Watches a compilation of an expression, if there is an alarm. -/
noncomputable def guard (b : Probe) (w : Watch) (ctx : Context) (m : PassM Code) : PassM Code :=
  b.alarm.elim m fun alarm => w.guard alarm ctx m

/-- Watches a compiler, if there is an alarm. -/
noncomputable def ask (b : Probe) (w : Watch) (compile : Compiler) : Compiler :=
  b.alarm.elim compile fun alarm => w.ask alarm compile

end Probe

namespace Expression

variable {w : Watch} {b : Probe} {e : Expression}

/-- Nothing but the compilation of an expression changes. -/
theorem probed_eq : e.probed w b = { e with compile := (e.probed w b).compile } := by
  obtain ⟨_ | alarm, _ | tally⟩ := b <;> rfl

@[simp] theorem vertexInput?_probed : (e.probed w b).vertexInput? = e.vertexInput? :=
  (congrArg vertexInput? probed_eq).trans rfl

@[simp] theorem customOutput?_probed : (e.probed w b).customOutput? = e.customOutput? :=
  (congrArg customOutput? probed_eq).trans rfl

@[simp] theorem inputs_probed : (e.probed w b).inputs = e.inputs :=
  (congrArg inputs probed_eq).trans rfl

@[simp] theorem usesVirtualTexture_probed :
    (e.probed w b).usesVirtualTexture = e.usesVirtualTexture :=
  (congrArg usesVirtualTexture probed_eq).trans rfl

theorem compile_probed (compile : Compiler) (ctx : Context) (output : Int) (p : Pass) :
    (e.probed w b).compile compile ctx output p =
      b.guard w ctx (e.compile (b.ask w compile) ctx output) (b.count ctx p) := by
  obtain ⟨_ | alarm, _ | tally⟩ := b <;> rfl

end Expression

/-! ### States with entries in front of their log -/

namespace Pass

variable {α β : Type} {marks : List LogEntry} {m : PassM α} {f : α → PassM β}

/-- A state with more entries in front of its log. -/
def under (marks : List LogEntry) (p : Pass) : Pass := { p with log := marks ++ p.log }

/-- The end of a step with more entries in front of the log. -/
def endUnder (marks : List LogEntry) :
    EStateM.Result Fault Pass α → EStateM.Result Fault Pass α
  | .ok a p => .ok a (p.under marks)
  | .error e p => .error e (p.under marks)

/-- Two states that differ by entries in front of the log of the second. -/
def Under (marks : List LogEntry) (p q : Pass) : Prop := q = p.under marks

/-- A step that does the same whatever stands in front of the log. -/
def Oblivious (m : PassM α) : Prop :=
  ∀ marks, Keeps (fun _ => Under marks) (Under marks) m m

theorem Oblivious.eq (hm : Oblivious m) (marks : List LogEntry) (p : Pass) :
    m (p.under marks) = endUnder marks (m p) := by
  have hunder := hm marks p _ rfl
  cases hp : m p <;> cases hq : m (p.under marks) <;> rw [hp, hq] at hunder
  case ok.ok =>
    obtain ⟨rfl, rfl⟩ := hunder
    rfl
  case error.error =>
    obtain ⟨rfl, rfl⟩ := hunder
    rfl
  all_goals exact hunder.elim

theorem note_oblivious (level : LogLevel) (message : String)
    (attributes : List (String × String)) : Oblivious (note level message attributes) := by
  refine fun marks => .modify fun p q hpq => ?_
  obtain rfl := hpq
  exact congrArg (fun log => ({ p with log } : Pass)) (List.append_assoc ..)

theorem addDiagnostic_oblivious (d : Diagnostic) : Oblivious (addDiagnostic d) := by
  intro marks
  refine Couples.bind (S := Under marks) (.modify fun p q hpq => ?_) fun _ =>
    .get_bind fun p q hpq => ?_
  · obtain rfl := hpq
    rfl
  · obtain rfl := hpq
    have hsame : (p.under marks).diagnostics = p.diagnostics := rfl
    rw [hsame]
    by_cases hknown : p.diagnostics.any fun known => known.message == d.message
    · rw [if_pos hknown, if_pos hknown]
      exact ⟨rfl, rfl⟩
    · rw [if_neg hknown, if_neg hknown]
      exact note_oblivious _ _ _ marks { p with diagnostics := p.diagnostics ++ [d] } _ rfl

end Pass

theorem Context.report_oblivious (ctx : Context) (problem : Problem) :
    Oblivious (ctx.report problem) := by
  refine fun marks => .get_bind fun p q hpq => ?_
  obtain rfl := hpq
  have hsame : (p.under marks).sink = p.sink := rfl
  have hplace : ctx.location (p.under marks) = ctx.location p := rfl
  rw [hsame, hplace]
  cases p.sink with
  | some held => exact ⟨rfl, rfl⟩
  | none => exact (addDiagnostic_oblivious _ marks).bind (fun _ => .pure none) p _ rfl

namespace Pass

/-- What plain steps read and what they leave alone is all of a state. -/
theorem eq_of_parts {p q : Pass} (hcore : p.core = q.core) (hapart : p.apart = q.apart) :
    p = q := by
  cases p
  cases q
  simp only [core, apart, Apart.mk.injEq, Pass.mk.injEq] at hcore hapart ⊢
  grind

theorem under_absorbs (marks : List LogEntry) :
    Absorbs (fun _ => Under marks) (Under marks) where
  fault h _ := h
  core h := by
    obtain rfl := h
    rfl
  update {p q u} h hapart hcore _ := by
    obtain rfl := h
    refine eq_of_parts ?_ ?_
    · exact (hcore _).trans (hcore p).symm
    · have hp := hapart p
      simp only [apart, Apart.mk.injEq] at hp
      rw [hapart]
      simp only [apart, under, hp]
  note level message attributes := note_oblivious level message attributes marks
  report ctx problem _ := ctx.report_oblivious problem marks
  reportGlobally _ := addDiagnostic_oblivious _ marks

theorem Steps.oblivious {L : Licence} {α : Type} {m : PassM α} (hm : Steps L m) : Oblivious m :=
  fun marks => hm.couples (under_absorbs marks)

end Pass

theorem Context.readInterpolator_oblivious (ctx : Context) : Oblivious ctx.readInterpolator :=
  fun marks => (under_absorbs marks).readInterpolator fun p q hpq => by
    obtain rfl := hpq
    exact .forM fun d _ => addDiagnostic_oblivious d marks

/-! ### Ledgers -/

/-- What is known of the frames of a compilation. -/
structure Ledger where
  /-- The scope that the code kept in a frame is in. -/
  scope : Nat → Option Nat
  /-- What comes of a key that is compiled in a frame. -/
  call : Nat → Key → Option Code

namespace Ledger

/-- A ledger goes on from another. -/
instance : LE Ledger where
  le l l' := (∀ f k, l.scope f = some k → l'.scope f = some k) ∧
    ∀ f κ c, l.call f κ = some c → l'.call f κ = some c

theorem le_refl (l : Ledger) : l ≤ l := ⟨fun _ _ => id, fun _ _ _ => id⟩

theorem le_trans {l l' l'' : Ledger} (h : l ≤ l') (h' : l' ≤ l'') : l ≤ l'' :=
  ⟨fun f k hk => h'.1 f k (h.1 f k hk), fun f κ c hc => h'.2 f κ c (h.2 f κ c hc)⟩

/-- The ledger of a compilation that has not begun. -/
def empty : Ledger := ⟨fun _ => none, fun _ _ => none⟩

/-- A frame comes to belong to a scope. -/
def own (l : Ledger) (f k : Nat) : Ledger :=
  { l with scope := fun f' => if f' = f then some k else l.scope f' }

/-- A key comes to be compiled in a frame. -/
def enter (l : Ledger) (f : Nat) (κ : Key) (c : Code) : Ledger :=
  { l with call := fun f' κ' => if f' = f ∧ κ' = κ then some c else l.call f' κ' }

variable {l : Ledger} {f f' k : Nat} {κ κ' : Key} {c : Code}

@[simp] theorem scope_own_self : (l.own f k).scope f = some k := if_pos rfl

theorem scope_own_of_ne (h : f' ≠ f) : (l.own f k).scope f' = l.scope f' := if_neg h

@[simp] theorem call_enter_self : (l.enter f κ c).call f κ = some c := if_pos ⟨rfl, rfl⟩

theorem call_enter_of_ne (h : ¬(f' = f ∧ κ' = κ)) :
    (l.enter f κ c).call f' κ' = l.call f' κ' := if_neg h

theorem le_own (h : l.scope f = none ∨ l.scope f = some k) : l ≤ l.own f k := by
  refine ⟨fun f' k' hk => ?_, fun _ _ _ => id⟩
  by_cases hf : f' = f
  · subst hf
    rcases h with h | h
    · rw [h] at hk
      cases hk
    · rw [scope_own_self, ← h, hk]
  · rwa [scope_own_of_ne hf]

theorem le_enter (h : l.call f κ = none) : l ≤ l.enter f κ c := by
  refine ⟨fun _ _ => id, fun f' κ' c' hc => ?_⟩
  by_cases hf : f' = f ∧ κ' = κ
  · obtain ⟨rfl, rfl⟩ := hf
    rw [h] at hc
    cases hc
  · rwa [call_enter_of_ne hf]

/-- The entries that count the compilations in a ledger. -/
def marks (l : Ledger) (t : Tally) : List LogEntry :=
  if (l.call t.frame t.key).isSome then [t.entry] else []

end Ledger

namespace Probe

/-- The entries in front of the log of a probed compilation. -/
def marks (b : Probe) (l : Ledger) : List LogEntry := b.tally.elim [] l.marks

/-- A state as it is while a probed graph is compiled. -/
def view (b : Probe) (l : Ledger) (p : Pass) : Pass := p.under (b.marks l)

variable {b : Probe} {l : Ledger} {ctx : Context} {p : Pass}

theorem count_view_of_none (h : ctx.compiling? p = none) :
    b.count ctx (b.view l p) = b.view l p := by
  obtain ⟨alarm, _ | tally⟩ := b
  · rfl
  · refine if_neg fun hsome => ?_
    have hnone : ctx.compiling? p = some (tally.frame, tally.key) := hsome
    rw [h] at hnone
    cases hnone

/-- A compilation that begins counts once it is in the ledger. -/
theorem count_view_of_some {f : Nat} {κ : Key} {c : Code} (h : ctx.compiling? p = some (f, κ))
    (hnew : l.call f κ = none) : b.count ctx (b.view l p) = b.view (l.enter f κ c) p := by
  obtain ⟨alarm, _ | tally⟩ := b
  · rfl
  have hcompiling : ∀ marks, ctx.compiling? (p.under marks) = some (f, κ) := fun _ => h
  by_cases heq : f = tally.frame ∧ κ = tally.key
  · obtain ⟨rfl, rfl⟩ := heq
    refine (if_pos (hcompiling _)).trans ?_
    simp [view, marks, Ledger.marks, under, hnew]
  · have hne : ¬(tally.frame = f ∧ tally.key = κ) := fun h => heq ⟨h.1.symm, h.2.symm⟩
    refine (if_neg fun hsame => heq ?_).trans ?_
    · obtain ⟨hf, hκ⟩ := Prod.mk.inj (Option.some.inj ((hcompiling _).symm.trans hsame))
      exact ⟨hf, hκ⟩
    · simp [view, marks, Ledger.marks, Ledger.call_enter_of_ne hne]

end Probe

/-! ### Observed steps -/

namespace Pass

variable {α β : Type} {l l' : Ledger} {p q : Pass} {m : PassM α} {f : α → PassM β}
variable {n : Ledger → Probe → PassM α} {k : Ledger → Probe → α → PassM β}
variable {Q : α → Ledger → Pass → Prop} {R : β → Ledger → Pass → Prop}

/-- From `p`, a step does the same as the probed steps, for every ledger that goes on from the one
it ends with. It does not break off over scopes or frames, and ends as `Q` says. -/
def Observed (l : Ledger) (p : Pass) (m : PassM α) (n : Ledger → Probe → PassM α)
    (Q : α → Ledger → Pass → Prop) : Prop :=
  ∃ l', l ≤ l' ∧
    (∀ last (b : Probe), l' ≤ last → n last b (b.view l p) = endUnder (b.marks l') (m p)) ∧
    (∀ a q, m p = .ok a q → Q a l' q) ∧ ∀ e q, m p = .error e q → e.isExcluded = false

namespace Observed

variable {e : Fault}

/-- A step that compiles no expression. -/
theorem same (hm : Oblivious m) (hok : ∀ a q, m p = .ok a q → Q a l q)
    (herror : ∀ e q, m p = .error e q → e.isExcluded = false) :
    Observed l p m (fun _ _ => m) Q := ⟨l, l.le_refl, fun _ _ _ => hm.eq _ _, hok, herror⟩

theorem pure {a : α} (h : Q a l p) : Observed l p (pure a) (fun _ _ => pure a) Q := by
  refine ⟨l, l.le_refl, fun _ _ _ => rfl, fun b q hq => ?_, fun e q hq => by cases hq⟩
  cases hq
  exact h

theorem throw (h : e.isExcluded = false) :
    Observed l p (throw e : PassM α) (fun _ _ => throw e) Q := by
  refine ⟨l, l.le_refl, fun _ _ _ => rfl, fun b q hq => (by cases hq), fun e' q hq => ?_⟩
  cases hq
  exact h

theorem bind_of_error (h : m p = .error e q) (f : α → PassM β) : (m >>= f) p = .error e q := by
  change EStateM.bind m f p = _
  simp only [EStateM.bind, h]

theorem bind (hm : Observed l p m n Q)
    (hf : ∀ a l' q, l ≤ l' → Q a l' q → Observed l' q (f a) (fun last b => k last b a) R) :
    Observed l p (m >>= f) (fun last b => n last b >>= k last b) R := by
  obtain ⟨l₁, hle, hsame, hok, herror⟩ := hm
  cases hmp : m p with
  | error e q =>
    simp only [hmp] at hsame
    refine ⟨l₁, hle, fun last b hlast => ?_, fun b r hr => ?_, fun e' r hr => ?_⟩
    · rw [bind_of_error hmp]
      exact bind_of_error (hsame last b hlast) _
    · rw [bind_of_error hmp] at hr
      cases hr
    · rw [bind_of_error hmp] at hr
      cases hr
      exact herror e q hmp
  | ok a q =>
    simp only [hmp] at hsame
    obtain ⟨l₂, hle₂, hsame₂, hok₂, herror₂⟩ := hf a l₁ q hle (hok a q hmp)
    rw [Observed, bind_of_ok hmp]
    refine ⟨l₂, Ledger.le_trans hle hle₂, fun last b hlast => ?_, hok₂, herror₂⟩
    refine (bind_of_ok (hsame last b (Ledger.le_trans hle₂ hlast))).trans ?_
    exact hsame₂ last b hlast

theorem mono {S : α → Ledger → Pass → Prop} (hm : Observed l p m n Q)
    (h : ∀ a l' q, l ≤ l' → Q a l' q → S a l' q) : Observed l p m n S := by
  obtain ⟨l', hle, hsame, hok, herror⟩ := hm
  exact ⟨l', hle, hsame, fun a q hq => h a l' q hle (hok a q hq), herror⟩

/-- Steps for all members of a list, each of which keeps what the next one needs. -/
theorem forM {xs : List α} {f : α → PassM PUnit} {k : Ledger → Probe → α → PassM PUnit}
    {I : Ledger → Pass → Prop} (h : ∀ a ∈ xs, ∀ l p, I l p →
      Observed l p (f a) (fun last b => k last b a) fun _ l' q => I l' q) (hp : I l p) :
    Observed l p (xs.forM f) (fun last b => xs.forM (k last b)) fun _ l' q => I l' q := by
  induction xs generalizing l p with
  | nil => exact .pure hp
  | cons a xs ih =>
    exact (h a (by simp) l p hp).bind fun _ l' q _ hq => ih (fun b hb => h b (by simp [hb])) hq

/-- The ledger may have grown before, where that does not count. -/
theorem extend (hle : l ≤ l') (hcall : l'.call = l.call) (hm : Observed l' p m n Q) :
    Observed l p m n Q := by
  obtain ⟨l'', hle', hsame, hrest⟩ := hm
  have hmarks : ∀ b : Probe, b.marks l' = b.marks l := fun b => by
    unfold Probe.marks Ledger.marks
    rw [hcall]
  refine ⟨l'', Ledger.le_trans hle hle', fun last b hlast => ?_, hrest⟩
  rw [← hsame last b hlast, Probe.view, Probe.view, hmarks]

/-- Steps that come down to others. -/
theorem congr {s : PassM α} {k : Ledger → Probe → PassM α} (h : m p = s q)
    (hn : ∀ last (b : Probe), n last b (b.view l p) = k last b (b.view l q))
    (hm : Observed l q s k Q) : Observed l p m n Q := by
  obtain ⟨l', hle, hsame, hok, herror⟩ := hm
  refine ⟨l', hle, fun last b hlast => ?_, fun a r hr => hok a r (h ▸ hr),
    fun e r hr => herror e r (h ▸ hr)⟩
  rw [hn, h]
  exact hsame last b hlast

/-- A step may be guarded where it starts and ends as it has to. -/
theorem guard (before : Ledger → Pass → Prop) (after : Ledger → Pass → Code → Pass → Prop)
    {m : PassM Code} {n : Ledger → Probe → PassM Code} {Q : Code → Ledger → Pass → Prop}
    (hm : Observed l p m n Q)
    (hbefore : ∀ last (b : Probe), l ≤ last → before last (b.view l p))
    (hafter : ∀ c l' q last (b : Probe), l ≤ l' → l' ≤ last → m p = .ok c q → Q c l' q →
      after last (b.view l p) c (b.view l' q)) :
    Observed l p m (fun last b => b.alarm.elim (n last b) fun alarm =>
      guarded (before last) (after last) alarm (n last b)) Q := by
  obtain ⟨l', hle, hsame, hok, herror⟩ := hm
  refine ⟨l', hle, fun last b hlast => ?_, hok, herror⟩
  have hn := hsame last b hlast
  dsimp only
  cases b.alarm with
  | none => exact hn
  | some alarm =>
    refine (if_pos (hbefore last b (Ledger.le_trans hle hlast))).trans ?_
    cases hmp : m p with
    | error e q =>
      rw [hmp] at hn
      exact bind_of_error hn _
    | ok c q =>
      rw [hmp] at hn
      exact (bind_of_ok hn).trans (if_pos (hafter c l' q last b hle hlast hmp (hok c q hmp)))

/-- A compilation may be counted once it is in the ledger. -/
theorem counting {ctx : Context} (hle : l ≤ l') (hm : Observed l' p m n Q)
    (hcount : ∀ b : Probe, b.count ctx (b.view l p) = b.view l' p) :
    Observed l p m (fun last b q => n last b (b.count ctx q)) Q := by
  obtain ⟨l'', hle', hsame, hrest⟩ := hm
  refine ⟨l'', Ledger.le_trans hle hle', fun last b hlast => ?_, hrest⟩
  change n last b (b.count ctx (b.view l p)) = _
  rw [hcount]
  exact hsame last b hlast

end Observed

end Pass

end ShaderGraph
