import ShaderGraph.Proofs.InlinedPasses

/-!
# A call beside its copy

The positions of two passes that compile a node in the frame of a chain of calls and its copy for
that chain (`Pass.Abreast`), and what the operations on frames do there: expressions are compiled or
found alike, a call is compiled as the output it calls, and a function input as the argument of the
caller.
-/

namespace ShaderGraph

namespace Pass

variable {g : Graph} {keys : Finset Key} {previousFrame : Bool} {ctx : Context} {L R : View}
variable {home : Nat} {stack : List Nat} {links : List Key} {node : Node} {input : Input} {κ : Key}
variable {c d : Compiler}

/-- The innermost of the open frames is the frame of the calls that opened them. -/
theorem Linked.frameOf {rank : Option (NodeId → Nat)} {active : Nat → List Key} {ties : List Ties}
    {root : Nat} {rest : List Nat} (h : Linked rank active ties stack links)
    (hlinks : ∀ κ ∈ links, κ.ofCall = Key.ofNode κ.node previousFrame)
    (hroot : stack.getLast? = some root) (hstack : stack = home :: rest) :
    FrameOf ties root previousFrame (links.map Key.node) home := by
  induction h generalizing home rest with
  | root =>
    obtain ⟨rfl, -⟩ := List.cons.inj hstack
    cases hroot
    exact .root
  | call _ ht hshared _ _ _ _ ih =>
    obtain ⟨rfl, -⟩ := List.cons.inj hstack
    obtain ⟨hκ, hlinks⟩ := List.forall_mem_cons.1 hlinks
    exact .call (ih hlinks hroot rfl) ht (hκ ▸ hshared)

/-- The positions of two passes: on the left the open frames of a chain of calls, on the right one
frame, in which copies of what is in progress on the left are in progress. -/
structure Abreast (g : Graph) (keys : Finset Key) (previousFrame : Bool) (stage : Stage)
    (L R : View) (home : Nat) (stack : List Nat) (links : List Key) : Prop where
  poised : Poised g.expressions (some g.height) keys stage L.nesting L.ties (home :: stack) links
  plain : ∀ κ ∈ keys, κ.ofCall = Key.ofNode κ.node previousFrame
  outermost : (home :: stack).getLast? = some (L.roots stage)
  rooted : Rooted L.roots L.ties
  injective : Function.Injective R.roots
  opened : R.nesting.opened stage = [R.roots stage]
  inside : R.roots stage < R.ties.length
  follows : ∀ κ' ∈ R.nesting.active (R.roots stage), ∃ chain κ f, (chain, κ.node) ∈ g.copies ∧
    κ' = g.copyKey chain κ ∧ FrameOf L.ties (L.roots stage) κ.previousFrame chain f ∧
    κ ∈ L.nesting.active f

namespace Abreast

variable {stage : Stage}

section Positions

variable (h : Abreast g keys previousFrame stage L R home stack links)

include h

theorem previousFrame_eq (hκ : κ ∈ keys) : κ.previousFrame = previousFrame :=
  congrArg Key.previousFrame (h.plain κ hκ)

theorem frameOf :
    FrameOf L.ties (L.roots stage) previousFrame (links.map Key.node) home := by
  refine h.poised.linked.frameOf (fun κ hκ => ?_) h.outermost rfl
  obtain ⟨f, -, hactive⟩ := h.poised.linked.exists_of_mem_links hκ
  exact h.plain κ (h.poised.subset f κ hactive)

/-- What is not in progress in the frame on the left is not in progress on the right. -/
theorem not_mem_active (hcopy : (links.map Key.node, κ.node) ∈ g.copies) (hκ : κ ∈ keys)
    (hnew : κ ∉ L.nesting.active home) :
    g.copyKey (links.map Key.node) κ ∉ R.nesting.active (R.roots stage) := by
  intro hactive
  obtain ⟨chain, κ₀, f, -, hkey, hframe, hmem⟩ := h.follows _ hactive
  obtain ⟨rfl, rfl⟩ := Graph.copyKey_inj hcopy hkey
  rw [h.previousFrame_eq hκ] at hframe
  obtain rfl := h.frameOf.unique h.poised.ties hframe
  exact hnew hmem

theorem mono {ties : List Ties} (hgrows : Grows L.ties ties) (hties : Links g.expressions ties) :
    Abreast g keys previousFrame stage { L with ties } R home stack links :=
  { h with
    poised := h.poised.mono hgrows hties
    rooted := h.rooted.mono hgrows
    follows := fun κ' hκ' => by
      obtain ⟨chain, κ, f, hcopy, hkey, hframe, hmem⟩ := h.follows κ' hκ'
      exact ⟨chain, κ, f, hcopy, hkey, hframe.mono hgrows, hmem⟩ }

/-- A key and its copy come into progress. -/
theorem enter (hκ : κ ∈ keys) (hnew : ∀ f ∈ home :: stack, κ ∉ L.nesting.active f)
    (hcopy : (links.map Key.node, κ.node) ∈ g.copies) :
    Abreast g keys previousFrame stage (L.enter home κ)
      (R.enter (R.roots stage) (g.copyKey (links.map Key.node) κ)) home stack links := by
  refine { h with poised := h.poised.enter hκ hnew, follows := fun κ' hκ' => ?_ }
  rcases Nesting.mem_enter.1 hκ' with ⟨-, rfl⟩ | hκ'
  · refine ⟨links.map Key.node, κ, home, hcopy, rfl, ?_, Nesting.mem_enter.2 (.inl ⟨rfl, rfl⟩)⟩
    rw [h.previousFrame_eq hκ]
    exact h.frameOf
  · obtain ⟨chain, κ₀, f, hcopy₀, hkey, hframe, hmem⟩ := h.follows κ' hκ'
    exact ⟨chain, κ₀, f, hcopy₀, hkey, hframe, Nesting.mem_enter.2 (.inr hmem)⟩

/-- A call opens its frame; its copy stays where it is. -/
theorem push {b : Nat} {t : Ties} (ht : L.ties[home]? = some t)
    (hshared : (κ.ofCall, b) ∈ t.shared) (hlt : home < b) (hκ : κ ∈ L.nesting.active home)
    (hnew : κ ∉ links)
    (hshelter : ∀ r ∈ some g.height, ∀ f ∈ home :: stack, ∀ κ' ∈ L.nesting.active f,
      r κ.node ≤ r κ'.node) :
    Abreast g keys previousFrame stage (L.reopen stage (b :: home :: stack)) R b (home :: stack)
      (κ :: links) := by
  refine { h with poised := h.poised.push ht hshared hlt hκ hnew hshelter, outermost := ?_ }
  exact h.outermost

theorem lt_left {p : Pass} (hp : Grows L.ties p.ties) : home < p.frames.length :=
  h.poised.lt_length hp

theorem lt_right {q : Pass} (hq : Grows R.ties q.ties) : R.roots stage < q.frames.length := by
  rw [← length_ties]
  exact Nat.lt_of_lt_of_le h.inside hq.length_le

end Positions

/-- The caller's frame becomes the innermost one. -/
theorem pop {b : Nat} (h : Abreast g keys previousFrame stage L R b (home :: stack) (κ :: links)) :
    Abreast g keys previousFrame stage (L.reopen stage (home :: stack)) R home stack links := by
  refine { h with poised := h.poised.pop, outermost := ?_ }
  have houter := h.outermost
  rwa [List.getLast?_cons_cons] at houter

end Abreast

/-! ### Expressions -/

theorem keyOf_copy (hconnected : input.isConnected) (chain : List NodeId) (n : NodeId) :
    ctx.keyOf (node.copy g chain n) (g.copyInput chain input) =
      g.copyKey chain (ctx.keyOf (node.expression g) input) := by
  unfold Graph.copyInput
  rw [if_pos hconnected]
  rfl

theorem copyInput_output (chain : List NodeId) :
    (g.copyInput chain input).output = input.output := by
  unfold Graph.copyInput
  split <;> rfl

theorem maskOutput_copy (chain : List NodeId) (n : NodeId) (result : Code) :
    ctx.maskOutput (node.copy g chain n) (g.copyInput chain input).output result =
      ctx.maskOutput (node.expression g) input.output result := by
  rw [copyInput_output]
  rfl

/-- Two passes in which a key and its copy are in progress. -/
def Within (g : Graph) (L R : View) (stage : Stage) (home : Nat) (chain : List NodeId) (κ : Key) :
    Pass → Pass → Prop :=
  Beside (Framed g (L.enter home κ) (R.enter (R.roots stage) (g.copyKey chain κ)))

section

variable (h : Abreast g keys previousFrame ctx.stage L R home stack links)

include h

/-- The results of a node and its copy are kept, and their keys leave progress. -/
theorem settle_beside
    (hconnected : input.isConnected) (hkey : ctx.keyOf (node.expression g) input = κ)
    (hκ : κ ∈ keys) (hcopy : (links.map Key.node, κ.node) ∈ g.copies) (n : NodeId) (result : Code) :
    Couples anyFault (Within g L R ctx.stage home (links.map Key.node) κ) (Beside (Framed g L R))
      (ctx.settle (node.expression g) input home result)
      (ctx.settle (node.copy g (links.map Key.node) n) (g.copyInput (links.map Key.node) input)
        (R.roots ctx.stage) result) := by
  intro p q hpq
  have hframed := hpq.2
  have hopen : p.openFrames.get ctx.stage = home :: stack :=
    (hframed.openFrames_left ctx.stage).trans h.poised.opened
  have hopen' : q.openFrames.get ctx.stage = [R.roots ctx.stage] :=
    (hframed.openFrames_right ctx.stage).trans h.opened
  have hinner := Context.innermost_eq hopen
    (List.getElem?_eq_getElem (h.lt_left hframed.left.grows))
  have hinner' := Context.innermost_eq hopen'
    (List.getElem?_eq_getElem (h.lt_right hframed.right.grows))
  have hframe := h.frameOf
  rw [← h.previousFrame_eq hκ] at hframe
  unfold Context.settle
  rw [bind_of_ok hinner, bind_of_ok hinner', keyOf_copy hconnected, hkey]
  refine Couples.bind (S := Within g L R ctx.stage home (links.map Key.node) κ)
    (.modify fun p q hpq => ?_) (fun _ => ?_) p q hpq
  · exact ⟨hpq.1.congr rfl rfl,
      hpq.2.keep h.rooted h.injective (h.lt_right hpq.2.right.grows) hcopy hframe result⟩
  rw [maskOutput_copy]
  refine ((Context.maskOutput_plain _ _ _).couples
    (Beside.absorbs Framed.seesFrames)).bind fun masked => ?_
  refine Couples.bind (.modify fun p q hpq => ?_) fun _ => .pure masked
  exact ⟨hpq.1.congr rfl rfl,
    hpq.2.leave (h.lt_left hpq.2.left.grows) (h.lt_right hpq.2.right.grows)⟩

/-- A node and its copy are compiled alike if they are once their keys are in progress. -/
theorem compileFresh_beside
    (hnode : g.node? input.node = some node) (hkey : ctx.keyOf (node.expression g) input = κ)
    (hκ : κ ∈ keys) (hcopy : (links.map Key.node, κ.node) ∈ g.copies)
    (hbody : ∀ ties shared, Grows L.ties ties → Links g.expressions ties →
      ((node.expression g).call? = none → shared = none) →
      ((node.expression g).call?.isSome → GivesFrame ties home κ shared) →
      Keeps anyFault (Within g { L with ties } R ctx.stage home (links.map Key.node) κ)
        (node.compile g c { ctx with node := input.node, shared } input.output)
        (node.compileCopy g (links.map Key.node) input.node d
          { ctx with node := (g.copyInput (links.map Key.node) input).node, shared := none }
          input.output)) :
    Keeps anyFault (Beside (Framed g L R)) (ctx.compileFresh c (node.expression g) input home)
      (ctx.compileFresh d (node.copy g (links.map Key.node) input.node)
        (g.copyInput (links.map Key.node) input) (R.roots ctx.stage)) := by
  intro p q hpq
  obtain ⟨halike, hframed⟩ := hpq
  have hexpression : g.expressions.node? input.node = some (node.expression g) :=
    Graph.node?_expression hnode
  have hconnected := Graph.isConnected_of_node? hexpression
  have hentered := hframed.enter (h.lt_left hframed.left.grows) (h.lt_right hframed.right.grows) κ
    (g.copyKey (links.map Key.node) κ) node.kind node.kind
  have hhome := h.lt_left hentered.left.grows
  have hκnode : κ.node = input.node := by rw [← hkey]; rfl
  obtain ⟨shared, p₂, hshared, hstands₂, hgain, hnone, hgives⟩ :=
    shared_ends hentered.left hhome κ (hκnode ▸ hexpression)
  have hframed₂ := hentered.share h.rooted hhome hstands₂ hgain
  have hleft : ctx.compileFresh c (node.expression g) input home p =
      (node.compile g c { ctx with node := input.node, shared } input.output >>=
        ctx.settle (node.expression g) input home) p₂ := by
    subst hkey
    exact bind_of_ok hshared
  have hright : ctx.compileFresh d (node.copy g (links.map Key.node) input.node)
      (g.copyInput (links.map Key.node) input) (R.roots ctx.stage) q =
      (node.compileCopy g (links.map Key.node) input.node d
          { ctx with node := (g.copyInput (links.map Key.node) input).node, shared := none }
          input.output >>=
        ctx.settle (node.copy g (links.map Key.node) input.node)
          (g.copyInput (links.map Key.node) input) (R.roots ctx.stage))
        (q.withFrame (R.roots ctx.stage) fun frame => { frame with
          active := (g.copyKey (links.map Key.node) κ, node.kind) :: frame.active }) := by
    rw [← hkey, ← keyOf_copy hconnected _ input.node, ← copyInput_output (links.map Key.node)]
    rfl
  have hgrown := h.mono hstands₂.grows hstands₂.links
  have hcompile := hbody p₂.ties shared hstands₂.grows hstands₂.links hnone hgives
  have hboth := (hcompile.bind fun result =>
    settle_beside hgrown hconnected hkey hκ hcopy input.node result).mono (fun _ _ h => h)
      fun p q hpq => (⟨hpq.1, hpq.2.weaken hstands₂.grows⟩ : Beside (Framed g L R) p q)
  rw [hleft, hright]
  refine hboth _ _ ⟨?_, ⟨hstands₂.nesting, .refl _, hstands₂.links⟩, hframed₂.right, hframed₂.memos⟩
  rcases hgain with rfl | ⟨call, rfl⟩ <;> exact halike.congr rfl rfl

/-- A node and its copy are compiled alike if they are where they have no result yet. -/
theorem compileExpression_beside
    (hconnected : input.isConnected) (hkey : ctx.keyOf (node.expression g) input = κ)
    (hκ : κ ∈ keys) (hcopy : (links.map Key.node, κ.node) ∈ g.copies)
    (hnew : ∀ f ∈ home :: stack, κ ∉ L.nesting.active f)
    (hfresh : Keeps anyFault (Beside (Framed g L R))
      (ctx.compileFresh c (node.expression g) input home)
      (ctx.compileFresh d (node.copy g (links.map Key.node) input.node)
        (g.copyInput (links.map Key.node) input) (R.roots ctx.stage))) :
    Keeps anyFault (Beside (Framed g L R)) (ctx.compileExpression c (node.expression g) input)
      (ctx.compileExpression d (node.copy g (links.map Key.node) input.node)
        (g.copyInput (links.map Key.node) input)) := by
  intro p q hpq
  have hframed := hpq.2
  have hopen := (hframed.openFrames_left ctx.stage).trans h.poised.opened
  have hopen' := (hframed.openFrames_right ctx.stage).trans h.opened
  obtain ⟨frame, hframe⟩ : ∃ frame, p.frames[home]? = some frame :=
    ⟨_, List.getElem?_eq_getElem (h.lt_left hframed.left.grows)⟩
  obtain ⟨frame', hframe'⟩ : ∃ frame', q.frames[R.roots ctx.stage]? = some frame' :=
    ⟨_, List.getElem?_eq_getElem (h.lt_right hframed.right.grows)⟩
  have hkey' := (keyOf_copy hconnected (links.map Key.node) input.node).trans
    (congrArg (g.copyKey (links.map Key.node)) hkey)
  have hkept : frame'.memo.lookup (g.copyKey (links.map Key.node) κ) = frame.memo.lookup κ := by
    have hhome := h.frameOf.mono hframed.left.grows
    rw [← h.previousFrame_eq hκ] at hhome
    have hmemos := hframed.memos.kept hcopy hhome
    simpa [memo?, hframe, hframe'] using hmemos
  cases hmemo : frame.memo.lookup κ with
  | some result =>
    rw [hmemo] at hkept
    rw [Context.compileExpression_of_some hopen hframe (hkey ▸ hmemo),
      Context.compileExpression_of_some hopen' hframe' (hkey' ▸ hkept), maskOutput_copy]
    exact (Context.maskOutput_plain _ _ _).couples (Beside.absorbs Framed.seesFrames) p q hpq
  | none =>
    rw [hmemo] at hkept
    have hidle : ¬ctx.inProgress p κ := by
      rw [Context.inProgress_iff, hframed.left.nesting, h.poised.opened]
      rintro ⟨f, hf, hactive⟩
      exact hnew f hf hactive
    have hidle' : ¬ctx.inProgress q (g.copyKey (links.map Key.node) κ) := by
      rw [Context.inProgress_iff, hframed.right.nesting, h.opened]
      rintro ⟨f, hf, hactive⟩
      obtain rfl := List.mem_singleton.1 hf
      exact h.not_mem_active hcopy hκ (hnew home (by simp)) hactive
    rw [Context.compileExpression_of_fresh hopen hframe (hkey ▸ hmemo) (hkey ▸ hidle),
      Context.compileExpression_of_fresh hopen' hframe' (hkey' ▸ hkept) (hkey' ▸ hidle')]
    exact hfresh p q hpq

end

/-! ### Functions -/

/-- What is compiled with other frames open on the left ends alike, if the frames that were open are
open again after it. -/
theorem reopened_beside {stage : Stage} {m n : PassM Code} {after : Code → PassM Code}
    (hm : Keeps anyFault (Beside (Framed g (L.reopen stage stack) R)) m n)
    (hafter : ∀ {p : Pass} (result : Code), p.openFrames.get stage = stack →
      after result p = .ok result (p.withStack stage (L.nesting.opened stage)))
    {p q : Pass} (hpq : Beside (Framed g L R) p q) :
    Agree anyFault (Beside (Framed g L R)) ((m >>= after) (p.withStack stage stack)) (n q) := by
  have hclose : ∀ result, Couples anyFault (Beside (Framed g (L.reopen stage stack) R))
      (Beside (Framed g L R)) (after result) (pure result) := by
    intro result p q hpq
    rw [hafter result ((hpq.2.openFrames_left stage).trans (Nesting.reopen_opened_self ..))]
    have hclosed := hpq.2.withStack stage (L.nesting.opened stage)
    rw [View.reopen_reopen, View.reopen_self] at hclosed
    exact ⟨rfl, hpq.1.congr rfl rfl, hclosed⟩
  have hboth := hm.bind hclose
  rw [bind_pure] at hboth
  exact hboth _ _ ⟨hpq.1.congr rfl rfl, hpq.2.withStack stage stack⟩

/-- A function is compiled as its body, which is compiled in the frame of the call. -/
theorem callFunction_beside {b : Nat} {t : Ties} {call : Call} {body : Input}
    (hshared : ctx.shared = some b) (ht : L.ties[b]? = some t) (hcall : t.call = some call)
    (hbody : Keeps anyFault
      (Beside (Framed g (L.reopen ctx.stage (b :: L.nesting.opened ctx.stage)) R))
      (c { ctx with shared := none } body) (d { ctx with shared := none } body)) :
    Keeps anyFault (Beside (Framed g L R)) (ctx.callFunction c call body)
      (ctx.compileBody d body) := by
  intro p q hpq
  obtain ⟨frame, hframe, hframecall⟩ := hpq.2.left.exists_frame ht
  rw [Context.callFunction_eq hshared hframe (hframecall.trans hcall), hpq.2.openFrames_left]
  refine reopened_beside ?_ (fun result hopen => ?_) hpq
  case refine_2 => exact bind_of_ok (Context.closeFrame_eq hopen)
  unfold Context.compileBody
  split
  · exact hbody
  · exact Beside.report Framed.seesFrames _ _ _ _

/-- A function input is compiled as the argument is in the frame of the caller, or as the preview in
the frame of the call. -/
theorem functionArgument_beside {f : FunctionId} {index : Nat} {output : Int} {name : String}
    {preview : Input} {type : ValueType}
    (h : Abreast g keys previousFrame ctx.stage L R home stack links)
    (hpreview : Keeps anyFault (Beside (Framed g L R)) (c ctx preview)
      (g.onCopies (links.map Key.node) d ctx preview))
    (hargument : ∀ {below : Nat} {rest : List Nat} {κ : Key} {callers : List Key} {e : Expression}
      {call : Call}, stack = below :: rest → links = κ :: callers →
      g.expressions.node? κ.node = some e → e.call? = some call →
      (call.argument index).isConnected →
      Keeps anyFault (Beside (Framed g (L.reopen ctx.stage (below :: rest)) R))
        (c ctx (call.argument index))
        (g.onCopies (callers.map Key.node) d ctx (call.argument index))) :
    Keeps anyFault (Beside (Framed g L R)) (ctx.functionArgument c index preview type)
      ((Node.functionInput f index name type preview).compileCopy g (links.map Key.node) ctx.node d
        ctx output) := by
  have habsorbs := Beside.absorbs (Framed.seesFrames (g := g) (L := L) (R := R))
  intro p q hpq
  have hopen := (hpq.2.openFrames_left ctx.stage).trans h.poised.opened
  unfold Context.functionArgument
  unfold Node.compileCopy
  dsimp only
  cases hlinked : h.poised.linked with
  | root ht hcall =>
    obtain ⟨frame, hframe, -⟩ := hpq.2.left.exists_frame ht
    rw [bind_of_ok (Context.callArgument_of_outermost hopen hframe index)]
    exact habsorbs.argument (a := .none) nofun hpreview p q hpq
  | @call below _ rest callers t κ hrest ht hshared =>
    obtain ⟨-, e, call, he, hcall, hframe⟩ := h.poised.ties.child ht hshared
    obtain ⟨t', ht', heq⟩ := Option.map_eq_some_iff.1 hframe
    obtain ⟨frame, hframe', hframecall⟩ := hpq.2.left.exists_frame ht'
    change g.expressions.node? κ.node = some e at he
    rw [bind_of_ok (Context.callArgument_of_nested hopen hframe'
      (hframecall.trans (congrArg Prod.fst heq)) index), List.map_cons,
      Graph.argumentOf_cons he hcall, Graph.isConnected_copyInput]
    refine habsorbs.argument (fun hconnected p q hpq => ?_) hpreview p q hpq
    rw [Context.inCaller_eq ((hpq.2.openFrames_left ctx.stage).trans h.poised.opened)]
    have hinner := hargument rfl rfl he hcall hconnected
    refine reopened_beside hinner (fun {p} result hopen => ?_) hpq
    rw [bind_of_ok (Context.stack_eq hopen), h.poised.opened]
    rfl

end Pass

end ShaderGraph
