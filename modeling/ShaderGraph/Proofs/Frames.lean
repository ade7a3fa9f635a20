import ShaderGraph.Proofs.FrameLogic
import ShaderGraph.Proofs.Nesting

/-!
# What compilations do to frames

Each operation on frames, as the state it leads to: keys come into progress and leave it, results
are kept, calls get their frames, and frames are opened and closed. Under all of them the frames
stay tied to each other as they were (`Pass.Stands`).
-/

namespace ShaderGraph

/-- An argument that is connected is one of those of the call. -/
theorem Call.argument_mem {call : Call} {index : Int} (h : (call.argument index).isConnected) :
    call.argument index ∈ call.arguments := by
  unfold Call.argument at h ⊢
  split at h
  · cases h
  · rename_i hindex
    rw [if_neg hindex, List.getD_eq_getElem?_getD] at *
    cases hget : call.arguments[index.toNat]? with
    | none => simp [hget, Input.none, Input.isConnected] at h
    | some i => simpa [hget] using List.mem_of_getElem? hget

/-- The frame of a call that was not opened yet. -/
def Frame.ofCall (call : Call) (node : NodeId) : Frame := { call := some call, callNode := node }

namespace Pass

/-- A state with one frame changed. -/
def withFrame (p : Pass) (f : Nat) (u : Frame → Frame) : Pass :=
  { p with frames := p.frames.modify f u }

/-- A state with other frames open in a stage. -/
def withStack (p : Pass) (stage : Stage) (stack : List Nat) : Pass :=
  { p with openFrames := p.openFrames.set stage stack }

/-- A state with a frame for a call that has none yet. -/
def withChild (p : Pass) (home : Nat) (κ : Key) (call : Call) : Pass :=
  { p with
    frames := (p.frames ++ [Frame.ofCall call κ.node]).modify home fun frame =>
      { frame with shared := (κ.ofCall, p.frames.length) :: frame.shared } }

/-- A state with the given nesting, whose frames have grown since they had the given ties. -/
structure Stands (g : ExpressionGraph) (N : Nesting) (old : List Ties) (p : Pass) : Prop where
  nesting : p.nesting = N
  grows : Grows old p.ties
  links : Links g p.ties

section States

variable {g : ExpressionGraph} {N : Nesting} {old : List Ties} {p : Pass} {f : Nat}
variable {u : Frame → Frame} {frame : Frame} {home : Nat} {call : Call}

theorem getElem?_ties (f : Nat) : p.ties[f]? = (p.frames[f]?).map Frame.ties := List.getElem?_map ..

theorem length_ties : p.ties.length = p.frames.length := List.length_map ..

theorem ties_withFrame (hu : ∀ frame, (u frame).ties = frame.ties) :
    (p.withFrame f u).ties = p.ties := by
  refine List.ext_getElem? fun i => ?_
  rw [getElem?_ties, getElem?_ties, withFrame, List.getElem?_modify]
  cases p.frames[i]? with
  | none => rfl
  | some frame =>
    by_cases h : f = i
    · simp [h, hu]
    · simp [h]

theorem activeIn_modify {frames : List Frame} (hframe : frames[f]? = some frame)
    (u : Frame → Frame) :
    activeIn (frames.modify f u) =
      Function.update (activeIn frames) f ((u frame).active.map Prod.fst) := by
  funext i
  unfold activeIn
  rw [List.getElem?_modify]
  by_cases h : i = f
  · subst h
    simp [hframe]
  · rw [Function.update_of_ne h]
    cases frames[i]? <;> simp [Ne.symm h]

/-- Nothing is in progress in a new frame. -/
theorem activeIn_concat (frames : List Frame) (h : frame.active = []) :
    activeIn (frames ++ [frame]) = activeIn frames := by
  funext i
  unfold activeIn
  by_cases hlt : i < frames.length
  · rw [List.getElem?_append_left hlt]
  · have hle : frames.length ≤ i := Nat.le_of_not_lt hlt
    have hnone : frames[i]? = none := List.getElem?_eq_none hle
    rw [List.getElem?_append_right hle, hnone]
    cases i - frames.length with
    | zero => simp [h]
    | succ n => rfl

theorem nesting_withFrame (hframe : p.frames[f]? = some frame) :
    (p.withFrame f u).nesting =
      { p.nesting with
        active := Function.update p.nesting.active f ((u frame).active.map Prod.fst) } := by
  simp only [nesting, withFrame, activeIn_modify hframe]

theorem nesting_withStack (stage : Stage) (stack : List Nat) :
    (p.withStack stage stack).nesting = p.nesting.reopen stage stack := by
  have hget : (p.withStack stage stack).openFrames.get =
      Function.update p.openFrames.get stage stack := by
    funext s
    by_cases h : s = stage
    · subst h
      rw [Function.update_self]
      exact StageTable.get_set_self ..
    · rw [Function.update_of_ne h]
      exact StageTable.get_set_of_ne _ h _
  simp only [nesting, Nesting.reopen, hget]
  rfl

theorem ties_withChild {κ : Key} :
    (p.withChild home κ call).ties = addChild p.ties home κ.ofCall call := by
  have happend : p.ties ++ [Ties.mk (some call) κ.ofCall.node []] =
      (p.frames ++ [Frame.ofCall call κ.node]).map Frame.ties := by
    rw [List.map_append]
    rfl
  refine List.ext_getElem? fun i => ?_
  rw [getElem?_ties, withChild, addChild, List.getElem?_modify, List.getElem?_modify, happend,
    List.getElem?_map, length_ties]
  cases (p.frames ++ [Frame.ofCall call κ.node])[i]? with
  | none => rfl
  | some frame =>
    by_cases h : home = i
    · simp [h, Frame.ties]
    · simp [h]

theorem nesting_withChild (hhome : home < p.frames.length) {κ : Key} :
    (p.withChild home κ call).nesting = p.nesting := by
  have hactive : activeIn (p.withChild home κ call).frames = activeIn p.frames := by
    obtain ⟨frame, hframe⟩ : ∃ frame, p.frames[home]? = some frame :=
      ⟨_, List.getElem?_eq_getElem hhome⟩
    have hsame : (p.frames ++ [Frame.ofCall call κ.node])[home]? = some frame := by
      rw [List.getElem?_append_left hhome, hframe]
    have hself : frame.active.map Prod.fst = activeIn p.frames home := by simp [activeIn, hframe]
    rw [withChild, activeIn_modify hsame, activeIn_concat _ rfl, hself, Function.update_eq_self]
  simp only [nesting, hactive]
  rfl

end States

namespace Stands

variable {g : ExpressionGraph} {N : Nesting} {old : List Ties} {p q : Pass} {home : Nat}

section

variable (h : Stands g N old p)

include h

theorem of_ties_eq {N' : Nesting} (hties : q.ties = p.ties) (hnesting : q.nesting = N') :
    Stands g N' old q :=
  ⟨hnesting, hties ▸ h.grows, hties ▸ h.links⟩

theorem of_frames_eq (hframes : q.frames = p.frames) (hopen : q.openFrames = p.openFrames) :
    Stands g N old q := by
  refine h.of_ties_eq (by simp only [ties, hframes]) ?_
  rw [← h.nesting]
  simp only [Pass.nesting, hframes, hopen]

/-- A frame may change where it is tied to nothing and nothing is in progress. -/
theorem withFrame {u : Frame → Frame}
    (hties : ∀ frame, (u frame).ties = frame.ties)
    (hactive : ∀ frame, (u frame).active = frame.active) : Stands g N old (p.withFrame home u) := by
  refine h.of_ties_eq (ties_withFrame hties) ?_
  cases hframe : p.frames[home]? with
  | none =>
    have hsame : p.frames.modify home u = p.frames :=
      List.modify_eq_self (List.getElem?_eq_none_iff.1 hframe)
    rw [← h.nesting]
    simp only [Pass.nesting, Pass.withFrame, hsame]
  | some frame =>
    have hself : (u frame).active.map Prod.fst = p.nesting.active home := by
      rw [hactive]
      simp [Pass.nesting, activeIn, hframe]
    rw [nesting_withFrame hframe, hself, Function.update_eq_self]
    exact h.nesting

/-- A key comes into progress. -/
theorem enter (hhome : home < p.frames.length) (κ : Key) (kind : String) :
    Stands g (N.enter home κ) old
      (p.withFrame home fun frame => { frame with active := (κ, kind) :: frame.active }) := by
  refine h.of_ties_eq (ties_withFrame fun _ => rfl) ?_
  have hframe : p.frames[home]? = some p.frames[home] := List.getElem?_eq_getElem hhome
  rw [nesting_withFrame hframe, ← h.nesting]
  simp [Nesting.enter, Pass.nesting, activeIn, hframe]

end

/-- A key leaves progress. -/
theorem leave {κ : Key} (h : Stands g (N.enter home κ) old p) (hhome : home < p.frames.length) :
    Stands g N old
      (p.withFrame home fun frame => { frame with active := frame.active.tail }) := by
  refine h.of_ties_eq (ties_withFrame fun _ => rfl) ?_
  have hframe : p.frames[home]? = some p.frames[home] := List.getElem?_eq_getElem hhome
  have hactive : p.frames[home].active.map Prod.fst = κ :: N.active home := by
    have := congrFun (congrArg Nesting.active h.nesting) home
    rw [Nesting.enter_active_self] at this
    rw [← this]
    simp [Pass.nesting, activeIn, hframe]
  rw [nesting_withFrame hframe, h.nesting]
  simp only [List.map_tail, hactive, List.tail_cons, Nesting.enter]
  rw [Function.update_idem, Function.update_eq_self]

/-- A call gets its frame. -/
theorem withChild (h : Stands g N old p) (hhome : home < p.frames.length) {κ : Key}
    {e : Expression} {call : Call} (he : g.node? κ.node = some e) (hcall : e.call? = some call)
    (hnew : ∀ {t : Ties} {b : Nat}, p.ties[home]? = some t → (κ.ofCall, b) ∉ t.shared) :
    Stands g N old (p.withChild home κ call) := by
  have hlt : home < p.ties.length := by rwa [length_ties]
  refine ⟨(nesting_withChild hhome).trans h.nesting, ?_, ?_⟩ <;> rw [ties_withChild]
  · exact h.grows.trans (grows_addChild hlt)
  · exact h.links.addChild hlt he hcall hnew

/-- Other frames are open. -/
theorem withStack (h : Stands g N old p) (stage : Stage) (stack : List Nat) :
    Stands g (N.reopen stage stack) old (p.withStack stage stack) :=
  ⟨by rw [nesting_withStack, h.nesting], h.grows, h.links⟩

end Stands

/-- A change that gives a frame what it has already changes nothing. -/
theorem withFrame_eq_self {p : Pass} {f : Nat} {u : Frame → Frame} {frame : Frame}
    (hframe : p.frames[f]? = some frame) (hu : u frame = frame) : p.withFrame f u = p := by
  have hsame : p.frames.modify f u = p.frames := by
    refine List.ext_getElem? fun i => ?_
    by_cases h : f = i
    · subst h
      simp [hframe, hu]
    · simp [h]
  simp only [withFrame, hsame]

end Pass

open Pass

namespace Context

variable {ctx : Context} {p : Pass} {home : Nat} {stack : List Nat} {frame : Frame}
variable {κ : Key} {call : Call} {b : Nat}

theorem stack_eq (hopen : p.openFrames.get ctx.stage = stack) : ctx.stack p = .ok stack p := by
  rw [← hopen]
  rfl

theorem innermost_eq (hopen : p.openFrames.get ctx.stage = home :: stack)
    (hframe : p.frames[home]? = some frame) : ctx.innermost p = .ok (home, frame) p := by
  unfold innermost
  rw [bind_of_ok (stack_eq hopen)]
  dsimp only
  rw [get_bind_eq, frame?, hframe]
  rfl

/-- A key is in progress where the nesting says so. -/
theorem inProgress_iff :
    ctx.inProgress p κ ↔ ∃ f ∈ p.nesting.opened ctx.stage, κ ∈ p.nesting.active f := by
  unfold inProgress
  rw [List.any_eq_true]
  refine exists_congr fun f => and_congr_right fun _ => ?_
  simp only [nesting, activeIn, frame?]
  cases p.frames[f]? with
  | none => simp
  | some frame =>
    simp only [List.any_eq_true, beq_iff_eq, Option.elim_some, List.mem_map]

theorem sharedFrame_of_some (hframe : p.frames[home]? = some frame)
    (hshared : frame.shared.lookup κ.ofCall = some b) : sharedFrame home κ call p = .ok b p := by
  unfold sharedFrame
  rw [get_bind_eq, frame?, hframe, Option.bind_some]
  rw [show ({ κ with output := -1 } : Key) = κ.ofCall from rfl, hshared]
  rfl

theorem sharedFrame_of_none (hframe : p.frames[home]? = some frame)
    (hshared : frame.shared.lookup κ.ofCall = none) :
    sharedFrame home κ call p = .ok p.frames.length (p.withChild home κ call) := by
  unfold sharedFrame
  rw [get_bind_eq, frame?, hframe, Option.bind_some]
  rw [show ({ κ with output := -1 } : Key) = κ.ofCall from rfl, hshared]
  rfl

/-- A call has a frame already, or it is given a new one. -/
theorem shared_cases (e : Expression) (κ : Key) (hframe : p.frames[home]? = some frame) :
    (e.call? = none ∧ e.call?.mapM (sharedFrame home κ) p = .ok none p) ∨
    ∃ call, e.call? = some call ∧
      ((∃ b, (κ.ofCall, b) ∈ frame.shared ∧
        e.call?.mapM (sharedFrame home κ) p = .ok (some b) p) ∨
      ((∀ b, (κ.ofCall, b) ∉ frame.shared) ∧
        e.call?.mapM (sharedFrame home κ) p =
          .ok (some p.frames.length) (p.withChild home κ call))) := by
  cases hcall : e.call? with
  | none => exact .inl ⟨rfl, rfl⟩
  | some call =>
    refine .inr ⟨call, rfl, ?_⟩
    cases hshared : frame.shared.lookup κ.ofCall with
    | some b =>
      obtain ⟨l₁, l₂, heq, -⟩ := List.lookup_eq_some_iff.1 hshared
      exact .inl ⟨b, by simp [heq], bind_of_ok (sharedFrame_of_some hframe hshared)⟩
    | none =>
      refine .inr ⟨fun b hb => ?_, bind_of_ok (sharedFrame_of_none hframe hshared)⟩
      simpa using List.lookup_eq_none_iff.1 hshared _ hb

section Expressions

variable {compile : Compiler} {e : Expression} {input : Input}
variable (hopen : p.openFrames.get ctx.stage = home :: stack)
variable (hframe : p.frames[home]? = some frame)

include hopen hframe

theorem compileExpression_of_some {result : Code}
    (hmemo : frame.memo.lookup (ctx.keyOf e input) = some result) :
    ctx.compileExpression compile e input p = ctx.maskOutput e input.output result p := by
  refine (bind_of_ok (innermost_eq hopen hframe)).trans ?_
  simp only [hmemo]

theorem compileExpression_of_progress (hmemo : frame.memo.lookup (ctx.keyOf e input) = none)
    (hprogress : ctx.inProgress p (ctx.keyOf e input)) :
    ctx.compileExpression compile e input p = ctx.report .reentrant p := by
  refine (bind_of_ok (innermost_eq hopen hframe)).trans ?_
  simp only [hmemo]
  rw [get_bind_eq, if_pos hprogress]

theorem compileExpression_of_fresh (hmemo : frame.memo.lookup (ctx.keyOf e input) = none)
    (hprogress : ¬ctx.inProgress p (ctx.keyOf e input)) :
    ctx.compileExpression compile e input p = ctx.compileFresh compile e input home p := by
  refine (bind_of_ok (innermost_eq hopen hframe)).trans ?_
  simp only [hmemo]
  rw [get_bind_eq, if_neg hprogress]

end Expressions

theorem closeFrame_eq (hopen : p.openFrames.get ctx.stage = b :: stack) :
    ctx.closeFrame b stack p = .ok () (p.withStack ctx.stage stack) := by
  unfold closeFrame
  rw [bind_of_ok (stack_eq hopen)]
  simp only [decide_true, Bool.and_self, if_true]
  rfl

/-- A call opens its frame, and compiles the body there. -/
theorem callFunction_run (hshared : ctx.shared = some b) (compile : Compiler) (call : Call)
    (body : Input) :
    ctx.callFunction compile call body p =
      (compileBody compile ctx body >>= fun result =>
        ctx.closeFrame b (p.openFrames.get ctx.stage) >>= fun _ => pure result)
        ((p.withFrame b fun frame => { frame with call := some call }).withStack ctx.stage
          (b :: p.openFrames.get ctx.stage)) := by
  unfold callFunction
  simp only [hshared, pure_bind]
  rfl

/-- The frame of a call has held the call since it was made. -/
theorem callFunction_eq (hshared : ctx.shared = some b) (hframe : p.frames[b]? = some frame)
    (hcall : frame.call = some call) (compile : Compiler) (body : Input) :
    ctx.callFunction compile call body p =
      (compileBody compile ctx body >>= fun result =>
        ctx.closeFrame b (p.openFrames.get ctx.stage) >>= fun _ => pure result)
        (p.withStack ctx.stage (b :: p.openFrames.get ctx.stage)) := by
  have hsame : p.withFrame b (fun frame => { frame with call := some call }) = p :=
    withFrame_eq_self hframe (by rw [← hcall])
  rw [callFunction_run hshared, hsame]

/-- What the caller compiles is compiled with the innermost frame left. -/
theorem inCaller_eq {top : Nat} (hopen : p.openFrames.get ctx.stage = top :: stack)
    (m : PassM Code) :
    ctx.inCaller m p =
      (m >>= fun result => ctx.stack >>= fun rest => setStack ctx.stage (top :: rest) >>= fun _ =>
        pure result) (p.withStack ctx.stage stack) := by
  unfold inCaller
  rw [bind_of_ok (stack_eq hopen)]
  rfl

/-- The argument of the call that a frame is open for; there is none for the outermost frame. -/
def argumentIn (frame : Frame) (stack : List Nat) (index : Int) : Input :=
  frame.call.elim .none fun call => if 1 < stack.length then call.argument index else .none

theorem callArgument_eq (hopen : p.openFrames.get ctx.stage = home :: stack)
    (hframe : p.frames[home]? = some frame) (index : Int) :
    ctx.callArgument index p = .ok (argumentIn frame (home :: stack) index) p := by
  unfold callArgument argumentIn
  refine (bind_of_ok (innermost_eq hopen hframe)).trans ((bind_of_ok (stack_eq hopen)).trans ?_)
  cases frame.call <;> rfl

theorem nested_of_argumentIn {index : Int}
    (h : (argumentIn frame (home :: stack) index).isConnected) : stack ≠ [] := by
  rintro rfl
  unfold argumentIn at h
  cases hcall : frame.call with
  | none => simp [hcall, Input.none, Input.isConnected] at h
  | some call => simp [hcall, Input.none, Input.isConnected] at h

theorem callArgument_of_nested (hopen : p.openFrames.get ctx.stage = b :: home :: stack)
    (hframe : p.frames[b]? = some frame) (hcall : frame.call = some call) (index : Int) :
    ctx.callArgument index p = .ok (call.argument index) p := by
  rw [callArgument_eq hopen hframe]
  simp [argumentIn, hcall]

theorem callArgument_of_outermost (hopen : p.openFrames.get ctx.stage = [home])
    (hframe : p.frames[home]? = some frame) (index : Int) :
    ctx.callArgument index p = .ok .none p := by
  rw [callArgument_eq hopen hframe, argumentIn]
  cases frame.call <;> rfl

end Context

end ShaderGraph
