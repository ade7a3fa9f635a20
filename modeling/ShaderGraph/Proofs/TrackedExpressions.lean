import ShaderGraph.Proofs.FrameScopes

/-!
# Expressions in their frames

A key comes into progress in the innermost frame, its expression is compiled, and what comes of it
is kept in the same frame before the key leaves it (`Context.compileExpression_tracked`). A call is
compiled in a frame of its own that belongs to the same scope, and a function input in the frame
that the call is in (`Context.callFunction_tracked`, `Context.functionArgument_tracked`). So all of
a graph is compiled that way, to whatever depth, if its expressions are
(`ExpressionGraph.compileAt_tracked`).
-/

namespace ShaderGraph

open Pass

/-! ### Keys that come into progress -/

namespace Context

variable {u : Frame → Frame} {N : Nesting} {kind : String}

variable {t : Terms} {l l' : Ledger} {ctx : Context} {p q : Pass} {home : Nat} {stack : List Nat}
variable {frame : Frame} {κ : Key}

/-- Changing a frame may leave what it keeps. -/
theorem memo_withFrame (home : Nat) (hu : ∀ frame, (u frame).memo = frame.memo) {f : Nat}
    (hframe : p.frames[f]? = some frame) :
    ∃ frame', (p.withFrame home u).frames[f]? = some frame' ∧ frame'.memo = frame.memo := by
  by_cases hf : home = f
  · subst hf
    exact ⟨u frame, by simp [withFrame, hframe], hu frame⟩
  · exact ⟨frame, by simp [withFrame, hframe, hf], rfl⟩

/-- A state in which a key has come into progress in a frame. -/
def entering (home : Nat) (κ : Key) (kind : String) (p : Pass) : Pass :=
  p.withFrame home fun frame => { frame with active := (κ, kind) :: frame.active }

theorem sharedFrame_oblivious (home : Nat) (κ : Key) (call : Call) :
    Oblivious (sharedFrame home κ call) := by
  refine fun marks => .get_bind fun p q hpq => ?_
  obtain rfl := hpq
  have hsame : (p.under marks).frame? home = p.frame? home := rfl
  rw [hsame]
  cases (p.frame? home).bind (·.shared.lookup { κ with output := -1 }) with
  | some b => exact ⟨rfl, rfl⟩
  | none => exact ⟨rfl, rfl⟩

theorem mapM_sharedFrame_oblivious (home : Nat) (κ : Key) (call? : Option Call) :
    Oblivious (call?.mapM (sharedFrame home κ)) := by
  cases call? with
  | none => exact fun marks => .pure none
  | some call =>
    exact fun marks => (sharedFrame_oblivious home κ call marks).bind fun b => .pure (some b)

section

variable (hp : ctx.Prepared t l p) (hframe : p.frames[home]? = some frame)

include hp hframe

/-- A call is given a new frame, which belongs to no scope yet, for the scope that is compiled
for. -/
theorem Prepared.withChild
    (hhome : l.scope home = some ctx.scope) (κ : Key) (call : Call) (node : NodeId) :
    l ≤ l.own p.frames.length ctx.scope ∧
      Balanced l p (l.own p.frames.length ctx.scope) (p.withChild home κ call) ∧
      Context.Prepared t (l.own p.frames.length ctx.scope)
        { ctx with node, shared := some p.frames.length } (p.withChild home κ call) := by
  have hlt : home < p.frames.length := (List.getElem?_eq_some_iff.1 hframe).1
  have hfree : l.scope p.frames.length = none := hp.orderly.scope_length_eq_none
  have hle : l ≤ l.own p.frames.length ctx.scope := Ledger.le_own (.inl hfree)
  have hadded : l.Orderly t { p with frames := p.frames ++ [Frame.ofCall call κ.node] } :=
    hp.orderly.concat (.of_frames rfl) rfl rfl rfl rfl
  have hget : (p.frames ++ [Frame.ofCall call κ.node])[home]? = some frame := by
    rw [List.getElem?_append_left hlt, hframe]
  have horderly : (l.own p.frames.length ctx.scope).Orderly t (p.withChild home κ call) := by
    have hnodup : frame.keys.Nodup := hp.orderly.distinct hframe
    refine (hadded.own (by simp) (.inl hfree)).update (.of_frames rfl) hget rfl hnodup
      (fun _ => id) (fun x hx => .inl hx) fun x hx => ?_
    rcases List.mem_cons.1 hx with rfl | hx
    · exact .inr ⟨ctx.scope, hle.1 _ _ hhome, Ledger.scope_own_self⟩
    · exact .inl hx
  refine ⟨hle, ⟨.of_frames rfl, nesting_withChild hlt, fun {f old} hold => ?_, fun f hf =>
    Ledger.scope_own_of_ne (Nat.ne_of_lt hf)⟩, hp.fit.of_frames rfl, horderly, hp.opened,
    fun f hf => hle.1 _ _ (hp.owned f hf), fun b hb => ?_, hp.voiced⟩
  · have hold' : (p.frames ++ [Frame.ofCall call κ.node])[f]? = some old := by
      rw [List.getElem?_append_left (List.getElem?_eq_some_iff.1 hold).1, hold]
    refine ⟨_, (List.getElem?_modify ..).trans (by rw [hold']; rfl), ?_⟩
    split <;> exact List.suffix_rfl
  · cases hb
    exact Ledger.scope_own_self

/-- A call is given a frame of the scope that is compiled for. -/
theorem exists_shared
    (hhome : l.scope home = some ctx.scope) (e : Expression) (κ : Key) (node : NodeId) :
    ∃ shared q l', e.call?.mapM (sharedFrame home κ) p = .ok shared q ∧ l ≤ l' ∧
      l'.call = l.call ∧ Balanced l p l' q ∧ Context.Prepared t l' { ctx with node, shared } q ∧
        (e.call?.isSome → shared.isSome) := by
  rcases shared_cases e κ hframe with ⟨hcall, hrun⟩ | ⟨call, hcall, ⟨b, hb, hrun⟩ | ⟨hnew, hrun⟩⟩
  · refine ⟨none, p, l, hrun, l.le_refl, rfl, .refl l p, ?_, fun h => by simp [hcall] at h⟩
    exact ⟨hp.fit, hp.orderly, hp.opened, hp.owned, nofun, hp.voiced⟩
  · refine ⟨some b, p, l, hrun, l.le_refl, rfl, .refl l p, ?_, fun _ => rfl⟩
    refine ⟨hp.fit, hp.orderly, hp.opened, hp.owned, fun b' hb' => ?_, hp.voiced⟩
    cases hb'
    obtain ⟨k, hscope, hchild⟩ := hp.orderly.shared hframe _ hb
    rw [hchild, ← hscope, hhome]
  · obtain ⟨hle, hbalanced, hchild⟩ := hp.withChild hframe hhome κ call node
    exact ⟨_, _, _, hrun, hle, rfl, hbalanced, hchild, fun _ => rfl⟩

/-- A key comes into progress in the innermost frame. -/
theorem Prepared.entering (hκ : κ ∉ frame.keys) (kind : String) :
    ctx.Prepared t l (entering home κ kind p) := by
  refine ⟨hp.fit.of_frames rfl, ?_, hp.opened, hp.owned, hp.shared, hp.voiced⟩
  have hnodup : (κ :: frame.keys).Nodup := List.nodup_cons.2 ⟨hκ, hp.orderly.distinct hframe⟩
  exact hp.orderly.update (.of_frames rfl) hframe rfl hnodup (fun _ => List.mem_cons_of_mem _)
    (fun x hx => .inl hx) fun x hx => .inl hx

end

theorem nesting_entering (hframe : p.frames[home]? = some frame) (kind : String) :
    (entering home κ kind p).nesting = p.nesting.enter home κ := by
  rw [Context.entering, nesting_withFrame hframe]
  simp [Nesting.enter, Pass.nesting, activeIn, hframe]

theorem compiling?_eq (hopen : p.openFrames.get ctx.stage = home :: stack) {keys : List Key}
    (hactive : p.nesting.active home = κ :: keys) : ctx.compiling? p = some (home, κ) := by
  simp [compiling?, hopen, hactive]

/-- Once its key is in progress, an expression is compiled and its result settled. -/
theorem compileFresh_eq {e : Expression} {input : Input} {shared : Option Nat}
    (hshared : e.call?.mapM (sharedFrame home (ctx.keyOf e input))
      (entering home (ctx.keyOf e input) e.kind p) = .ok shared q) (c : Compiler)
    (body : Compiler → Context → Int → PassM Code) :
    ctx.compileFresh c { e with compile := body } input home p =
      (body c { ctx with node := input.node, shared } input.output >>=
        ctx.settle e input home) q := bind_of_ok hshared

theorem maskOutput_holds {c : Code} (h : ctx.Holds t c p) (e : Expression) (output : Int) :
    ctx.Meets t p (ctx.maskOutput e output c) (ctx.Holds t) :=
  .of_good ((meeting t ctx).maskOutput h.good e output)

/-! ### Results -/

/-- A state in which a frame keeps a result. -/
def keeping (home : Nat) (κ : Key) (c : Code) (p : Pass) : Pass :=
  p.withFrame home fun frame => { frame with memo := (κ, c) :: frame.memo }

/-- A state in which a key has left progress. -/
def leaving (home : Nat) (p : Pass) : Pass :=
  p.withFrame home fun frame => { frame with active := frame.active.tail }

theorem settle_eq {e : Expression} {input : Input}
    (hopen : p.openFrames.get ctx.stage = home :: stack) (hframe : p.frames[home]? = some frame)
    (c : Code) :
    ctx.settle e input home c p =
      (ctx.maskOutput e input.output c >>= fun masked =>
        modify (leaving home) >>= fun _ => pure masked)
        (keeping home (ctx.keyOf e input) c p) := by
  exact bind_of_ok (innermost_eq hopen hframe)

/-- A frame may change where nothing is in progress. -/
theorem nesting_withFrame_self (hframe : p.frames[home]? = some frame)
    (hu : (u frame).active = frame.active) : (p.withFrame home u).nesting = p.nesting := by
  have hself : frame.active.map Prod.fst = p.nesting.active home := by
    simp [Pass.nesting, activeIn, hframe]
  rw [nesting_withFrame hframe]
  simp only [hu, hself, Function.update_eq_self]

theorem nesting_leaving (hnesting : p.nesting = N.enter home κ)
    (hframe : p.frames[home]? = some frame) : (leaving home p).nesting = N := by
  have hactive : frame.active.map Prod.fst = κ :: N.active home := by
    have hself : p.nesting.active home = frame.active.map Prod.fst := by
      simp [Pass.nesting, activeIn, hframe]
    rw [← hself, hnesting, Nesting.enter_active_self]
  rw [leaving, nesting_withFrame hframe, hnesting]
  simp only [List.map_tail, hactive, List.tail_cons, Nesting.enter]
  rw [Function.update_idem, Function.update_eq_self]

/-- The key of a result leaves progress. -/
theorem orderly_settle {k : Nat} {c : Code} {rest : List (Key × String)} (h : l.Orderly t p)
    (hframe : p.frames[home]? = some frame) (hactive : frame.active = (κ, kind) :: rest)
    (hcall : l.call home κ = some c) (hscope : l.scope home = some k) (hq : Since p q)
    (hbacks : q.Backs t k c) (hframes : q.frames = (leaving home (keeping home κ c p)).frames) :
    l.Orderly t q := by
  have hmodify : q.frames = p.frames.modify home fun frame =>
      { frame with memo := (κ, c) :: frame.memo, active := frame.active.tail } := by
    rw [hframes]
    exact List.modify_modify_eq ..
  have hperm : (rest.map Prod.fst ++ κ :: frame.memo.map Prod.fst).Perm frame.keys := by
    rw [Frame.keys, hactive]
    exact List.perm_middle
  have hkeys : Frame.keys { frame with
      memo := (κ, c) :: frame.memo, active := frame.active.tail } =
        rest.map Prod.fst ++ κ :: frame.memo.map Prod.fst := by
    simp [Frame.keys, hactive]
  refine h.update hq hframe hmodify ?_ (fun κ' hκ' => ?_) (fun x hx => ?_) fun x hx => .inl hx
  · rw [hkeys]
    exact hperm.nodup_iff.2 (h.distinct hframe)
  · rw [hkeys]
    exact hperm.mem_iff.2 hκ'
  · rcases List.mem_cons.1 hx with rfl | hx
    · exact .inr ⟨hcall, k, hscope, hbacks⟩
    · exact .inl hx

theorem exists_active (hnesting : p.nesting = N.enter home κ) :
    ∃ frame kind rest, p.frames[home]? = some frame ∧ frame.active = (κ, kind) :: rest := by
  have hactive : p.nesting.active home = κ :: N.active home := by
    rw [hnesting, Nesting.enter_active_self]
  cases hframe : p.frames[home]? with
  | none =>
    simp only [Pass.nesting, activeIn, hframe, Option.elim_none] at hactive
    cases hactive
  | some frame =>
    simp only [Pass.nesting, activeIn, hframe, Option.elim_some] at hactive
    obtain ⟨⟨κ', kind⟩, rest, hcons, hκ, -⟩ := List.map_eq_cons_iff.1 hactive
    obtain rfl : κ' = κ := hκ
    exact ⟨frame, kind, rest, rfl, hcons⟩

/-- Frames keep what they kept when a result is settled. -/
theorem memo_settled (home : Nat) (κ : Key) (c : Code) {f : Nat}
    (hframe : p.frames[f]? = some frame) :
    ∃ frame', (leaving home (keeping home κ c p)).frames[f]? = some frame' ∧
      frame.memo <:+ frame'.memo := by
  by_cases hf : home = f
  · subst hf
    exact ⟨_, by simp [leaving, keeping, withFrame, hframe]; rfl, List.suffix_cons ..⟩
  · exact ⟨frame, by simp [leaving, keeping, withFrame, hframe, hf], List.suffix_rfl⟩

/-- What was in progress before a key is in progress again when its result is settled. -/
theorem nesting_settled {c : Code} (hnesting : p.nesting = N.enter home κ)
    (hframe : p.frames[home]? = some frame) (hlater : Later (keeping home κ c p) q) :
    (leaving home q).nesting = N := by
  have hget : q.frames[home]? = some { frame with memo := (κ, c) :: frame.memo } := by
    rw [hlater.frames]
    simp [keeping, withFrame, hframe]
  have hsame : q.nesting = N.enter home κ := by
    have hkeeping : (keeping home κ c p).nesting = p.nesting := nesting_withFrame_self hframe rfl
    rw [← hnesting, ← hkeeping]
    simp only [Pass.nesting, hlater.frames, hlater.openFrames]
  exact nesting_leaving hsame hget

/-- A result is kept in the frame that its key is in progress in, and the key leaves progress. -/
theorem settle_observed {e : Expression} {input : Input} {c : Code} (hp : ctx.Prepared t l p)
    (hnesting : p.nesting = N.enter home (ctx.keyOf e input))
    (hopened : N.opened ctx.stage = home :: stack) (hhome : l.scope home = some ctx.scope)
    (hcall : l.call home (ctx.keyOf e input) = some c) (hc : ctx.Holds (t.within ctx) c p) :
    Observed l p (ctx.settle e input home c) (fun _ _ => ctx.settle e input home c)
      fun masked l' q => (l' = l ∧ q.nesting = N ∧ Since p q ∧
        ∀ {f : Nat} {frame : Frame}, p.frames[f]? = some frame →
          ∃ frame', q.frames[f]? = some frame' ∧ frame.memo <:+ frame'.memo) ∧
        q.Fit (t.within ctx) ctx.env ctx.scope ∧ l.Orderly t q ∧
          ctx.Holds (t.within ctx) masked q := by
  obtain ⟨frame, kind, rest, hframe, hactive⟩ := exists_active hnesting
  have hopen : p.openFrames.get ctx.stage = home :: stack := by
    rw [← hopened]
    exact congrFun (congrArg Nesting.opened hnesting) ctx.stage
  refine .congr (settle_eq hopen hframe c)
    (fun last b => settle_eq (p := b.view l p) hopen hframe c) ?_
  have hkept : Since p (keeping home (ctx.keyOf e input) c p) := .of_frames rfl
  obtain ⟨hok, herror⟩ := maskOutput_holds (hc.mono hkept) e input.output (hp.fit.of_frames rfl)
  refine (Observed.same (Q := fun masked l' q => l' = l ∧
    q.Fit (t.within ctx) ctx.env ctx.scope ∧
      Later (keeping home (ctx.keyOf e input) c p) q ∧ ctx.Holds (t.within ctx) masked q)
    (maskOutput_plain e input.output c).oblivious (fun masked q hq => ⟨rfl, hok masked q hq⟩)
    herror).bind fun masked l' q _ ⟨hl, hfit, hlater, hmasked⟩ => ?_
  subst hl
  refine .congr (s := pure masked) (k := fun _ _ => pure masked) (q := leaving home q) rfl
    (fun _ _ => rfl) (.pure ?_)
  have hleft : Since q (leaving home q) := .of_frames rfl
  have hsince : Since p (leaving home q) := hkept.trans (hlater.toSince.trans hleft)
  have hframes : (leaving home q).frames =
      (leaving home (keeping home (ctx.keyOf e input) c p)).frames :=
    congrArg (List.modify · home _) hlater.frames
  refine ⟨⟨rfl, nesting_settled hnesting hframe hlater, hsince, fun hold => ?_⟩,
    hfit.of_frames rfl, ?_, hmasked.mono hleft⟩
  · rw [hframes]
    exact memo_settled home _ c hold
  · have hbacks : p.Backs t ctx.scope c :=
      ⟨hc.1, fun hloud hstage => hc.2 ⟨hloud, hp.voiced.2 hstage⟩⟩
    exact orderly_settle hp.orderly hframe hactive hcall hhome hsince (hbacks.mono hsince) hframes

/-! ### Expressions -/

variable {W : Ledger → Watch} {e : Expression} {input : Input} {c : Compiler}
variable {d : Ledger → Probe → Compiler}

/-- Where a key has come into progress, the ledger can say what will come of it. -/
theorem Prepared.begins (hp : ctx.Prepared t l p) (hnesting : p.nesting = N.enter home κ)
    (hcompiling : ctx.compiling? p = some (home, κ)) (hnew : l.call home κ = none) (code : Code) :
    ctx.Begins t (l.enter home κ code) p ∧ ∀ f κ', ctx.compiling? p = some (f, κ') →
      (l.enter home κ code).call f κ' = some code := by
  obtain ⟨frame, kind, rest, hframe, hactive⟩ := exists_active hnesting
  have hmem : κ ∈ frame.keys := by simp [Frame.keys, hactive]
  have hentered : ∀ f κ', ctx.compiling? p = some (f, κ') →
      (l.enter home κ code).call f κ' = some code := by
    intro f κ' h
    obtain ⟨rfl, rfl⟩ := Prod.mk.inj (Option.some.inj (hcompiling.symm.trans h))
    exact Ledger.call_enter_self
  exact ⟨⟨⟨hp.fit, hp.orderly.enter hframe hmem hnew, hp.opened, hp.owned, hp.shared, hp.voiced⟩,
    fun f κ' h => Option.isSome_iff_exists.2 ⟨code, hentered f κ' h⟩⟩, hentered⟩

/-- From where a key comes into progress to where it has left it again, the frames are balanced. -/
theorem balanced_entering {l₂ l₃ : Ledger} {p₂ r : Pass} {code : Code}
    (hshared : Balanced l (entering home κ kind p) l₂ p₂)
    (hcompiled : Balanced (l₂.enter home κ code) p₂ l₃ q) (hsettled : Since q r)
    (hnesting : r.nesting = p.nesting)
    (hkept : ∀ {f : Nat} {frame : Frame}, q.frames[f]? = some frame → ∃ frame',
      r.frames[f]? = some frame' ∧ frame.memo <:+ frame'.memo) :
    Balanced l p l₃ r := by
  have hentered : Since p (entering home κ kind p) := .of_frames rfl
  refine ⟨hentered.trans (hshared.toSince.trans (hcompiled.toSince.trans hsettled)), hnesting,
    fun {f old} hold => ?_, fun f hf => ?_⟩
  · obtain ⟨old₁, hold₁, hsame⟩ : ∃ old₁,
        (entering home κ kind p).frames[f]? = some old₁ ∧ old₁.memo = old.memo :=
      memo_withFrame home (u := fun frame => { frame with active := _ :: frame.active })
        (fun _ => rfl) hold
    obtain ⟨old₂, hold₂, hsuffix₂⟩ := hshared.frames hold₁
    obtain ⟨old₃, hold₃, hsuffix₃⟩ := hcompiled.frames hold₂
    obtain ⟨old₄, hold₄, hsuffix₄⟩ := hkept hold₃
    exact ⟨old₄, hold₄, hsame ▸ hsuffix₂.trans (hsuffix₃.trans hsuffix₄)⟩
  · have hlt : f < (entering home κ kind p).frames.length := by
      simpa [entering, withFrame] using hf
    rw [hcompiled.scopesOf f (Nat.lt_of_lt_of_le hlt hshared.length_le)]
    exact hshared.scopesOf f hlt

/-- An expression that has no result yet is compiled in the innermost frame, which keeps the
result. -/
theorem compileFresh_tracked (hW : Watch.Sound t W) (he : e.Tracked t)
    (hc : Compiler.Tracked t c d) (hopen : p.openFrames.get ctx.stage = home :: stack)
    (hframe : p.frames[home]? = some frame) (hκ : ctx.keyOf e input ∉ frame.keys) :
    ctx.Tracked t l p (ctx.compileFresh c e input home)
      (fun last b => ctx.compileFresh (d last b) (e.probed (W last) b) input home)
      (ctx.Holds (t.within ctx)) := by
  intro hp
  have hhome : l.scope home = some ctx.scope :=
    hp.owned home (by rw [hopen]; exact List.mem_cons_self)
  have hframe₁ : (entering home (ctx.keyOf e input) e.kind p).frames[home]? =
      some { frame with active := (ctx.keyOf e input, e.kind) :: frame.active } := by
    simp [entering, withFrame, hframe]
  obtain ⟨shared, p₂, l₂, hrun, hle₂, hcall₂, hbalanced₂, hp₂, hsome⟩ :=
    exists_shared (hp.entering hframe hκ e.kind) hframe₁ hhome e (ctx.keyOf e input) input.node
  have hrunView : ∀ b : Probe, e.call?.mapM (sharedFrame home (ctx.keyOf e input))
      (entering home (ctx.keyOf e input) e.kind (b.view l p)) = .ok shared (b.view l p₂) := by
    intro b
    have hunder := (mapM_sharedFrame_oblivious home (ctx.keyOf e input) e.call?).eq (b.marks l)
      (entering home (ctx.keyOf e input) e.kind p)
    rwa [hrun] at hunder
  have hfresh : ∀ last (b : Probe),
      ctx.compileFresh (d last b) (e.probed (W last) b) input home (b.view l p) =
        ((e.probed (W last) b).compile (d last b) { ctx with node := input.node, shared }
          input.output >>= ctx.settle e input home) (b.view l p₂) := by
    intro last b
    rw [Expression.probed_eq]
    exact compileFresh_eq (hrunView b) _ _
  refine .congr (compileFresh_eq hrun c e.compile) hfresh (.extend hle₂ hcall₂ ?_)
  -- From here on the key is in progress, and the ledger says what will come of it.
  have hopened : p.nesting.opened ctx.stage = home :: stack := hopen
  have hnesting₂ : p₂.nesting = p.nesting.enter home (ctx.keyOf e input) :=
    hbalanced₂.nesting.trans (nesting_entering hframe _)
  have hnew : l₂.call home (ctx.keyOf e input) = none := by
    rw [hcall₂]
    exact hp.orderly.call_eq_none hframe hκ
  have hcompiling : Context.compiling? { ctx with node := input.node, shared } p₂ =
      some (home, ctx.keyOf e input) := by
    have hactive : p₂.nesting.active home = ctx.keyOf e input :: p.nesting.active home := by
      rw [hnesting₂, Nesting.enter_active_self]
    exact compiling?_eq ((congrFun (congrArg Nesting.opened hnesting₂) _).trans hopened) hactive
  obtain ⟨hbegins, hentered⟩ := hp₂.begins hnesting₂ hcompiling hnew _
  refine (he.observed hW hc input.output hsome (Ledger.le_enter hnew)
    (fun b => b.count_view_of_some hcompiling hnew) hbegins hentered).bind
      fun code l₃ q _ hend => ?_
  obtain ⟨⟨hle₃, hcode⟩, hq, hbalanced, hholds⟩ := hend
  have hle : l ≤ l₃ := Ledger.le_trans hle₂ (Ledger.le_trans (Ledger.le_enter hnew) hle₃)
  have hprepared : ctx.Prepared t l₃ q :=
    ⟨hq.fit, hq.orderly, hq.opened, hq.owned, fun b hb => hle.1 _ _ (hp.shared b hb), hq.voiced⟩
  refine (settle_observed hprepared (hbalanced.nesting.trans hnesting₂) hopened
    (hle.1 _ _ hhome) ?_ hholds).mono fun masked l₄ r _ hend => ?_
  · rw [hcode]
    exact hle₃.2 _ _ _ Ledger.call_enter_self
  obtain ⟨⟨rfl, hnesting, hsince, hkept⟩, hfit, horderly, hmasked⟩ := hend
  have hall : Balanced l p l₄ r := balanced_entering hbalanced₂ hbalanced hsince hnesting hkept
  exact ⟨hp.of_balanced hle hfit horderly hall, hall, hmasked⟩

theorem not_mem_keys_of_fresh (hopen : p.openFrames.get ctx.stage = home :: stack)
    (hframe : p.frames[home]? = some frame) (hmemo : frame.memo.lookup κ = none)
    (hprogress : ¬ctx.inProgress p κ) : κ ∉ frame.keys := by
  intro hκ
  rcases List.mem_append.1 hκ with hκ | hκ
  · refine hprogress (inProgress_iff.2 ⟨home, ?_, ?_⟩)
    · simp [Pass.nesting, hopen]
    · simpa [Pass.nesting, activeIn, hframe] using hκ
  · obtain ⟨x, hx, rfl⟩ := List.mem_map.1 hκ
    simpa using List.lookup_eq_none_iff.1 hmemo x hx

/-- **An expression** is compiled in the innermost frame, or its result is found there. -/
theorem compileExpression_tracked (hW : Watch.Sound t W) (he : e.Tracked t)
    (hc : Compiler.Tracked t c d) :
    ctx.Tracked t l p (ctx.compileExpression c e input)
      (fun last b => ctx.compileExpression (d last b) (e.probed (W last) b) input)
      (ctx.Holds (t.within ctx)) := by
  intro hp
  obtain ⟨home, stack, frame, hopen, hframe, hhome⟩ := hp.exists_innermost
  cases hmemo : frame.memo.lookup (ctx.keyOf e input) with
  | some result =>
    have hview : ∀ last (b : Probe),
        ctx.compileExpression (d last b) (e.probed (W last) b) input (b.view l p) =
          ctx.maskOutput e input.output result (b.view l p) := by
      intro last b
      rw [Expression.probed_eq]
      exact compileExpression_of_some (p := b.view l p)
        (e := { e with compile := (e.probed (W last) b).compile }) hopen hframe hmemo
    refine .congr (compileExpression_of_some hopen hframe hmemo) hview ?_
    obtain ⟨l₁, l₂, heq, -⟩ := List.lookup_eq_some_iff.1 hmemo
    obtain ⟨-, k, hscope, hbacks⟩ :=
      hp.orderly.kept hframe (ctx.keyOf e input, result) (by simp [heq])
    cases hhome.symm.trans hscope
    exact Tracked.step (maskOutput_plain e input.output result).oblivious
      (maskOutput_holds (hp.holds hbacks) e input.output) hp
  | none =>
    by_cases hprogress : ctx.inProgress p (ctx.keyOf e input)
    · have hview : ∀ last (b : Probe),
          ctx.compileExpression (d last b) (e.probed (W last) b) input (b.view l p) =
            ctx.report .reentrant (b.view l p) := by
        intro last b
        rw [Expression.probed_eq]
        exact compileExpression_of_progress (e := { e with compile := _ }) hopen hframe hmemo
          hprogress
      refine .congr (compileExpression_of_progress hopen hframe hmemo hprogress) hview ?_
      exact Tracked.step (ctx.report_oblivious _) (report_holds _) hp
    · have hview : ∀ last (b : Probe),
          ctx.compileExpression (d last b) (e.probed (W last) b) input (b.view l p) =
            ctx.compileFresh (d last b) (e.probed (W last) b) input home (b.view l p) := by
        intro last b
        rw [Expression.probed_eq]
        exact compileExpression_of_fresh (e := { e with compile := _ }) hopen hframe hmemo
          hprogress
      refine .congr (compileExpression_of_fresh hopen hframe hmemo hprogress) hview ?_
      exact compileFresh_tracked hW he hc hopen hframe
        (not_mem_keys_of_fresh hopen hframe hmemo hprogress) hp

/-! ### Calls and function inputs -/

theorem openFrames_withStack (stage : Stage) (stack : List Nat) :
    (p.withStack stage stack).openFrames.get stage = stack := StageTable.get_set_self ..

/-- Other frames of the scope are open. -/
theorem Prepared.withStack (hp : ctx.Prepared t l p) (hstack : stack ≠ [])
    (howned : ∀ f ∈ stack, l.scope f = some ctx.scope) :
    ctx.Prepared t l (p.withStack ctx.stage stack) := by
  refine ⟨hp.fit.of_frames rfl, hp.orderly.later (.of_frames rfl) rfl, ?_, ?_, hp.shared, hp.voiced⟩
  · rwa [openFrames_withStack]
  · rwa [openFrames_withStack]

/-- The frames that were open before are opened again. -/
theorem balanced_withStack {stage : Stage} (h : Balanced l (p.withStack stage stack) l' q) :
    Balanced l p l' (q.withStack stage (p.openFrames.get stage)) := by
  have hsince : Since p (p.withStack stage stack) := .of_frames rfl
  refine ⟨hsince.trans (h.toSince.trans (.of_frames rfl)), ?_, h.frames, h.scopesOf⟩
  rw [nesting_withStack, h.nesting, nesting_withStack, Nesting.reopen_reopen]
  exact p.nesting.reopen_self stage

/-- A frame is told the call it is the frame of. -/
theorem balanced_withCall (hframe : p.frames[home]? = some frame) (call : Call) :
    Balanced l p l (p.withFrame home fun frame => { frame with call := some call }) := by
  refine ⟨.of_frames rfl, nesting_withFrame_self hframe rfl, fun hold => ?_, fun _ _ => rfl⟩
  obtain ⟨old, hget, hsame⟩ := memo_withFrame home
    (u := fun frame => { frame with call := some call }) (fun _ => rfl) hold
  exact ⟨old, hget, hsame ▸ List.suffix_rfl⟩

theorem Prepared.withCall (hp : ctx.Prepared t l p) (hframe : p.frames[home]? = some frame)
    (call : Call) :
    ctx.Prepared t l (p.withFrame home fun frame => { frame with call := some call }) := by
  have hnodup : frame.keys.Nodup := hp.orderly.distinct hframe
  refine hp.of_balanced l.le_refl (hp.fit.of_frames rfl) ?_ (balanced_withCall hframe call)
  exact hp.orderly.update (.of_frames rfl) hframe rfl hnodup (fun _ => id) (fun x hx => .inl hx)
    fun x hx => .inl hx

theorem compileBody_tracked (hc : Compiler.Tracked t c d) (body : Input) :
    Context.Tracked t l { ctx with shared := none } p (compileBody c ctx body)
      (fun last b => compileBody (d last b) ctx body) (ctx.Holds (t.within ctx)) :=
  .ite (fun hbody => (hc _ _ _ _).mono fun _ _ _ h => h.holds fun _ => hbody)
    fun _ => .step (report_oblivious _ _) (report_holds _)

/-- **A call** compiles the body of its function in its own frame. -/
theorem callFunction_tracked (hc : Compiler.Tracked t c d) (hshared : ctx.shared.isSome)
    (call : Call) (body : Input) :
    ctx.Tracked t l p (ctx.callFunction c call body)
      (fun last b => ctx.callFunction (d last b) call body) (ctx.Holds (t.within ctx)) := by
  intro hp
  obtain ⟨b, hb⟩ := Option.isSome_iff_exists.1 hshared
  have hscope := hp.shared b hb
  obtain ⟨frame, hframe⟩ : ∃ frame, p.frames[b]? = some frame :=
    ⟨_, List.getElem?_eq_getElem (hp.orderly.made hscope)⟩
  refine .congr (callFunction_run hb c call body)
    (fun last b => callFunction_run (p := b.view l p) hb _ call body) ?_
  have hcalled := hp.withCall hframe call
  have hinner := hcalled.withStack (List.cons_ne_nil b (p.openFrames.get ctx.stage)) fun f hf =>
    (List.mem_cons.1 hf).elim (fun h => h ▸ hscope) (hp.owned f)
  have halone : Context.Prepared t l { ctx with shared := none } _ :=
    ⟨hinner.fit, hinner.orderly, hinner.opened, hinner.owned, nofun,
      hinner.voiced⟩
  refine (compileBody_tracked hc body halone).bind
    fun result l' q hle ⟨hq, hbalanced, hresult⟩ => ?_
  have hopen : q.openFrames.get ctx.stage = b :: p.openFrames.get ctx.stage :=
    (hbalanced.openFrames_eq _).trans (openFrames_withStack _ _)
  refine .congr (s := pure result) (k := fun _ _ => pure result)
    (bind_of_ok (closeFrame_eq hopen))
    (fun last b => bind_of_ok (closeFrame_eq (p := b.view l' q) hopen)) (.pure ?_)
  have hall : Balanced l p l' (q.withStack ctx.stage (p.openFrames.get ctx.stage)) :=
    (balanced_withCall hframe call).trans (balanced_withStack hbalanced)
  refine ⟨hp.of_balanced hle (hq.fit.of_frames rfl) ?_ hall, hall, hresult.mono (.of_frames rfl)⟩
  exact hq.orderly.later (.of_frames rfl) rfl

/-- What the caller compiles is compiled in the frame below. -/
theorem inCaller_tracked {m : PassM Code} {n : Ledger → Probe → PassM Code}
    {Q : Code → Pass → Prop} (hopen : p.openFrames.get ctx.stage = home :: stack)
    (hnested : stack ≠ []) (hQ : ∀ c q r, Since q r → Q c q → Q c r)
    (hm : ctx.Tracked t l (p.withStack ctx.stage stack) m n Q) :
    ctx.Tracked t l p (ctx.inCaller m) (fun last b => ctx.inCaller (n last b)) Q := by
  intro hp
  refine .congr (inCaller_eq hopen m)
    (fun last b => inCaller_eq (p := b.view l p) hopen (n last b)) ?_
  have hbelow := hp.withStack hnested fun f hf =>
    hp.owned f (by rw [hopen]; exact List.mem_cons_of_mem _ hf)
  refine (hm hbelow).bind fun result l' q hle ⟨hq, hbalanced, hresult⟩ => ?_
  have hopen' : q.openFrames.get ctx.stage = stack :=
    (hbalanced.openFrames_eq _).trans (openFrames_withStack _ _)
  have hstack : ∀ marks, ctx.stack (q.under marks) = .ok stack (q.under marks) := fun marks => by
    rw [← hopen']
    rfl
  refine .congr (s := pure result) (k := fun _ _ => pure result)
    (q := q.withStack ctx.stage (home :: stack)) (bind_of_ok (hstack []))
    (fun last b => bind_of_ok (hstack _)) (.pure ?_)
  have hall : Balanced l p l' (q.withStack ctx.stage (home :: stack)) :=
    hopen ▸ balanced_withStack hbalanced
  refine ⟨hp.of_balanced hle (hq.fit.of_frames rfl) ?_ hall, hall,
    hQ _ _ _ (.of_frames rfl) hresult⟩
  exact hq.orderly.later (.of_frames rfl) rfl

/-- **A function input** is what the caller passes, compiled in the frame of the caller, or else its
preview. -/
theorem functionArgument_tracked (hc : Compiler.Tracked t c d) (index : Int) (preview : Input)
    (type : ValueType) :
    ctx.Tracked t l p (ctx.functionArgument c index preview type)
      (fun last b => ctx.functionArgument (d last b) index preview type)
      (ctx.Holds (t.within ctx)) := by
  intro hp
  obtain ⟨home, stack, frame, hopen, hframe, -⟩ := hp.exists_innermost
  refine .congr (bind_of_ok (callArgument_eq hopen hframe index))
    (fun last b => bind_of_ok (callArgument_eq (p := b.view l p) hopen hframe index)) ?_
  refine Tracked.ite (fun hargument => ?_) (fun _ => .ite (fun hpreview => ?_) fun _ => ?_) hp
  · refine (inCaller_tracked (Q := ctx.Holds (t.within ctx)) hopen (nested_of_argumentIn hargument)
      (fun _ _ _ hq h => h.mono hq) ?_).bind fun result l' q _ hresult => ?_
    · exact (hc _ _ _ _).mono fun _ _ _ h => h.holds fun _ => hargument
    · exact .step (convert_plain _ _).oblivious (convert_holds hresult type)
  · refine (hc _ _ _ _).bind fun result l' q _ hresult => ?_
    exact .step (convert_plain _ _).oblivious (convert_holds (hresult.holds fun _ => hpreview) type)
  · exact .step (report_oblivious _ _) (report_holds _)

end Context

/-! ### Graphs -/

namespace ExpressionGraph

/-- **A graph** is compiled the same when it is probed, if its expressions are. -/
theorem compileAt_tracked {t : Terms} {W : Ledger → Watch} (hW : Watch.Sound t W)
    {g : ExpressionGraph} (hg : ∀ id e, g.node? id = some e → e.Tracked t) (depth : Nat) :
    Compiler.Tracked t (g.compileAt depth) fun last b =>
      (g.map (Expression.probed (W last) b)).compileAt depth := by
  -- There is no code only for what is not connected, or where that was reported.
  have hconnected : ∀ {ctx : Context} {input : Input} {l : Ledger} {p : Pass} {m : PassM Code}
      {n : Ledger → Probe → PassM Code}, ctx.Tracked t l p m n (ctx.Holds (t.within ctx)) →
      ctx.Tracked t l p (if input.isConnected then m else pure none)
        (fun last b => if input.isConnected then n last b else pure none)
        (ctx.Answers (t.within ctx) input) := fun hm =>
    .ite (fun _ => hm.mono fun _ _ _ h => ⟨h.1, fun hloud _ => h.2 hloud⟩)
      fun h => .pure ⟨.none, fun _ hinput => absurd hinput h⟩
  induction depth using Nat.strongRecOn with
  | _ depth ih =>
  intro ctx input l p
  simp only [compileAt_eq, node?_map]
  refine hconnected ?_
  cases he : g.node? input.node with
  | none => exact .step (ctx.report_oblivious _) (Context.report_holds _)
  | some e =>
    cases depth with
    | zero => exact fun _ => .throw rfl
    | succ depth =>
      exact Context.compileExpression_tracked hW (hg _ e he) (ih depth depth.lt_succ_self)

end ExpressionGraph

end ShaderGraph
