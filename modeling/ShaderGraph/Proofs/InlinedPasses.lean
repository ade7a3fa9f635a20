import ShaderGraph.Proofs.Memos

/-!
# A pass beside another

Two passes go on alike if they have produced the same code and have met as many problems: whatever
does not concern frames does the same to both (`Pass.Beside.absorbs`). A pass over a graph and one
over the inlined graph are beside each other if the frames of the first and the one frame of the
second keep the same results (`Pass.Framed`).
-/

namespace ShaderGraph

namespace Pass

/-! ### The same code -/

/-- Two states with the same code, in which as many problems were met. As long as none was, the same
was reported. -/
structure Alike (p q : Pass) : Prop where
  core : p.core = q.core
  success : p.success = q.success
  reports : p.success → p.diagnostics = q.diagnostics ∧ p.log = q.log
  sink : p.sink.map List.length = q.sink.map List.length
  interpolatorErrors : p.interpolatorErrors.map (fun x => (x.1, x.2.length)) =
    q.interpolatorErrors.map fun x => (x.1, x.2.length)

/-- Frames do not matter. -/
theorem Alike.congr {p q p' q' : Pass} (h : Alike p q)
    (hp : p' = { p with frames := p'.frames, openFrames := p'.openFrames })
    (hq : q' = { q with frames := q'.frames, openFrames := q'.openFrames }) : Alike p' q' := by
  rw [hp, hq]
  exact ⟨h.core, h.success, h.reports, h.sink, h.interpolatorErrors⟩

/-- Two states with the same code, whose frames are related. -/
def Beside (F : Pass → Pass → Prop) (p q : Pass) : Prop := Alike p q ∧ F p q

/-- A relation that depends on frames only. -/
def SeesFrames (F : Pass → Pass → Prop) : Prop :=
  ∀ {p q p' q' : Pass}, F p q → p'.frames = p.frames → p'.openFrames = p.openFrames →
    q'.frames = q.frames → q'.openFrames = q.openFrames → F p' q'

/-- Two passes may break off in any states. -/
def anyFault (_ : Fault) (_ _ : Pass) : Prop := True

/-- What a diagnostic does to a state, apart from being listed. -/
structure Fails (p q : Pass) : Prop where
  frames : q.frames = p.frames
  openFrames : q.openFrames = p.openFrames
  core : q.core = p.core
  success : q.success = false
  sink : q.sink = p.sink
  interpolatorErrors : q.interpolatorErrors = p.interpolatorErrors

theorem addDiagnostic_fails (d : Diagnostic) (p : Pass) :
    p.Ends (addDiagnostic d) fun _ q => Fails p q := by
  refine .modify_bind (.get_bind ?_)
  split
  · exact .pure ⟨rfl, rfl, rfl, rfl, rfl, rfl⟩
  · exact .set_bind (.modify ⟨rfl, rfl, rfl, rfl, rfl, rfl⟩)

theorem lookup_lengths {l l' : List (NodeId × List Diagnostic)}
    (h : l.map (fun x => (x.1, x.2.length)) = l'.map fun x => (x.1, x.2.length)) (id : NodeId) :
    ((l.lookup id).getD []).length = ((l'.lookup id).getD []).length := by
  induction l generalizing l' with
  | nil =>
    cases l' with
    | nil => rfl
    | cons => cases h
  | cons x l ih =>
    cases l' with
    | nil => cases h
    | cons x' l' =>
      obtain ⟨hx, hl⟩ := List.cons.inj h
      obtain ⟨hid, hlength⟩ := Prod.mk.inj hx
      obtain ⟨i, held⟩ := x
      obtain ⟨i', held'⟩ := x'
      obtain rfl : i = i' := hid
      by_cases hi : id = i
      · simpa [hi] using hlength
      · simpa [List.lookup_cons, beq_false_of_ne hi] using ih hl

namespace Beside

variable {F : Pass → Pass → Prop} {p q p' q' : Pass}

theorem of_fails (hF : SeesFrames F) (h : Beside F p q) (hp : Fails p p') (hq : Fails q q') :
    Beside F p' q' := by
  refine ⟨⟨?_, ?_, fun hsuccess => ?_, ?_, ?_⟩,
    hF h.2 hp.frames hp.openFrames hq.frames hq.openFrames⟩
  · rw [hp.core, hq.core, h.1.core]
  · rw [hp.success, hq.success]
  · rw [hp.success] at hsuccess
    cases hsuccess
  · rw [hp.sink, hq.sink, h.1.sink]
  · rw [hp.interpolatorErrors, hq.interpolatorErrors, h.1.interpolatorErrors]

theorem addDiagnostic (hF : SeesFrames F) (d d' : Diagnostic) :
    Keeps anyFault (Beside F) (addDiagnostic d) (addDiagnostic d') := by
  intro p q hpq
  obtain ⟨⟨⟩, p', hp, hfails⟩ := addDiagnostic_fails d p
  obtain ⟨⟨⟩, q', hq, hfails'⟩ := addDiagnostic_fails d' q
  rw [hp, hq]
  exact ⟨rfl, hpq.of_fails hF hfails hfails'⟩

/-- Two reports, of whatever problems. -/
theorem report (hF : SeesFrames F) (ctx ctx' : Context) (problem problem' : Problem) :
    Keeps anyFault (Beside F) (ctx.report problem) (ctx'.report problem') := by
  refine .get_bind fun p q hpq => ?_
  have hsink := hpq.1.sink
  cases hp : p.sink with
  | none =>
    have hq : q.sink = none := by simpa [hp] using hsink.symm
    rw [hq]
    exact (addDiagnostic hF _ _).bind (fun _ => .pure none) p q hpq
  | some held =>
    obtain ⟨held', hq, hlength⟩ : ∃ held', q.sink = some held' ∧ held'.length = held.length := by
      rw [hp] at hsink
      exact Option.map_eq_some_iff.1 hsink.symm
    rw [hq]
    refine ⟨rfl, ⟨hpq.1.core, hpq.1.success, hpq.1.reports, ?_, hpq.1.interpolatorErrors⟩,
      hF hpq.2 rfl rfl rfl rfl⟩
    simp [hlength]

theorem absorbs (hF : SeesFrames F) : Absorbs anyFault (Beside F) where
  fault _ _ := trivial
  core h := h.1.core
  update {p q u} h hapart hcore _ := by
    have hp := hapart p
    have hq := hapart q
    simp only [apart, Apart.mk.injEq] at hp hq
    obtain ⟨hframes, hopen, hsuccess, hsink, hdiagnostics, herrors, hlog⟩ := hp
    obtain ⟨hframes', hopen', hsuccess', hsink', hdiagnostics', herrors', hlog'⟩ := hq
    refine ⟨⟨?_, ?_, ?_, ?_, ?_⟩, hF h.2 hframes hopen hframes' hopen'⟩
    · rw [hcore p, hcore q, h.1.core]
    · rw [hsuccess, hsuccess', h.1.success]
    · rw [hsuccess, hdiagnostics, hdiagnostics', hlog, hlog']
      exact h.1.reports
    · rw [hsink, hsink', h.1.sink]
    · rw [herrors, herrors', h.1.interpolatorErrors]
  note level message attributes := .modify fun p q h => by
    refine ⟨⟨h.1.core, h.1.success, fun hsuccess => ?_, h.1.sink, h.1.interpolatorErrors⟩,
      hF h.2 rfl rfl rfl rfl⟩
    obtain ⟨hdiagnostics, hlog⟩ := h.1.reports hsuccess
    exact ⟨hdiagnostics, congrArg (· ++ _) hlog⟩
  report ctx problem _ := report hF ctx ctx problem problem
  reportGlobally _ := addDiagnostic hF _ _

theorem readInterpolator (hF : SeesFrames F) (ctx : Context) :
    Keeps anyFault (Beside F) ctx.readInterpolator ctx.readInterpolator := by
  have hforM : ∀ {l l' : List Diagnostic}, l.length = l'.length →
      Keeps anyFault (Beside F) (l.forM Pass.addDiagnostic) (l'.forM Pass.addDiagnostic) := by
    intro l l' hlength
    induction l generalizing l' with
    | nil =>
      obtain rfl := List.length_eq_zero_iff.1 hlength.symm
      exact .pure _
    | cons d l ih =>
      cases l' with
      | nil => cases hlength
      | cons d' l' => exact (addDiagnostic hF d d').bind fun _ => ih (Nat.succ.inj hlength)
  exact (absorbs hF).readInterpolator fun p q hpq =>
    hforM (lookup_lengths hpq.1.interpolatorErrors ctx.node)

end Beside

/-! ### Frames and one frame -/

/-- Where a pass stands: its outermost frames, its nesting, and ties that its frames had. -/
structure View where
  roots : Stage → Nat
  nesting : Nesting
  ties : List Ties

namespace View

/-- A key comes into progress in a frame. -/
def enter (V : View) (f : Nat) (κ : Key) : View := { V with nesting := V.nesting.enter f κ }

/-- Other frames are open in a stage. -/
def reopen (V : View) (stage : Stage) (stack : List Nat) : View :=
  { V with nesting := V.nesting.reopen stage stack }

theorem reopen_reopen (V : View) (stage : Stage) (stack stack' : List Nat) :
    (V.reopen stage stack).reopen stage stack' = V.reopen stage stack' := by
  simp [reopen]

theorem reopen_self (V : View) (stage : Stage) : V.reopen stage (V.nesting.opened stage) = V := by
  simp [reopen, Nesting.reopen_self]

end View

/-- The frames of a pass over a graph beside those of a pass over the inlined graph. -/
structure Framed (g : Graph) (L R : View) (p q : Pass) : Prop where
  left : Stands g.expressions L.nesting L.ties p
  right : Stands g.inlined R.nesting R.ties q
  memos : Memos g L.roots R.roots p q

namespace Framed

variable {g : Graph} {L R : View} {p q : Pass} {home root : Nat} {κ : Key}

theorem seesFrames : SeesFrames (Framed g L R) := by
  intro p q p' q' h hframes hopen hframes' hopen'
  refine ⟨h.left.of_frames_eq hframes hopen, h.right.of_frames_eq hframes' hopen', ?_⟩
  refine h.memos.congr ?_ (fun f κ => ?_) fun f κ => ?_
  · unfold ties
    rw [hframes]
  · unfold memo?
    rw [hframes]
  · unfold memo?
    rw [hframes']

theorem openFrames_left (h : Framed g L R p q) (stage : Stage) :
    p.openFrames.get stage = L.nesting.opened stage :=
  congrFun (congrArg Nesting.opened h.left.nesting) stage

theorem openFrames_right (h : Framed g L R p q) (stage : Stage) :
    q.openFrames.get stage = R.nesting.opened stage :=
  congrFun (congrArg Nesting.opened h.right.nesting) stage

theorem weaken {ties : List Ties} (h : Framed g { L with ties } R p q)
    (hgrows : Grows L.ties ties) : Framed g L R p q :=
  ⟨h.left.weaken hgrows, h.right, h.memos⟩

/-- Keys come into progress. -/
theorem enter (h : Framed g L R p q) (hhome : home < p.frames.length)
    (hroot : root < q.frames.length) (κ κ' : Key) (kind kind' : String) :
    Framed g (L.enter home κ) (R.enter root κ')
      (p.withFrame home fun frame => { frame with active := (κ, kind) :: frame.active })
      (q.withFrame root fun frame => { frame with active := (κ', kind') :: frame.active }) :=
  ⟨h.left.enter hhome _ _, h.right.enter hroot _ _,
    h.memos.congr (ties_withFrame fun _ => rfl) (fun _ _ => memo?_withFrame fun _ => rfl)
      fun _ _ => memo?_withFrame fun _ => rfl⟩

/-- Keys leave progress. -/
theorem leave {κ' : Key} (h : Framed g (L.enter home κ) (R.enter root κ') p q)
    (hhome : home < p.frames.length) (hroot : root < q.frames.length) :
    Framed g L R (p.withFrame home fun frame => { frame with active := frame.active.tail })
      (q.withFrame root fun frame => { frame with active := frame.active.tail }) :=
  ⟨h.left.leave hhome, h.right.leave hroot,
    h.memos.congr (ties_withFrame fun _ => rfl) (fun _ _ => memo?_withFrame fun _ => rfl)
      fun _ _ => memo?_withFrame fun _ => rfl⟩

/-- Results are kept. -/
theorem keep (h : Framed g L R p q) {stage : Stage} {chain : List NodeId}
    (hrooted : Rooted L.roots L.ties) (hinjective : Function.Injective R.roots)
    (hroot : R.roots stage < q.frames.length) (hcopy : (chain, κ.node) ∈ g.copies)
    (hframe : FrameOf L.ties (L.roots stage) κ.previousFrame chain home) (result : Code) :
    Framed g L R
      (p.withFrame home fun frame => { frame with memo := (κ, result) :: frame.memo })
      (q.withFrame (R.roots stage) fun frame =>
        { frame with memo := (g.copyKey chain κ, result) :: frame.memo }) :=
  ⟨h.left.withFrame (fun _ => rfl) (fun _ => rfl), h.right.withFrame (fun _ => rfl) (fun _ => rfl),
    h.memos.keep h.left.links (hrooted.mono h.left.grows) hinjective hroot hcopy
      (hframe.mono h.left.grows) result⟩

/-- A call is given a frame, or has one. -/
theorem share {p' : Pass} (h : Framed g L R p q) (hrooted : Rooted L.roots L.ties)
    (hhome : home < p.frames.length) (hleft : Stands g.expressions L.nesting L.ties p')
    (hgain : p' = p ∨ ∃ call, p' = p.withChild home κ call) : Framed g L R p' q := by
  refine ⟨hleft, h.right, ?_⟩
  rcases hgain with rfl | ⟨call, rfl⟩
  · exact h.memos
  · exact h.memos.share h.left.links (hrooted.mono h.left.grows) hhome hleft.links

/-- Other frames are open on the left. -/
theorem withStack (h : Framed g L R p q) (stage : Stage) (stack : List Nat) :
    Framed g (L.reopen stage stack) R (p.withStack stage stack) q :=
  ⟨h.left.withStack stage stack, h.right,
    h.memos.congr rfl (fun _ _ => rfl) fun _ _ => rfl⟩

end Framed

end Pass

end ShaderGraph
