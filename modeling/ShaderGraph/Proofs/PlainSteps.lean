import ShaderGraph.Pass.Body
import ShaderGraph.Pass.Casting

/-!
# Steps that know nothing of frames

Most steps of a pass emit and read code. They neither read nor change the frames, and what they
report they do not read again. Such a step is made from few kinds of steps, and `Pass.Plain` lists
them. What holds of all of those kinds holds of every plain step by one induction, so a fact about
frames, or about reports, need not be proved operation by operation.

The state of a pass falls into two parts: what plain steps read (`Pass.core`), and what they leave
alone or only report to (`Pass.apart`).
-/

namespace ShaderGraph

/-- Whether a problem is neither a cycle nor stated in the words of a node. -/
def Problem.isOrdinary : Problem → Bool
  | reentrant | stated _ _ => false
  | _ => true

/-- Whether a fault is about the nesting of compilations. -/
def Fault.concernsFrames : Fault → Bool
  | unbalancedFrames | tooDeep => true
  | _ => false

/-- A chunk as emission leaves it: the text of a virtual texture is empty. -/
def Chunk.Tidy (c : Chunk) : Prop := c.type = .textureVirtual → c.text = ""

namespace Pass

/-! ### The two parts of a state -/

/-- The part of the state that plain steps do not read. -/
structure Apart where
  frames : List Frame
  openFrames : StageTable (List Nat)
  success : Bool
  sink : Option (List Diagnostic)
  diagnostics : List Diagnostic
  interpolatorErrors : List (NodeId × List Diagnostic)
  log : List LogEntry

/-- The part of a state that plain steps do not read. -/
def apart (p : Pass) : Apart :=
  ⟨p.frames, p.openFrames, p.success, p.sink, p.diagnostics, p.interpolatorErrors, p.log⟩

/-- A state without the part that plain steps do not read. -/
def core (p : Pass) : Pass :=
  { p with
    frames := [], openFrames := .const [], success := true, sink := none, diagnostics := [],
    interpolatorErrors := [], log := [] }

/-! ### What steps may do besides -/

/-- What a step may do besides emitting code. -/
structure Licence where
  /-- It may sample virtual textures. -/
  samples : Bool := false
  /-- It may generate functions. -/
  implements : Bool := false
  /-- It may report although reports are held back. -/
  reports : Bool := false
  /-- It may list interpolators. -/
  lists : Bool := false

/-- The licence to do all of that. -/
def Licence.full : Licence := ⟨true, true, true, true⟩

theorem Licence.full_reports : full.reports = true := rfl

/-- The stacks, and what they are found by. -/
structure StackState where
  entries : List StackEntry
  layers : List LayerStack
  buckets : Buckets
deriving DecidableEq

/-- The stacks, and what they are found by. -/
def kept (p : Pass) : StackState := ⟨p.stackEntries, p.slots.layerStacks, p.stackBuckets⟩

/-- The part of a state that a step changes only if it is licensed, or in which it only adds chunks
and reports. -/
structure Gauge where
  scopes : List Scope
  stageScopes : StageTable Nat
  success : Bool
  diagnostics : List Diagnostic
  sink : Option (List Diagnostic)
  listed : List NodeId
  interpolatorErrors : List (NodeId × List Diagnostic)
  virtualSamples : Nat
  implementations : List String
  kept : StackState

/-- The part of a state that a step changes only if it is licensed, or in which it only adds chunks
and reports. -/
def gauge (p : Pass) : Gauge :=
  ⟨p.scopes, p.stageScopes, p.success, p.diagnostics, p.sink, p.interpolators.map (·.node),
   p.interpolatorErrors, p.stats.virtualSamples, p.implementations, p.kept⟩

/-- While reports are held back, they are added to those that are, and to nothing else. -/
def Withholds (p q : Pass) : Prop :=
  ∀ held, p.sink = some held →
    (∃ more, q.sink = some (held ++ more)) ∧ q.success = p.success ∧ q.diagnostics = p.diagnostics

/-- A state that a step with the given licence can lead to. -/
structure Abides (L : Licence) (p q : Pass) : Prop where
  scopes : ∀ k, ∃ more, q.scope k = p.scope k ++ more ∧ ∀ c ∈ more, c.Tidy
  length_scopes : p.scopes.length ≤ q.scopes.length
  stageScopes : q.stageScopes = p.stageScopes
  failed : p.success = false → q.success = false
  diagnostics : p.diagnostics <+: q.diagnostics
  sink : p.sink = none → q.sink = none
  interpolatorErrors : q.interpolatorErrors = p.interpolatorErrors
  virtualSamples : L.samples = false → q.stats.virtualSamples = p.stats.virtualSamples
  implementations : L.implements = false → q.implementations = p.implementations
  withholds : L.reports = false → Withholds p q
  listed : L.lists = false → q.interpolators.map (·.node) = p.interpolators.map (·.node)
  kept : L.samples = false → q.kept = p.kept

theorem Withholds.of_eq {p q : Pass} (hsink : q.sink = p.sink) (hsuccess : q.success = p.success)
    (hdiagnostics : q.diagnostics = p.diagnostics) : Withholds p q :=
  fun held hheld => ⟨⟨[], by rw [hsink, hheld, List.append_nil]⟩, hsuccess, hdiagnostics⟩

theorem Withholds.trans {p q r : Pass} (h : Withholds p q) (h' : Withholds q r) :
    Withholds p r := by
  intro held hheld
  obtain ⟨⟨more, hmore⟩, hsuccess, hdiagnostics⟩ := h held hheld
  obtain ⟨⟨more', hmore'⟩, hsuccess', hdiagnostics'⟩ := h' _ hmore
  exact ⟨⟨more ++ more', by rw [hmore', List.append_assoc]⟩, hsuccess'.trans hsuccess,
    hdiagnostics'.trans hdiagnostics⟩

namespace Abides

variable {L L' : Licence} {p q r : Pass}

/-- A step that changes none of that. -/
theorem of_gauge_eq (h : q.gauge = p.gauge) : Abides L p q := by
  have hscopes : q.scopes = p.scopes := congrArg Gauge.scopes h
  have hsuccess : q.success = p.success := congrArg Gauge.success h
  have hdiagnostics : q.diagnostics = p.diagnostics := congrArg Gauge.diagnostics h
  have hsink : q.sink = p.sink := congrArg Gauge.sink h
  refine ⟨fun k => ⟨[], ?_, nofun⟩, Nat.le_of_eq (congrArg List.length hscopes.symm),
    congrArg Gauge.stageScopes h, hsuccess.trans, hdiagnostics ▸ List.prefix_rfl, hsink.trans,
    congrArg Gauge.interpolatorErrors h, fun _ => congrArg Gauge.virtualSamples h,
    fun _ => congrArg Gauge.implementations h, fun _ => .of_eq hsink hsuccess hdiagnostics,
    fun _ => congrArg Gauge.listed h, fun _ => congrArg Gauge.kept h⟩
  simp only [scope, hscopes, List.append_nil]

theorem refl (p : Pass) : Abides L p p := of_gauge_eq rfl

theorem trans (h : Abides L p q) (h' : Abides L q r) : Abides L p r := by
  refine ⟨fun k => ?_, Nat.le_trans h.length_scopes h'.length_scopes,
    h'.stageScopes.trans h.stageScopes, fun hp => h'.failed (h.failed hp),
    h.diagnostics.trans h'.diagnostics, fun hp => h'.sink (h.sink hp),
    h'.interpolatorErrors.trans h.interpolatorErrors,
    fun hL => (h'.virtualSamples hL).trans (h.virtualSamples hL),
    fun hL => (h'.implementations hL).trans (h.implementations hL),
    fun hL => (h.withholds hL).trans (h'.withholds hL),
    fun hL => (h'.listed hL).trans (h.listed hL), fun hL => (h'.kept hL).trans (h.kept hL)⟩
  obtain ⟨more, hmore, htidy⟩ := h.scopes k
  obtain ⟨more', hmore', htidy'⟩ := h'.scopes k
  refine ⟨more ++ more', by rw [hmore', hmore, List.append_assoc], fun c hc => ?_⟩
  exact (List.mem_append.1 hc).elim (htidy c) (htidy' c)

/-- Less may be done without a licence. -/
theorem licensed (h : Abides {} p q) : Abides L p q :=
  { h with
    virtualSamples := fun _ => h.virtualSamples rfl
    implementations := fun _ => h.implementations rfl
    withholds := fun _ => h.withholds rfl
    listed := fun _ => h.listed rfl
    kept := fun _ => h.kept rfl }

theorem full (h : Abides L p q) : Abides .full p q :=
  { h with
    virtualSamples := nofun, implementations := nofun, withholds := nofun, listed := nofun
    kept := nofun }

end Abides

/-! ### Plain steps -/

/-- A step that may be returned from with a result. -/
def Returns {α : Type} (m : PassM α) (a : α) : Prop := ∃ p q, m p = .ok a q

theorem Returns.of_bind {α β : Type} {m : PassM α} {f : α → PassM β} {b : β}
    (h : Returns (m >>= f) b) : ∃ a, Returns m a ∧ Returns (f a) b := by
  obtain ⟨p, r, hr⟩ := h
  change EStateM.bind m f p = _ at hr
  unfold EStateM.bind at hr
  split at hr
  case h_1 a q hq => exact ⟨a, ⟨p, q, hq⟩, q, r, hr⟩
  case h_2 => cases hr

theorem Returns.eq_of_pure {α : Type} {a b : α} (h : Returns (pure a) b) : a = b := by
  obtain ⟨p, q, hq⟩ := h
  exact (EStateM.Result.ok.inj hq).1

/-- A step that reads and changes the core of the state only, apart from what it reports, and does
no more besides than it is licensed to. -/
inductive Steps (L : Licence) : {α : Type} → PassM α → Prop where
  | pure {α : Type} (a : α) : Steps L (pure a)
  | throw {α : Type} {e : Fault} (h : e.concernsFrames = false) : Steps L (throw e : PassM α)
  | read {α : Type} {g : Pass → PassM α} (hcore : ∀ p, g p = g p.core) (hg : ∀ p, Steps L (g p)) :
      Steps L (get >>= g)
  | change {u : Pass → Pass} (hapart : ∀ p, (u p).apart = p.apart)
      (hcore : ∀ p, (u p).core = (u p.core).core) (habides : ∀ p, Abides L p (u p)) :
      Steps L (modify u)
  | note (level : LogLevel) (message : String) (attributes : List (String × String)) :
      Steps L (note level message attributes)
  | report (ctx : Context) {problem : Problem} (h : problem.isOrdinary) :
      Steps L (ctx.report problem)
  | reportGlobally {problem : Problem} (hL : L.reports = true) (h : problem.isOrdinary) :
      Steps L (reportGlobally problem)
  | seq {α β : Type} {m : PassM α} {f : α → PassM β} (hm : Steps L m)
      (hf : ∀ a, Returns m a → Steps L (f a)) : Steps L (m >>= f)

/-- A step that does nothing besides emitting code and reporting. -/
abbrev Plain {α : Type} (m : PassM α) : Prop := Steps {} m

namespace Steps

variable {L : Licence} {α β : Type} {m : PassM α} {f : α → PassM β} {u : Pass → Pass}

theorem bind (hm : Steps L m) (hf : ∀ a, Steps L (f a)) : Steps L (m >>= f) :=
  hm.seq fun a _ => hf a

/-- The state is changed in what no licence is needed for. -/
theorem update (hapart : ∀ p, (u p).apart = p.apart) (hcore : ∀ p, (u p).core = (u p.core).core)
    (hgauge : ∀ p, (u p).gauge = p.gauge) : Steps L (modify u) :=
  .change hapart hcore fun p => .of_gauge_eq (hgauge p)

/-- The state is read and changed at once. -/
theorem get_change {k : Pass → PUnit → PassM α} (hu : Steps L (modify u))
    (hread : ∀ p, k p = k p.core) (hk : ∀ p, Steps L (k p ⟨⟩)) :
    Steps L (get >>= fun p => set (u p) >>= k p) := by
  -- What follows the reading starts in the state that was read.
  have heq : (get >>= fun p => set (u p) >>= k p) = (get >>= fun p => modify u >>= k p) := rfl
  rw [heq]
  exact .read (fun p => by rw [hread]) fun p => hu.bind fun _ => hk p

/-- A loop of plain steps is plain. -/
theorem forM {l : List α} {f : α → PassM PUnit} (h : ∀ a ∈ l, Steps L (f a)) :
    Steps L (l.forM f) := by
  induction l with
  | nil => exact .pure _
  | cons a l ih =>
    exact (h a (by simp)).bind fun _ => ih fun b hb => h b (by simp [hb])

/-- A plain step needs no licence. -/
theorem licensed (h : Plain m) : Steps L m := by
  induction h with
  | pure a => exact .pure a
  | throw h => exact .throw h
  | read hcore _ ih => exact .read hcore ih
  | change hapart hcore habides => exact .change hapart hcore fun p => (habides p).licensed
  | note level message attributes => exact .note level message attributes
  | report ctx h => exact .report ctx h
  | reportGlobally hL => cases hL
  | seq _ _ ihm ihf => exact .seq ihm ihf

end Steps

theorem newScope_plain : Plain newScope := by
  refine .get_change (.change (fun _ => rfl) (fun _ => rfl) fun p => ?_) (fun _ => rfl)
    fun _ => .pure _
  refine { Abides.refl p with scopes := fun k => ⟨[], ?_, nofun⟩, length_scopes := by simp }
  rcases Nat.lt_or_ge k p.scopes.length with hlt | hge
  · simp [scope, List.getElem?_append_left hlt]
  · rcases Nat.eq_or_lt_of_le hge with rfl | hlt
    · simp [scope]
    · simp [scope, List.getElem?_append_right hge, Nat.sub_ne_zero_of_lt hlt,
        List.getElem?_eq_none hge]

theorem enter_plain (phase : Phase) : Plain (enter phase) :=
  Steps.bind (.update (fun _ => rfl) (fun _ => rfl) fun _ => rfl) fun _ => .note _ _ _

theorem addImplementation_steps {L : Licence} (hL : L.implements = true) (text : String) :
    Steps L (addImplementation text) :=
  .change (fun _ => rfl) (fun _ => rfl) fun p =>
    { Abides.refl p with implementations := fun h => absurd (hL.symm.trans h) (by decide) }

end Pass

open Pass

namespace Context

variable {ctx : Context}

/-! ### Chunks -/

theorem chunks_plain : Plain ctx.chunks := .read (fun _ => rfl) fun _ => .pure _

theorem chunk_plain (i : Nat) : Plain (ctx.chunk i) := by
  refine chunks_plain.bind fun chunks => ?_
  split
  · exact .pure _
  · exact .throw rfl

theorem push_plain {c : Chunk} (hc : c.Tidy) : Plain (ctx.push c) := by
  refine .get_change (.change (fun _ => rfl) (fun _ => rfl) fun p => ?_) (fun _ => rfl)
    fun _ => .pure _
  refine { Abides.refl p with scopes := fun k => ?_, length_scopes := by simp }
  by_cases hk : ctx.scope = k
  · subst hk
    cases hscope : p.scopes[ctx.scope]? with
    | none => exact ⟨[], by simp [Pass.scope, hscope], nofun⟩
    | some chunks =>
      refine ⟨[c], by simp [Pass.scope, hscope], fun d hd => ?_⟩
      rwa [List.mem_singleton.1 hd]
  · exact ⟨[], by simp [Pass.scope, hk], nofun⟩

theorem isDeferred_plain (c : Code) : Plain (ctx.isDeferred c) := by
  cases c with
  | none => exact .pure _
  | some i => exact (chunk_plain i).bind fun _ => .pure _

/-! ### Emission -/

theorem checkOpen_plain : Plain ctx.checkOpen := by
  refine .read (fun _ => rfl) fun p => ?_
  split
  · exact .throw rfl
  · exact .pure _

theorem emitInline_plain (type : ValueType) (text : String)
    (h : type = .textureVirtual → text = "") :
    Plain (ctx.emitInline type text) := by
  refine checkOpen_plain.bind fun _ => ?_
  split
  · exact .pure _
  · exact push_plain h

theorem isOrdinary_unsupportedTemporary (type : ValueType) :
    (unsupportedTemporary type).isOrdinary := by
  unfold unsupportedTemporary
  repeat' split
  all_goals rfl

/-- A virtual texture is not kept in a temporary. -/
theorem ne_textureVirtual_of_temporary {type : ValueType}
    (h : (type.isFloat || type.shares .pageTableResult || decide (type = .shadingModel)) = true) :
    type ≠ .textureVirtual := by
  rintro rfl
  exact absurd h (by decide)

theorem emitWith_plain (digest : Digest) (type : ValueType) (text : String) :
    Plain (ctx.emitWith digest type text) := by
  refine checkOpen_plain.bind fun _ => ?_
  split
  · exact .pure _
  split
  case isTrue htype =>
    refine chunks_plain.bind fun chunks => ?_
    split
    · exact .pure _
    · refine .read (fun _ => rfl) fun p => ?_
      refine Steps.bind (.update (fun _ => rfl) (fun _ => rfl) fun _ => rfl) fun _ => push_plain ?_
      exact fun h => absurd h (ne_textureVirtual_of_temporary htype)
  · exact .report _ (isOrdinary_unsupportedTemporary type)

theorem emitUniform_plain (u : Uniform) (arguments : List Nat) (type : ValueType)
    (digest : Digest) (text : String) (h : u.isTexture → text = "") :
    Plain (ctx.emitUniform u arguments type digest text) := by
  unfold emitUniform
  split
  · exact .pure _
  split
  · exact .report _ rfl
  rename_i htexture
  have htidy : ∀ v, Chunk.Tidy ⟨digest, text, type, .uniform v⟩ := by
    refine fun v hvirtual => h ?_
    obtain rfl : type = .textureVirtual := hvirtual
    simpa [show ValueType.textureVirtual.isTexture = true from rfl] using htexture
  split
  · exact .report _ rfl
  split
  · exact .report _ rfl
  split
  · exact .report _ rfl
  refine .read (fun _ => rfl) fun p => ?_
  split
  · refine chunks_plain.bind fun chunks => ?_
    split
    · exact .pure _
    · exact push_plain (htidy _)
  · refine (push_plain (htidy _)).bind fun code => ?_
    exact Steps.bind (.update (fun _ => rfl) (fun _ => rfl) fun _ => rfl) fun _ => .pure _

theorem readSlot_plain (i : Nat) : Plain (ctx.readSlot i) := by
  refine (chunk_plain i).bind fun c => ?_
  split
  · exact .throw rfl
  split
  · exact .throw rfl
  case h_2 kind hkind =>
    refine .get_change (.update (fun _ => rfl) (fun _ => rfl) fun _ => by cases kind <;> rfl)
      (fun _ => rfl) fun _ => emitInline_plain _ _ fun htype => ?_
    -- Nothing is written where a virtual texture is read from its slot.
    rw [htype] at hkind ⊢
    cases hkind
    rfl

end Context

end ShaderGraph
