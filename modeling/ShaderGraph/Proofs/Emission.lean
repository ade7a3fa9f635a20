import ShaderGraph.Proofs.OperationLogic

/-!
# Emission keeps the code sound

For each step that emits or reads code: what it asks of the texts and codes it is given, and what
is known of those it gives back. A text that is emitted mentions temporaries of its scope only; a
text that is read does so too, and mentions none at all if the code stands for a uniform expression.
That is a logic of operations (`Context.sounding`), so all operations keep the code sound.
-/

namespace ShaderGraph

open Pass

variable {p : Pass} {ctx : Context}

/-! ### Reports -/

theorem note_safe (level : LogLevel) (message : String) (attributes : List (String × String)) :
    Safe (note level message attributes) := .modify (fun _ => rfl) fun _ => rfl

/-- What adding a diagnostic leaves, up to the log. -/
theorem addDiagnostic_eq (d : Diagnostic) (p : Pass) :
    ∃ log, (∀ e ∈ log, e.message = "translator diagnostic" ∨ e ∈ p.log) ∧
      addDiagnostic d p = .ok () { p.withReport d with log := log } := by
  unfold addDiagnostic withReport
  by_cases hknown : p.diagnostics.any fun known => known.message == d.message
  · rw [if_pos hknown]
    exact ⟨p.log, fun _ => .inr, congrFun (if_pos hknown) _⟩
  · rw [if_neg hknown]
    refine ⟨_, fun e he => ?_, congrFun (if_neg hknown) _⟩
    rcases List.mem_append.1 he with he | he
    · exact .inr he
    · exact .inl (by rw [List.mem_singleton.1 he])

theorem addDiagnostic_gives (d : Diagnostic) :
    p.Gives (addDiagnostic d) fun _ q => p.Evolves q := by
  obtain ⟨log, -, h⟩ := addDiagnostic_eq d p
  exact .of_run h ((Evolves.single (.report d)).trans (.idle rfl rfl))

theorem addDiagnostic_safe (d : Diagnostic) : Safe (addDiagnostic d) :=
  fun _ _ => (addDiagnostic_gives d).mono fun _ _ h => ⟨h, trivial⟩

theorem reportGlobally_safe (problem : Problem) : Safe (reportGlobally problem) :=
  addDiagnostic_safe _

theorem enter_safe (phase : Phase) : Safe (enter phase) := fun _ =>
  .modify_bind (.idle rfl rfl) (note_safe _ _ _ _)

namespace Context

variable {k i : Nat} {c : Chunk} {u : SharedUniform} {literal : Bool} {text : String}
variable {digest : Digest} {arguments : List SharedUniform} {type : ValueType}

open Concerns

/-- There is no code for what is reported. -/
theorem report_gives (problem : Problem) :
    p.Gives (ctx.report problem) fun c q => c = none ∧ p.Evolves q := by
  refine .get_bind ?_
  split
  split
  · exact .set_bind (.pure ⟨rfl, .idle rfl rfl⟩)
  · exact (addDiagnostic_gives _).bind fun _ _ h => .pure ⟨rfl, h⟩

theorem report_yields (problem : Problem) :
    p.Yields (ctx.report problem) fun c _ => c = none :=
  fun _ => (report_gives problem).mono fun _ _ h => h.symm

theorem report_safe (problem : Problem) : Safe (ctx.report problem) :=
  .of_yields fun _ => report_yields problem

/-! ### Chunks -/

theorem newScope_safe : Safe newScope := fun _ =>
  .get_bind (.set_bind (.single .newScope) (.pure trivial))

theorem chunk_yields (i : Nat) :
    p.Yields (ctx.chunk i) fun c q => q = p ∧ (p.scope ctx.scope)[i]? = some c :=
  fun _ => (chunk_gives i).mono fun _ _ h => ⟨h.1 ▸ .refl _, h⟩

/-- A scope with a chunk is there. -/
theorem lt_of_getElem?_scope (h : (p.scope k)[i]? = some c) : k < p.scopes.length := by
  apply Nat.lt_of_not_le
  intro hge
  simp [Pass.scope, List.getElem?_eq_none hge] at h

theorem isDeferred_yields (c : Code) :
    p.Yields (ctx.isDeferred c) fun deferred q => q = p ∧
      ∀ i, c = some i → ∃ d, (p.scope ctx.scope)[i]? = some d ∧ deferred = d.deferred?.isSome := by
  cases c with
  | none => exact .pure ⟨rfl, by simp⟩
  | some i =>
    refine (chunk_yields i).bind fun d q _ hd => .pure ?_
    obtain ⟨rfl, hd⟩ := hd
    exact ⟨rfl, fun j hj => ⟨d, Option.some.inj hj ▸ hd, rfl⟩⟩

theorem plainText_of_uniform? (h : c.uniform? = some u) : plainText c = c.text := by
  unfold Chunk.uniform? at h
  unfold plainText
  cases hform : c.form with
  | uniform v => rfl
  | inline | temporary n => simp [hform] at h

/-! ### Emission -/

theorem checkOpen_gives : p.Gives ctx.checkOpen fun _ q => q = p := by
  refine .get_bind ?_
  split
  · exact .throw _
  · exact .pure rfl

/-- A chunk is added to the scope, and the code refers to it. -/
structure Pushes (ctx : Context) (d : Chunk) (p : Pass) (c : Code) (q : Pass) : Prop where
  code : c = some (p.scope ctx.scope).length
  state : q = p.append ctx.scope d

theorem push_gives (d : Chunk) : p.Gives (ctx.push d) (ctx.Pushes d p) :=
  .get_bind (.set_bind (.pure ⟨rfl, rfl⟩))

/-- Text that is put in place where it is read is a chunk of its own. -/
theorem emitInline_gives (type : ValueType) (text : String) :
    p.Gives (ctx.emitInline type text) fun c q => type = .unknown ∧ c = none ∧ q = p ∨
      type ≠ .unknown ∧ ctx.Pushes ⟨Digest.ofText text 0, text, type, .inline⟩ p c q := by
  refine checkOpen_gives.bind fun _ q hq => ?_
  subst hq
  split
  case isTrue h => exact .pure (.inl ⟨h, rfl, rfl⟩)
  case isFalse h => exact (push_gives _).mono fun c r hc => .inr ⟨h, hc⟩

/-- A temporary that is not there yet has a number that no other has. -/
theorem emitWith_gives (digest : Digest) (type : ValueType) (text : String) :
    p.Gives (ctx.emitWith digest type text) fun c q =>
      (type.isFloat || type.shares .pageTableResult || type = .shadingModel) ∧
        ((∃ i d, c = some i ∧ q = p ∧ (p.scope ctx.scope)[i]? = some d ∧
          d.digest = digest ∧ d.text = text) ∨
        ctx.Pushes ⟨digest, text, type, .temporary p.nextTemporary⟩
          { p with nextTemporary := p.nextTemporary + 1 } c q) ∨
      ¬(type.isFloat || type.shares .pageTableResult || type = .shadingModel) ∧
        c = none ∧ p.Evolves q := by
  refine checkOpen_gives.bind fun _ q hq => ?_
  subst hq
  split
  case isTrue h => exact .pure (.inr ⟨by subst h; decide, rfl, .refl _⟩)
  split
  case isTrue hkept =>
    refine .get_bind ?_
    split
    case h_1 i hi =>
      obtain ⟨hlt, hfits, -⟩ := List.findIdx?_eq_some_iff_getElem.mp hi
      simp only [Bool.and_eq_true, beq_iff_eq] at hfits
      exact .pure (.inl ⟨hkept, .inl ⟨i, _, rfl, rfl, List.getElem?_eq_getElem hlt, hfits⟩⟩)
    case h_2 =>
      refine .get_bind (.modify_bind ((push_gives _).mono fun _ _ hc => .inl ⟨hkept, .inr hc⟩))
  case isFalse hkept => exact (report_gives _).mono fun _ _ hc => .inr ⟨hkept, hc⟩

/-- A uniform expression is emitted for an entry of the table, which may have a chunk of the type
already. Nothing but a texture is emitted as one. -/
theorem emitUniform_gives (u : Uniform) (arguments : List Nat) (type : ValueType) (digest : Digest)
    (text : String) :
    p.Gives (ctx.emitUniform u arguments type digest text) fun c q => c = none ∧ p.Evolves q ∨
      (type.isTexture → u.isTexture) ∧
        ((∃ known, p.uniforms.find? u arguments = some known ∧
          ((∃ i d, c = some i ∧ q = p ∧ (p.scope ctx.scope)[i]? = some d ∧ d.type = type ∧
            emitUniform.standsFor known d) ∨
          ctx.Pushes ⟨digest, text, type, .uniform known⟩ p c q)) ∨
        p.uniforms.find? u arguments = none ∧
          ctx.Pushes ⟨digest, text, type, .uniform ⟨p.uniforms.length, arguments, u⟩⟩
            { p with uniforms := p.uniforms ++ [⟨p.uniforms.length, arguments, u⟩] } c q) := by
  have hreport : ∀ problem {Q : Code → Pass → Prop}, p.Gives (ctx.report problem) fun c q =>
      c = none ∧ p.Evolves q ∨ Q c q := fun problem =>
    (report_gives problem).mono fun _ _ => .inl
  unfold emitUniform
  split
  · exact .pure (.inl ⟨rfl, .refl _⟩)
  split
  · exact hreport _
  rename_i htexture
  split
  · exact hreport _
  split
  · exact hreport _
  split
  · exact hreport _
  have hchecked : type.isTexture → u.isTexture := by simpa using htexture
  refine .get_bind ?_
  split
  case h_1 known hknown =>
    refine Gives.get_bind (g := fun q => _) ?_
    split
    case h_1 i hi =>
      obtain ⟨hlt, hfits, -⟩ := List.findIdx?_eq_some_iff_getElem.mp hi
      simp only [Bool.and_eq_true, beq_iff_eq] at hfits
      exact .pure (.inr ⟨hchecked, .inl ⟨known, hknown,
        .inl ⟨i, _, rfl, rfl, List.getElem?_eq_getElem hlt, hfits⟩⟩⟩)
    case h_2 =>
      exact (push_gives _).mono fun _ _ hc => .inr ⟨hchecked, .inl ⟨known, hknown, .inr hc⟩⟩
  case h_2 habsent =>
    refine (push_gives _).bind fun c q hc => .modify_bind (.pure (.inr ⟨hchecked, .inr ?_⟩))
    exact ⟨habsent, hc.code, by rw [hc.state]; rfl⟩

/-- The code that reads a slot is text that is put in place. -/
theorem readSlot_gives (i : Nat) :
    p.Gives (ctx.readSlot i) fun c q => ∃ d u kind,
      (p.scope ctx.scope)[i]? = some d ∧ d.deferred? = some u ∧
      SlotKind.ofType? d.type = some kind ∧
      let text := kind.access d.type (addSlot (p.slots.table kind) u).1
      ctx.Pushes ⟨Digest.ofText text 0, text, d.type, .inline⟩
        { p with slots := p.slots.withTable kind (addSlot (p.slots.table kind) u).2 } c q := by
  refine (chunk_gives i).bind fun d q hd => ?_
  obtain ⟨rfl, hd⟩ := hd
  split
  case h_1 => exact .throw _
  case h_2 u hu =>
    split
    case h_1 => exact .throw _
    case h_2 kind hkind =>
      refine .get_bind (.set_bind ((emitInline_gives _ _).mono fun c r hc => ?_))
      rcases hc with ⟨hunknown, -⟩ | ⟨-, hc⟩
      · rw [hunknown] at hkind
        exact absurd hkind (by cases kind <;> decide)
      · exact ⟨d, u, kind, hd, hu, hkind, hc⟩

/-! ### Emission keeps the code sound -/

/-- Text that is put in place where it is read. -/
theorem emitInline_code (h : p.Reads ctx.scope literal text) :
    p.Yields (ctx.emitInline type text) fun c q =>
      ctx.scope < p.scopes.length → q.CodeReads ctx.scope literal c := by
  refine fun _ => (emitInline_gives type text).mono fun c q hc => ?_
  obtain ⟨-, rfl, rfl⟩ | ⟨-, rfl, rfl⟩ := hc
  · exact ⟨.refl _, fun _ => .none _ _⟩
  · refine ⟨.single (.inline rfl h.temporaries), fun hlt hliteral i hi => ?_⟩
    subst hliteral
    cases hi
    exact ⟨_, getElem?_append hlt _, h.literal⟩

theorem emitWith_yields (h : p.Reads ctx.scope false text) :
    p.Yields (ctx.emitWith digest type text) fun _ _ => True := by
  refine fun _ => (emitWith_gives digest type text).mono fun c q hc => ⟨?_, trivial⟩
  obtain ⟨-, ⟨_, _, _, rfl, _⟩ | ⟨-, rfl⟩⟩ | ⟨-, -, hq⟩ := hc
  · exact .refl _
  · exact .single (.temporary rfl h.temporaries)
  · exact hq

/-- A uniform expression over entries of the table, whose text mentions no temporary. -/
theorem emitUniform_yields {u : Uniform} (hover : u.IsOver arguments p.uniforms)
    (hcounts : u.isWellCounted) (h : Text.Reads (fun _ => False) text) :
    p.Yields (ctx.emitUniform u (arguments.map (·.id)) type digest text) fun _ _ => True := by
  refine fun _ => (emitUniform_gives u _ type digest text).mono fun c q hc => ⟨?_, trivial⟩
  obtain ⟨-, hq⟩ | ⟨-, ⟨known, hknown, ⟨_, _, -, rfl, -⟩ | ⟨-, rfl⟩⟩ | ⟨habsent, -, rfl⟩⟩ := hc
  · exact hq
  · exact .refl _
  · exact .single (.known rfl (List.mem_of_find?_eq_some hknown) h)
  · exact .single (.fresh rfl ⟨rfl, ⟨arguments, rfl, hover⟩, habsent⟩ hcounts h)

/-- The code that reads a slot mentions no temporary. -/
theorem readSlot_yields (i : Nat) :
    p.Yields (ctx.readSlot i) fun c q => q.CodeReads ctx.scope true c := by
  refine fun _ => (readSlot_gives i).mono fun c q hc => ?_
  obtain ⟨d, u, kind, hd, hu, hkind, rfl, rfl⟩ := hc
  refine ⟨(Evolves.single (.slot hd hu hkind)).trans (.single (.inline rfl ?_)), fun _ j hj => ?_⟩
  · exact access_reads kind _ _
  · cases hj
    exact ⟨_, getElem?_append (lt_of_getElem?_scope hd) _, access_reads kind _ _⟩

/-! ### Reading -/

/-- What reads a chunk mentions temporaries of its scope, none if the code is literal. -/
theorem reads_plainText (hp : p.Sound) (hc : (p.scope k)[i]? = some c)
    (h : p.CodeReads k literal (some i)) : p.Reads k literal (plainText c) := by
  cases literal with
  | true =>
    obtain ⟨d, hd, hreads⟩ := h rfl i rfl
    cases hd.symm.trans hc
    exact Reads.of_literal hreads
  | false =>
    refine Text.Reads.mono (fun n hn => ⟨rfl, ?_⟩) ((hp.ordered k).reads_plainText hc)
    have hlen : (p.scope k).take (p.scope k).length = p.scope k := List.take_length
    obtain ⟨hlt, -⟩ := List.getElem?_eq_some_iff.mp hc
    exact hlen ▸ Scope.Ordered.mem_temporaries_take hlt hn

/-! ### Operations -/

theorem registers_yields {u : Pass → Pass} (h : ctx.Registers u) :
    p.Yields (modify u : PassM PUnit) fun _ _ => True := by
  refine .of_eq rfl ?_ trivial
  cases h with
  | usage | shadingModel => exact .idle rfl rfl
  | coordinate _ =>
    split
    · exact .idle rfl rfl
    · exact .single (.coordinate _)
  | sample =>
    split
    · exact .idle rfl rfl
    · exact .idle rfl rfl

/-- An operand of a fold is an entry of the table. -/
theorem operand_listed {C : ctx.Concerns} (hreads : C.reads) (hp : p.Sound) {c : Code}
    {type : ValueType} (h : C.Operand c type u p) : u ∈ p.uniforms ∧ u.expr.isWellCounted := by
  obtain ⟨d, ⟨i, -, hd⟩, -, hu⟩ := h (.inr hreads)
  have hlisted := hp.listed _ d (List.mem_of_getElem? hd) u hu
  exact ⟨hlisted, hp.counted u hlisted⟩

/-- What is folded is made from entries of the table, and states no more components than a value
has. -/
theorem folds_over {C : ctx.Concerns} (hreads : C.reads) (hp : p.Sound) {e : Uniform}
    {type : ValueType} (h : C.Folds p e arguments type) :
    e.IsOver arguments p.uniforms ∧ e.isWellCounted := by
  cases h with
  | leaf hoperands =>
    refine ⟨⟨hoperands, by simp⟩, ?_⟩
    cases e with
    | unary | binary | clamp | swizzle => cases hoperands
    | _ => rfl
  | unary ha hop =>
    obtain ⟨hu, hcu⟩ := operand_listed hreads hp ha
    exact ⟨.one rfl hu, by simp [Uniform.isWellCounted, hop, hcu]⟩
  | swizzle ha hcount =>
    obtain ⟨hu, hcu⟩ := operand_listed hreads hp ha
    exact ⟨.one rfl hu, by simp [Uniform.isWellCounted, hcount, hcu]⟩
  | binary ha hb hop =>
    obtain ⟨hu, hcu⟩ := operand_listed hreads hp ha
    obtain ⟨hv, hcv⟩ := operand_listed hreads hp hb
    exact ⟨.two rfl hu hv, by simp [Uniform.isWellCounted, hop, hcu, hcv]⟩
  | clamp ha hb hc =>
    obtain ⟨hu, hcu⟩ := operand_listed hreads hp ha
    obtain ⟨hv, hcv⟩ := operand_listed hreads hp hb
    obtain ⟨hw, hcw⟩ := operand_listed hreads hp hc
    exact ⟨.three rfl hu hv hw, by simp [Uniform.isWellCounted, hcu, hcv, hcw]⟩

/-- The logic of the texts that are read and emitted. -/
def sounding (ctx : Context) : ctx.Logic where
  reads := True
  Ends p m Q := p.Yields m Q
  Later := Evolves
  trans := .trans
  scope h _ := h.retains.scopes _
  lasts _ := False.elim
  pure := .pure
  bind := .bind
  throw _ _ := .throw _
  report _ := (report_yields _).mono fun _ _ _ hc => hc ▸ ⟨.of_failed False.elim, False.elim⟩
  registers := registers_yields
  chunk {p} i _ := .of_sound fun hp => (chunk_yields i).mono fun d q _ ⟨hq, hd⟩ => by
    subst hq
    refine ⟨rfl, fun _ => hd, False.elim, fun _ => reads_plainText hp hd (.of_false _ _), ?_⟩
    intro hsome _
    obtain ⟨u, hu⟩ := Option.isSome_iff_exists.1 hsome
    rw [plainText_of_uniform? hu]
    exact .of_literal (((hp.ordered ctx.scope).follows hd).uniform hsome)
  readSlot {_} i _ := (readSlot_yields i).mono fun _ _ _ hc =>
    ⟨⟨⟨False.elim, fun _ => hc⟩, fun _ => False.elim⟩, False.elim⟩
  emitInline {p} _ _ literal _ _ htext hplaced := (emitInline_code (htext trivial)).mono
    fun c q _ hc => by
      refine ⟨⟨False.elim, fun _ => ?_⟩, fun _ => False.elim⟩
      cases literal with
      | false => exact .of_false _ c
      | true =>
        refine hc (Nat.lt_of_not_le fun hge => hplaced rfl trivial ?_)
        simp [Pass.scope, List.getElem?_eq_none hge]
  emitWith _ htext _ := (emitWith_yields (htext trivial)).mono fun c _ _ _ =>
    ⟨⟨⟨False.elim, fun _ => .of_false _ c⟩, fun _ => False.elim⟩, False.elim⟩
  emitUniform hu _ htext := .of_sound fun hp => by
    obtain ⟨hover, hcounts⟩ := folds_over trivial hp hu
    exact (emitUniform_yields hover hcounts (htext trivial).literal).mono fun c _ _ _ =>
      ⟨⟨False.elim, fun _ => .of_false _ c⟩, fun _ => False.elim⟩
  emitTexture {p ref type} _ _ _ _ := by
    have hover : (Uniform.texture ref).IsOver [] p.uniforms := ⟨rfl, by simp⟩
    have hemit : p.Yields (ctx.emitTexture ref type) fun _ _ => True :=
      emitUniform_yields hover rfl (.fixed (by decide))
    exact hemit.mono fun c _ _ _ => ⟨⟨False.elim, fun _ => .of_false _ c⟩, fun _ => False.elim⟩

/-- Any code will do as an operand. -/
theorem sounds {c : Code} : ctx.sounding.Good c p :=
  ⟨⟨False.elim, fun _ => .of_false _ c⟩, fun _ => False.elim⟩

theorem safe_of_sounding {α : Type} {m : PassM α} {Q : Pass → α → Pass → Prop}
    (h : ∀ p, ctx.sounding.Ends p m (Q p)) : Safe m := .of_yields h

theorem typeOf_safe (c : Code) : Safe (ctx.typeOf c) :=
  safe_of_sounding fun _ => ctx.sounding.typeOf sounds.toPoints

theorem constantOf_safe (c : Code) : Safe (ctx.constantOf c) :=
  safe_of_sounding fun _ => ctx.sounding.constantOf sounds.toPoints

/-- Code that stands for a uniform expression stands for an entry of the table. -/
theorem uniformOf_yields (c : Code) :
    p.Yields (ctx.uniformOf c) fun u? q => ∀ u, u? = some u → u ∈ q.uniforms := by
  refine .of_sound fun hp => (ctx.sounding.uniformOf sounds.toPoints : p.Yields _ _).mono ?_
  rintro u? q - ⟨rfl, hu⟩ u rfl
  obtain ⟨d, ⟨i, -, hd⟩, hd?⟩ := (hu u rfl).sees (.inr trivial)
  exact hp.listed _ d (List.mem_of_getElem? hd) u hd?

/-- The text of code mentions temporaries of the scope, none if the code is literal. -/
theorem textOf_yields {c : Code} (h : p.CodeReads ctx.scope literal c) :
    p.Yields (ctx.textOf c) fun t q => q.Reads ctx.scope literal t :=
  (ctx.sounding.textOf ⟨False.elim, fun _ => h⟩ : p.Yields _ _).mono fun _ _ _ ht => ht trivial

theorem textOf_yields_false (c : Code) :
    p.Yields (ctx.textOf c) fun t q => q.Reads ctx.scope false t := textOf_yields (.of_false _ c)

theorem textsOf_safe (a b : Code) : Safe (ctx.textsOf a b) := by
  have hreading : ∀ {p : Pass}, ctx.sounding.Reading false [a, b] .float [] p :=
    ⟨fun _ _ => sounds.toPoints, nofun, nofun⟩
  exact safe_of_sounding fun _ => ctx.sounding.textsOf hreading (by simp) (by simp)

theorem widened_safe (c : Code) (target : ValueType) : Safe (ctx.widened c target) :=
  safe_of_sounding fun _ => ctx.sounding.widened sounds.toPoints target

theorem convert_safe (c : Code) (target : ValueType) : Safe (ctx.convert c target) :=
  safe_of_sounding fun _ => ctx.sounding.convert sounds target

theorem resize_safe (c : Code) (target : ValueType) (flags : ResizeFlags) :
    Safe (ctx.resize c target flags) :=
  safe_of_sounding fun _ => ctx.sounding.resize sounds target flags

theorem append_safe (a b : Code) : Safe (ctx.append a b) :=
  safe_of_sounding fun _ => ctx.sounding.append sounds sounds

theorem scalarParameter_safe (name : String) (default : Single) :
    Safe (ctx.scalarParameter name default) :=
  safe_of_sounding fun _ => ctx.sounding.scalarParameter name default

end Context

end ShaderGraph
