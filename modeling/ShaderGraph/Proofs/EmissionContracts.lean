import ShaderGraph.Proofs.Emission
import ShaderGraph.Proofs.FlagSets
import ShaderGraph.Proofs.Handles

/-!
# Code that is emitted and read

The steps that emit and read code keep the handles of a state good: what is emitted is in the scope
of the context, and what is read there is what the handle points to. An expression is read through a
slot only where its type has one, so no slot of numbers is given to a texture
(`Context.readSlot_meets`).

That is a logic of operations (`Context.meeting`): given operands that point into the scope of the
context, the result of an operation does, and there is none only if that was reported. Operations
that do not check all of their operands ask that operations may be lax (`Terms.lax`).
-/

namespace ShaderGraph

open Pass

namespace Context

variable {t : Terms} {ctx : Context} {p q : Pass} {c : Code} {d : Chunk}
variable {α β : Type} {m : PassM α} {f : α → PassM β}
variable {i k : Nat} {env : Environment} {u : SharedUniform} {literal : Bool} {type : ValueType}

/-! ### Reports -/

theorem note_meets (level : LogLevel) {message : String} (h : message ≠ propertyMessage)
    (attributes : List (String × String)) :
    ctx.Meets t p (note level message attributes) fun _ _ => True := by
  refine .of_eq (a := ⟨⟩) (q := { p with log := p.log ++ [⟨level, message, attributes⟩] }) rfl
    (fun hp => { hp with stacked := hp.stacked_of_eq rfl })
    ⟨⟨fun _ => List.prefix_rfl, Nat.le_refl _, id, rfl, rfl, fun e he hmessage => ?_, id,
      List.prefix_rfl⟩, rfl, rfl⟩ trivial
  rcases List.mem_append.1 he with he | he
  · exact he
  · obtain rfl := List.mem_singleton.1 he
    exact absurd hmessage h

theorem addDiagnostic_meets (d : Diagnostic) :
    ctx.Meets t p (addDiagnostic d) fun _ q => q.success = false := by
  obtain ⟨log, hlog, heq⟩ := addDiagnostic_eq d p
  refine .of_eq heq (fun hp => ⟨hp.toSane.reported (p.diagnostics_withReport_ne_nil d) _,
    hp.placed, hp.audible⟩) (.reported _ fun e he hmessage => (hlog e he).resolve_left ?_) rfl
  rw [hmessage]
  decide

/-- There is no code for what is reported. -/
theorem report_meets (problem : Problem) :
    ctx.Meets t p (ctx.report problem) fun c q => c = none ∧ (t.loud → q.success = false) := by
  refine .of_fit fun hp => .get_bind ?_
  split
  split
  case h_1 held hheld =>
    refine .set_bind (fun hp => { hp with stacked := hp.stacked_of_eq rfl, audible := ?_ })
      ⟨⟨fun _ => List.prefix_rfl, Nat.le_refl _, id, rfl, rfl, fun _ h _ => h, fun hsink => ?_,
        List.prefix_rfl⟩, rfl, rfl⟩ (.pure ⟨rfl, fun hloud => ?_⟩)
    · intro hloud
      rw [hp.audible hloud] at hheld
      cases hheld
    · rw [hsink] at hheld
      cases hheld
    · rw [hp.audible hloud] at hheld
      cases hheld
  case h_2 => exact (addDiagnostic_meets _).bind fun _ q _ hq => .pure ⟨rfl, fun _ => hq⟩

theorem report_holds (problem : Problem) : ctx.Meets t p (ctx.report problem) (ctx.Holds t) :=
  (report_meets problem).mono fun _ _ _ h => h.1 ▸ .of_failed h.2

/-! ### Chunks -/

theorem chunk_eq (h : (p.scope ctx.scope)[i]? = some d) : ctx.chunk i p = .ok d p := by
  have hchunks : ctx.chunks p = .ok (p.scope ctx.scope) p := rfl
  unfold chunk
  rw [bind_of_ok hchunks]
  simp only [h]
  rfl

theorem typeOf_eq (h : ctx.Sees c d p) : ctx.typeOf c p = .ok d.type p := by
  obtain ⟨i, rfl, hd⟩ := h
  exact bind_of_ok (chunk_eq hd)

theorem uniformOf_eq (h : ctx.Sees c d p) : ctx.uniformOf c p = .ok d.uniform? p := by
  obtain ⟨i, rfl, hd⟩ := h
  exact bind_of_ok (chunk_eq hd)

theorem isDeferred_eq (h : ctx.Sees c d p) : ctx.isDeferred c p = .ok d.deferred?.isSome p := by
  obtain ⟨i, rfl, hd⟩ := h
  exact bind_of_ok (chunk_eq hd)

theorem constantOf_eq (h : ctx.Sees c d p) :
    ctx.constantOf c p = .ok (d.folded?.map fun u => u.expr.evaluate []) p := by
  obtain ⟨i, rfl, hd⟩ := h
  exact bind_of_ok (chunk_eq hd)

/-- Code has a type, also if there is none. -/
theorem exists_typeOf (h : ctx.Points c p) : ∃ type, ctx.typeOf c p = .ok type p := by
  cases c with
  | none => exact ⟨_, rfl⟩
  | some i =>
    obtain ⟨d, hd⟩ := h.sees rfl
    exact ⟨_, typeOf_eq hd⟩

/-! ### Emission -/

theorem push_meets (hd : d.Fits t ctx.env) :
    ctx.Meets t p (ctx.push d) fun c q => ctx.Sees c d q := by
  exact .of_fit fun hp => .of_eq (a := some (p.scope ctx.scope).length)
    (q := p.append ctx.scope d) rfl (fun hp => hp.append hd) (.append p ctx.scope d)
    ⟨_, rfl, getElem?_append hp.placed d⟩

theorem checkOpen_eq (h : p.finished = false) : ctx.checkOpen p = .ok () p := by
  refine (get_bind_eq _ p).trans ?_
  simp only [h]
  rfl

/-- A chunk that stands for no uniform expression. -/
theorem fits_of_type (htype : d.type ≠ .unknown) (h : d.uniform? = none) : d.Fits t env := by
  refine ⟨htype, fun u hu => ?_, fun _ u hu => ?_, fun u hu => ?_⟩
  all_goals
    rw [h] at hu
    cases hu

/-- Text that is put in place is a chunk of its own. -/
theorem emitInline_sees (htype : type ≠ .unknown) (text : String) :
    ctx.Meets t p (ctx.emitInline type text) fun c q =>
      ∃ d, ctx.Sees c d q ∧ d.type = type ∧ d.form = .inline := by
  refine .of_fit fun hp => .read (checkOpen_eq hp.unfinished) ?_
  rw [if_neg htype]
  exact (push_meets (fits_of_type htype rfl)).mono fun _ _ _ h => ⟨_, h, rfl, rfl⟩

theorem emitInline_holds (htype : type = .unknown → t.loud → p.success = false) (text : String) :
    ctx.Meets t p (ctx.emitInline type text) (ctx.Holds t) := by
  by_cases hknown : type = .unknown
  · refine .of_fit fun hp => .read (checkOpen_eq hp.unfinished) ?_
    rw [if_pos hknown]
    exact .pure (.of_failed (htype hknown))
  · exact (emitInline_sees hknown text).mono fun _ _ _ ⟨_, h, _⟩ => h.holds

/-- Code that can be kept in a temporary is. -/
theorem emitWith_sees (hknown : type ≠ .unknown)
    (hkept : type.isFloat || type.shares .pageTableResult || type = .shadingModel) (digest : Digest)
    (text : String) :
    ctx.Meets t p (ctx.emitWith digest type text) fun c q => ∃ d, ctx.Sees c d q := by
  refine .of_fit fun hp => .read (checkOpen_eq hp.unfinished) ?_
  rw [if_neg hknown, if_pos hkept]
  refine .read (rfl : ctx.chunks p = .ok (p.scope ctx.scope) p) ?_
  split
  case h_1 i hi =>
    obtain ⟨hlt, -⟩ := List.findIdx?_eq_some_iff_getElem.1 hi
    exact .pure ⟨_, i, rfl, List.getElem?_eq_getElem hlt⟩
  case h_2 =>
    refine .get_bind (.modify_bind rfl ?_)
    exact (push_meets (fits_of_type hknown rfl)).mono fun _ _ _ h => ⟨_, h⟩

theorem emitWith_holds (htype : type = .unknown → t.loud → p.success = false)
    (digest : Digest) (text : String) :
    ctx.Meets t p (ctx.emitWith digest type text) fun c q => ctx.Holds t c q ∧
      (type.isFloat || type.shares .pageTableResult || type = .shadingModel → c.isSome) := by
  by_cases hkept : type.isFloat || type.shares .pageTableResult || type = .shadingModel
  · have hknown : type ≠ .unknown := by
      rintro rfl
      exact absurd hkept (by decide)
    refine (emitWith_sees hknown hkept digest text).mono fun c q _ ⟨d, h⟩ => ⟨h.holds, fun _ => ?_⟩
    obtain ⟨i, rfl, -⟩ := h
    rfl
  · refine .of_fit fun hp => .read (checkOpen_eq hp.unfinished) ?_
    split
    case isTrue hknown => exact .pure ⟨.of_failed (htype hknown), fun h => absurd h hkept⟩
    case isFalse =>
      exact (report_holds _).mono fun _ _ _ h => ⟨h, fun h => absurd h hkept⟩

/-- An expression is added to the table. -/
theorem fit_intern (hp : p.Fit t env k) (hu : env.material.TexturesTyped → u.expr.Admitted t)
    (hcoherent : u.expr.Coherent) : Fit t env k { p with uniforms := p.uniforms ++ [u] } := by
  refine { hp with uniforms := fun htyped v hv => ?_, coherent := fun v hv => ?_,
                   stacked := hp.stacked_of_eq rfl }
  all_goals rcases List.mem_append.1 hv with hv | hv
  · exact hp.uniforms htyped v hv
  · exact List.mem_singleton.1 hv ▸ hu htyped
  · exact hp.coherent v hv
  · exact List.mem_singleton.1 hv ▸ hcoherent

/-- A uniform expression is emitted unless it is an operation whose result would be a texture. -/
theorem emitUniform_holds {u : Uniform} (htype : type = .unknown → t.loud → p.success = false)
    (hu : ctx.material.TexturesTyped → type ≠ .unknown → (type.isTexture → u.isTexture) →
      u.Admitted t ∧ (u.isTexture → type.isTextureKind))
    (hnamed : ∀ ref, u = .texture ref → t.Allows ctx.env ref type)
    (hscalar : u.Coherent ∧ (type = .float → u.isScalar)) (arguments : List Nat) (digest : Digest)
    (text : String) :
    ctx.Meets t p (ctx.emitUniform u arguments type digest text) (ctx.Holds t) := by
  unfold emitUniform
  split
  case isTrue hknown => exact .pure (.of_failed (htype hknown))
  case isFalse hknown =>
    split
    · exact report_holds _
    case isFalse htexture =>
      have hchecked : type.isTexture → u.isTexture := by simpa using htexture
      have hadmitted := fun htyped => hu htyped hknown hchecked
      split
      · exact report_holds _
      split
      · exact report_holds _
      split
      · exact report_holds _
      refine .of_fit fun hp => .get_bind ?_
      split
      case h_1 known hfind =>
        have hroot : known.expr.sameRoot u := by
          have hmatch := List.find?_some hfind
          simp only [Bool.and_eq_true] at hmatch
          exact hmatch.1
        have hfits : Chunk.Fits t ctx.env ⟨digest, text, type, .uniform known⟩ := by
          have hlisted := List.mem_of_find?_eq_some hfind
          refine ⟨hknown, fun v hv htype => ?_, fun htyped v hv => ?_, fun v hv => ?_⟩ <;> cases hv
          · obtain ⟨ref, rfl⟩ := Uniform.exists_ref_of_isTexture (hchecked htype)
            exact ⟨ref, Uniform.eq_texture_of_sameRoot hroot, hnamed ref rfl⟩
          · refine ⟨hp.uniforms htyped known hlisted, fun h => ?_⟩
            exact (hadmitted htyped).2 (Uniform.isTexture_of_sameRoot hroot ▸ h)
          · exact ⟨hp.coherent known hlisted, Uniform.isScalar_of_sameRoot hroot ▸ hscalar.2⟩
        refine .read (rfl : ctx.chunks p = .ok (p.scope ctx.scope) p) ?_
        split
        case h_1 i hi =>
          obtain ⟨hlt, -⟩ := List.findIdx?_eq_some_iff_getElem.1 hi
          exact .pure (Sees.holds ⟨i, rfl, List.getElem?_eq_getElem hlt⟩)
        case h_2 => exact (push_meets hfits).mono fun _ _ _ h => h.holds
      case h_2 =>
        have hfits : Chunk.Fits t ctx.env
            ⟨digest, text, type, .uniform ⟨p.uniforms.length, arguments, u⟩⟩ := by
          refine ⟨hknown, fun v hv htype => ?_, fun htyped v hv => ?_, fun v hv => ?_⟩ <;> cases hv
          · obtain ⟨ref, rfl⟩ := Uniform.exists_ref_of_isTexture (hchecked htype)
            exact ⟨ref, rfl, hnamed ref rfl⟩
          · exact hadmitted htyped
          · exact hscalar
        refine (push_meets hfits).bind fun code q _ hcode => ?_
        refine .update_bind (fun hq => fit_intern hq (fun htyped => (hadmitted htyped).1) hscalar.1)
          (.of_ground_eq rfl) (.pure ?_)
        exact Sees.holds hcode

/-! ### Slots -/

/-- Textures are not kept among numbers. -/
theorem slot_of_isTextureKind (h : type.isTextureKind) :
    SlotKind.ofType? type ≠ some .scalar ∧ SlotKind.ofType? type ≠ some .vector := by
  have hkinds : ∀ s ∈ ValueType.textureKinds,
      SlotKind.ofType? s ≠ some .scalar ∧ SlotKind.ofType? s ≠ some .vector := by decide
  exact hkinds type (ValueType.mem_textureKinds h)

theorem uniform?_of_deferred? (h : d.deferred? = some u) :
    d.uniform? = some u := (Option.filter_eq_some_iff.1 h).1

theorem virtuals_slot (p : Pass) (u : SharedUniform) (kind : SlotKind) :
    p.slots.texturesVirtual <+:
      (p.slots.withTable kind (addSlot (p.slots.table kind) u).2).texturesVirtual := by
  cases kind with
  | virtualTexture => exact prefix_addSlot _ _
  | _ => exact List.prefix_rfl

theorem fit_slot (hp : p.Fit t env k) (hd : d.Fits t env) (hu : d.deferred? = some u)
    {kind : SlotKind} (hkind : SlotKind.ofType? d.type = some kind) :
    Fit t env k
      { p with slots := p.slots.withTable kind (addSlot (p.slots.table kind) u).2 } := by
  refine { hp with slots := fun htyped v hv => ?_, stacked := fun ht => ?_ }
  rotate_left
  · exact (hp.stacked ht).of_eq (by cases kind <;> rfl) (virtuals_slot p u kind)
  have hnew : kind = .scalar ∨ kind = .vector → u.expr.Admitted t ∧ u.expr.isTexture = false := by
    intro hnumber
    obtain ⟨hadmitted, htexture⟩ := hd.uniform htyped u (uniform?_of_deferred? hu)
    refine ⟨hadmitted, Bool.eq_false_iff.2 fun h => ?_⟩
    obtain ⟨hscalar, hvector⟩ := slot_of_isTextureKind (htexture h)
    rcases hnumber with rfl | rfl
    · exact hscalar hkind
    · exact hvector hkind
  have hold := hp.slots htyped
  cases kind
  case scalar =>
    rcases List.mem_append.1 hv with hv | hv
    · rcases mem_of_mem_addSlot hv with hv | rfl
      · exact hold v (List.mem_append_left _ hv)
      · exact hnew (.inl rfl)
    · exact hold v (List.mem_append_right _ hv)
  case vector =>
    rcases List.mem_append.1 hv with hv | hv
    · exact hold v (List.mem_append_left _ hv)
    · rcases mem_of_mem_addSlot hv with hv | rfl
      · exact hold v (List.mem_append_right _ hv)
      · exact hnew (.inr rfl)
  all_goals exact hold v hv

/-- A slot is read by text that is put in place. -/
theorem readSlot_meets (h : (p.scope ctx.scope)[i]? = some d) :
    ctx.Meets t p (ctx.readSlot i) fun c q =>
      (∃ d', ctx.Sees c d' q ∧ d'.type = d.type ∧ d'.form = .inline) ∧
        (d.type = .textureVirtual → ∀ u, d.deferred? = some u → q.slots.HasSlot u) := by
  refine .of_fit fun hp => .read (chunk_eq h) ?_
  have hd := hp.chunks _ d (List.mem_of_getElem? h)
  split
  case h_1 => exact .throw rfl
  case h_2 u hu =>
    split
    case h_1 => exact .throw rfl
    case h_2 kind hkind =>
      refine .get_bind (.set_bind (fun hp => fit_slot hp hd hu hkind) ⟨⟨fun _ => List.prefix_rfl,
        Nat.le_refl _, id, rfl, rfl, fun _ h _ => h, id, virtuals_slot p u kind⟩, rfl, rfl⟩ ?_)
      refine (emitInline_sees hd.known _).mono fun c q hq hc => ⟨hc, fun htype v hv => ?_⟩
      cases hu.symm.trans hv
      obtain rfl : SlotKind.virtualTexture = kind :=
        Option.some.inj
          ((by decide : some _ = SlotKind.ofType? .textureVirtual).trans (htype ▸ hkind))
      obtain ⟨e, he, hid⟩ := getElem?_addSlot p.slots.texturesVirtual u
      exact ⟨e, hq.virtuals.subset (List.mem_of_getElem? he), hid⟩

/-! ### Operations -/

/-- What the logic of handles speaks of. -/
def concerns (t : Terms) (ctx : Context) : ctx.Concerns where
  handles := True
  strict := True
  loud := t.loud
  lax := t.lax
  laid := t.laid

theorem concerns_points : (concerns t ctx).Points literal c p ↔ ctx.Points c p := by
  constructor
  · intro h i hi
    obtain ⟨d, hd, -⟩ := h.place trivial i hi
    exact (List.getElem?_eq_some_iff.1 hd).1
  · exact fun h => ⟨fun _ i hi => ⟨_, List.getElem?_eq_getElem (h i hi), .inl trivial⟩, False.elim⟩

theorem concerns_holds : (concerns t ctx).Holds literal c p ↔ ctx.Holds t c p :=
  ⟨fun h => ⟨concerns_points.1 h.toPoints, fun hloud hc => h.failed hc hloud⟩,
    fun h => ⟨concerns_points.2 h.1, fun hc hloud => h.2 hloud hc⟩⟩

section

variable (hp : p.Sane t ctx.env)

include hp

/-- An operand of a fold is an expression that operations can have come to, and a number if its type
is not that of a texture. -/
theorem operand_admitted (htyped : ctx.material.TexturesTyped)
    {type : ValueType} (h : (concerns t ctx).Operand c type u p) :
    u.expr.Admitted t ∧ (type.isTextureKind = false → u.expr.isTexture = false) := by
  obtain ⟨d, hd, rfl, hu⟩ := h (.inl trivial)
  obtain ⟨hadmitted, htexture⟩ := (hd.fits hp).uniform htyped u hu
  refine ⟨hadmitted, fun hkind => Bool.eq_false_iff.2 fun h => ?_⟩
  rw [htexture h] at hkind
  cases hkind

/-- So is what is folded from them. -/
theorem folds_admitted (htyped : ctx.material.TexturesTyped)
    {type : ValueType} {e : Uniform} {arguments : List SharedUniform}
    (h : (concerns t ctx).Folds p e arguments type) (hknown : type ≠ .unknown)
    (htype : type.isTexture = false) : e.Admitted t := by
  cases h with
  | leaf hoperands hnumber => exact .leaf hoperands hnumber
  | unary ha _ hcheck =>
    obtain ⟨ha, hnumber⟩ := operand_admitted hp htyped ha
    exact ha.unary (hcheck.imp_left fun h => hnumber (h hknown htype))
  | swizzle ha _ hkind =>
    obtain ⟨ha, hnumber⟩ := operand_admitted hp htyped ha
    exact ha.swizzle _ (hnumber hkind)
  | binary ha hb _ hfirst hsecond =>
    obtain ⟨ha, hna⟩ := operand_admitted hp htyped ha
    obtain ⟨hb, hnb⟩ := operand_admitted hp htyped hb
    exact ha.binary hb (hfirst.imp_left fun h => hna (h hknown htype))
      (hsecond.imp_left fun h => hnb (h hknown htype))
  | clamp ha hb hc hlax hfirst =>
    obtain ⟨ha, hna⟩ := operand_admitted hp htyped ha
    exact ha.clamp hlax (operand_admitted hp htyped hb).1 (operand_admitted hp htyped hc).1
      (hna (hfirst htype))

/-- The types of an operand of a fold fit together, and it is a scalar if its code is. -/
theorem operand_coherent {u : SharedUniform} (h : (concerns t ctx).Operand c type u p) :
    u.expr.Coherent ∧ (type = .float → u.expr.isScalar) := by
  obtain ⟨d, hd, rfl, hu⟩ := h (.inl trivial)
  exact (hd.fits hp).coherent u hu

/-- So do those of what is folded from them. -/
theorem folds_coherent {e : Uniform} {arguments : List SharedUniform}
    (h : (concerns t ctx).Folds p e arguments type) :
    e.Coherent ∧ (type = .float → e.isScalar) := by
  cases h with
  | leaf _ _ hscalar => exact hscalar trivial
  | unary ha _ _ hscalar =>
    obtain ⟨ha, hsa⟩ := operand_coherent hp ha
    exact ⟨⟨fun h hop => hsa (hscalar h hop), ha⟩, decide_eq_true⟩
  | swizzle ha _ _ hscalar =>
    exact ⟨(operand_coherent hp ha).1, fun h => decide_eq_true (hscalar h)⟩
  | binary ha hb _ _ _ hscalar =>
    obtain ⟨ha, hsa⟩ := operand_coherent hp ha
    obtain ⟨hb, hsb⟩ := operand_coherent hp hb
    refine ⟨⟨fun h => ?_, ha, hb⟩, decide_eq_true⟩
    obtain ⟨hop, hfirst, hsecond⟩ := hscalar h
    exact ⟨hop, fun h => hsa (hfirst h), fun h => hsb (hsecond h)⟩
  | clamp ha hb hc _ _ hscalar =>
    obtain ⟨ha, hsa⟩ := operand_coherent hp ha
    exact ⟨⟨fun h => hsa (hscalar h), ha, (operand_coherent hp hb).1,
      (operand_coherent hp hc).1⟩, decide_eq_true⟩

end

theorem registers_ground {u : Pass → Pass} (h : ctx.Registers u) (p : Pass) :
    (u p).ground = p.ground := by
  cases h with
  | usage | shadingModel => rfl
  | coordinate | sample =>
    split
    · rfl
    · rfl

theorem registers_fit {u : Pass → Pass} (h : ctx.Registers u) (hp : p.Fit t ctx.env k) :
    (u p).Fit t ctx.env k := by
  cases h with
  | usage | shadingModel => exact hp.of_account_eq rfl
  | sample =>
    split
    · exact hp.of_account_eq rfl
    · exact hp.of_account_eq rfl
  | coordinate hi =>
    split
    · exact hp.of_account_eq rfl
    · refine { hp with coordinates := fun other henv => ?_, stacked := hp.stacked_of_eq rfl }
      have hsame : other.coordinateSets = ctx.coordinateSets := by
        unfold coordinateSets options material
        rw [henv]
      rw [hsame]
      exact FlagSet.bound_insert_le (hp.coordinates ctx rfl) hi

/-- The logic of handles. -/
def meeting (t : Terms) (ctx : Context) : ctx.Logic where
  toConcerns := concerns t ctx
  Ends p m Q := ctx.Meets t p m Q
  Later := Pass.Later
  trans := .trans
  scope h _ := h.scopes _
  lasts h _ := h.failed
  pure := .pure
  bind := .bind
  throw _ h := .throw (h trivial)
  report _ := (report_meets _).mono fun _ _ _ ⟨hc, hq⟩ => hc ▸ ⟨.of_failed hq, hq⟩
  registers {p} _ h := .of_eq rfl (fun hp => registers_fit h hp)
    (.of_ground_eq (registers_ground h p)) trivial
  chunk {p i} h := by
    obtain ⟨d, hd, -⟩ := h.place trivial i rfl
    refine .of_fit fun hp => .of_eq (chunk_eq hd) id (.refl p) ⟨rfl, fun _ => hd, fun _ => ?_,
      False.elim, fun _ => False.elim⟩
    exact (hp.chunks _ d (List.mem_of_getElem? hd)).known
  readSlot {p i} h := by
    obtain ⟨d, hd, -⟩ := h.place trivial i rfl
    refine (readSlot_meets hd).mono fun c q _ ⟨⟨e, he, _⟩, _⟩ =>
      ⟨concerns_holds.2 he.holds, fun _ => ?_⟩
    obtain ⟨j, rfl, -⟩ := he
    rfl
  emitInline _ htype _ _ := (emitInline_holds htype _).mono fun _ _ _ => concerns_holds.2
  emitWith htype _ _ := (emitWith_holds htype _ _).mono fun _ _ _ hc =>
    ⟨concerns_holds.2 hc.1, fun _ => hc.2⟩
  emitUniform {p _ _ type _ _} hu htype _ := by
    have hnumber := hu.isTexture_eq
    refine .of_fit fun hp => (emitUniform_holds htype (fun htyped hknown htexture => ?_)
      (fun ref h => ?_) (folds_coherent hp.toSane hu) _ _ _).mono fun _ _ _ => concerns_holds.2
    · have htype : type.isTexture = false :=
        Bool.eq_false_iff.2 fun h => by simp [hnumber, h] at htexture
      refine ⟨folds_admitted hp.toSane htyped hu hknown htype, fun h => ?_⟩
      rw [hnumber] at h
      cases h
    · rw [h] at hnumber
      cases hnumber
  emitTexture htexture hkind hallowed _ := by
    refine (emitUniform_holds (u := .texture _) (fun h => absurd (h ▸ htexture) (by decide))
      (fun htyped _ _ => ⟨⟨rfl, .inr (.inl rfl)⟩, fun _ => hkind htyped⟩) (fun other h => ?_)
      ⟨trivial, fun h => absurd (h ▸ htexture) (by decide)⟩ _ _ _).mono fun _ _ _ =>
      concerns_holds.2
    obtain rfl := Uniform.texture.inj h
    exact hallowed

theorem Holds.good (h : ctx.Holds t c p) : (meeting t ctx).Good c p := concerns_holds.2 h

theorem Points.given (h : ctx.Points c p) : (meeting t ctx).Points false c p := concerns_points.2 h

/-- What an operation gives. -/
theorem Meets.of_good {m : PassM Code} (h : (meeting t ctx).Ends p m (meeting t ctx).Good) :
    ctx.Meets t p m (ctx.Holds t) :=
  Meets.mono h fun _ _ _ hc => concerns_holds.1 hc

theorem textOf_meets (h : ctx.Points c p) : ctx.Meets t p (ctx.textOf c) fun _ _ => True :=
  Meets.mono ((meeting t ctx).textOf h.given) fun _ _ _ _ => trivial

theorem widened_meets (h : ctx.Points c p) (target : ValueType) :
    ctx.Meets t p (ctx.widened c target) fun _ _ => True :=
  Meets.mono ((meeting t ctx).widened h.given target) fun _ _ _ _ => trivial

theorem convert_holds (h : ctx.Holds t c p) (target : ValueType) :
    ctx.Meets t p (ctx.convert c target) (ctx.Holds t) :=
  .of_good ((meeting t ctx).convert h.good target)

theorem resize_holds (h : ctx.Holds t c p) (target : ValueType) (flags : ResizeFlags) :
    ctx.Meets t p (ctx.resize c target flags) (ctx.Holds t) :=
  .of_good ((meeting t ctx).resize h.good target flags)

end Context

/-! ### Bodies -/

/-- A chunk that needs no slot has a body. -/
theorem Scope.exists_body {s : Scope} {i : Nat} {d : Chunk} (hd : s[i]? = some d)
    (hread : d.deferred? = none) (start stop : Nat) :
    ∃ body, s.body start stop (some i) = .ok body := by
  unfold Scope.body
  simp only [hd]
  cases hform : d.form with
  | inline => exact ⟨_, rfl⟩
  | temporary number => exact ⟨_, rfl⟩
  | uniform u =>
    have hconstant : u.expr.isConstant := by
      simpa [Chunk.deferred?, Chunk.uniform?, hform] using hread
    exact ⟨_, if_pos hconstant⟩

namespace Context

variable {t : Terms} {ctx : Context} {p q : Pass} {c : Code} {d : Chunk}

theorem functionBody_meets (h : ctx.Points c p) :
    ctx.Meets t p (ctx.functionBody c) fun _ _ => True := by
  cases c with
  | none => exact .pure trivial
  | some i =>
    have hd := List.getElem?_eq_getElem (h i rfl)
    refine .read (isDeferred_eq ⟨i, rfl, hd⟩) ?_
    split
    · exact (textOf_meets h).bind fun _ _ _ _ => .pure trivial
    case isFalse hread =>
      obtain ⟨body, hbody⟩ := Scope.exists_body hd (by simpa using hread) 0
        (p.scope ctx.scope).length
      refine .read (rfl : ctx.chunks p = .ok (p.scope ctx.scope) p) ?_
      rw [hbody]
      exact .pure trivial

end Context

end ShaderGraph
