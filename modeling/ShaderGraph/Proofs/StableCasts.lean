import ShaderGraph.Proofs.Acceptance
import ShaderGraph.Proofs.Slots

/-!
# Casts that are done again

Code that was cast is of a type that goes with the target, and to cast it to the same target again
changes nothing (`Cast.apply_stable`). A cast that gives no code has reported that, once. Two kinds
of code do not go with their target: a virtual texture is let through as an ordinary one, and
anything is let through as material attributes where a function input asks for them.

Code that is deferred is read first, and what reads it is not deferred (`Context.readSlot_sees`).
From there on a cast keeps the code, emits code of the target, or reports (`Cast.Ends`).
-/

namespace ShaderGraph

open Pass

namespace ValueType

/-- The types that are named. -/
def declared : List ValueType :=
  [.float1, .float2, .float3, .float4, .texture2D, .textureCube, .texture2DArray, .volumeTexture,
    .staticBool, .unknown, .materialAttributes, .textureExternal, .textureVirtual,
    .pageTableResult, .shadingModel, .float, .texture]

variable {s t : ValueType}

/-- A float type that is named has components. -/
theorem declared_float (h : t ∈ declared) (hfloat : t.isFloat) :
    t.components ≠ 0 ∧ t ≠ .unknown := by
  revert t
  decide

theorem declared_shares (h : t ∈ declared) : t.shares t := by
  revert t
  decide

/-- All textures together go with a virtual one. -/
theorem shares_texture (h : s.shares .textureVirtual) : s.shares .texture := by
  have hpart :
      s.bits &&& texture.bits &&& textureVirtual.bits = s.bits &&& textureVirtual.bits := by
    rw [UInt32.and_assoc]
    rfl
  unfold shares at *
  rw [bne_iff_ne] at *
  intro hnone
  rw [hnone, UInt32.zero_and] at hpart
  exact h hpart.symm

end ValueType

namespace Pass

variable (p : Pass)

/-- What a pass has reported, and what it holds back. -/
def reports : Bool × List Diagnostic × Option (List Diagnostic) :=
  (p.success, p.diagnostics, p.sink)

/-- One diagnostic is reported, or held back. -/
def raised (d : Diagnostic) : Pass :=
  match p.sink with
  | some held => { p with sink := some (held ++ [d]) }
  | none => p.withReport d

theorem reports_raised {p q : Pass} (h : q.reports = p.reports) (d : Diagnostic) :
    (q.raised d).reports = (p.raised d).reports := by
  obtain ⟨hsuccess, hdiagnostics, hsink⟩ : q.success = p.success ∧ q.diagnostics = p.diagnostics ∧
      q.sink = p.sink := by simpa [reports] using h
  unfold raised
  cases hp : p.sink with
  | some held => simp [reports, hsink, hp, hsuccess, hdiagnostics]
  | none => simp [reports, withReport, hsink, hp, hdiagnostics]

end Pass

/-- The casts of code to a type: that of a function input, and that of a property. -/
inductive Cast where
  | convert
  | resize (flags : Context.ResizeFlags)

namespace Cast

variable {cast : Cast}

def apply (ctx : Context) : Cast → Code → ValueType → PassM Code
  | convert, c, target => ctx.convert c target
  | resize flags, c, target => ctx.resize c target flags

/-- Whether a cast may give code of a type for a target. -/
def Admits (cast : Cast) (type target : ValueType) : Prop :=
  type.shares target ∨ type.shares .textureVirtual ∧ target = .texture2D ∨
    cast = convert ∧ target = .materialAttributes

theorem Admits.of_virtual {type target : ValueType} (htarget : target ∈ ValueType.declared)
    (h : type.shares .textureVirtual && target.shares .texture2D) : cast.Admits type target := by
  obtain ⟨hvirtual, htexture⟩ := Bool.and_eq_true_iff.1 h
  have htextures : ∀ t ∈ ValueType.declared, t.shares .texture2D →
      t = .texture2D ∨ t = .texture := by decide
  rcases htextures target htarget htexture with rfl | rfl
  · exact .inr (.inl ⟨hvirtual, rfl⟩)
  · exact .inl (ValueType.shares_texture hvirtual)

/-- What comes of a cast of code that is not deferred. -/
inductive Ends (ctx : Context) (cast : Cast) (c : Code) (type target : ValueType) (p : Pass) :
    Code → Pass → Prop where
  | kept : cast.Admits type target → Ends ctx cast c type target p c p
  | emitted (text : String) : Ends ctx cast c type target p (some (p.scope ctx.scope).length)
      (p.append ctx.scope ⟨Digest.ofText text 0, text, target, .inline⟩)
  | reported {q : Pass} (d : Diagnostic) : d.kind = .type → q.reports = (p.raised d).reports →
      Ends ctx cast c type target p none q

/-- What comes of any cast: code that is cast to itself, or a report. -/
def Stable (ctx : Context) (cast : Cast) (target : ValueType) (p : Pass) (r : Code) (q : Pass) :
    Prop :=
  (∃ i d, r = some i ∧ (q.scope ctx.scope)[i]? = some d ∧ cast.Admits d.type target ∧
      q.reports = p.reports ∧ cast.apply ctx r target q = .ok r q) ∨
    ∃ d : Diagnostic, r = none ∧ d.kind = .type ∧ q.reports = (p.raised d).reports

theorem Stable.since {ctx : Context} {target : ValueType} {p p' q : Pass} {r : Code}
    (h : Stable ctx cast target p' r q) (hp : p'.reports = p.reports) :
    Stable ctx cast target p r q := by
  rcases h with ⟨i, d, hr, hd, hadmits, hreports, hagain⟩ | ⟨d, hr, hkind, hraised⟩
  · exact .inl ⟨i, d, hr, hd, hadmits, hreports.trans hp, hagain⟩
  · exact .inr ⟨d, hr, hkind, hraised.trans (reports_raised hp d)⟩

end Cast

namespace Context

variable {ctx : Context} {cast : Cast} {c : Code} {d : Chunk} {target : ValueType} {p q : Pass}

/-! ### Steps of a cast -/

theorem report_ends {problem : Problem} (hkind : problem.kind = .type) {type : ValueType} :
    p.Gives (ctx.report problem) (Cast.Ends ctx cast c type target p) := by
  refine .get_bind ?_
  split
  rename_i place node _
  have hraised : ∀ {q : Pass}, q.reports =
      (p.raised ⟨place ++ problem.message, node, problem.kind⟩).reports →
        Cast.Ends ctx cast c type target p none q := .reported _ hkind
  unfold raised at hraised
  split
  case h_1 held hsink =>
    rw [hsink] at hraised
    exact .set_bind (.pure (hraised rfl))
  case h_2 hsink =>
    rw [hsink] at hraised
    obtain ⟨log, -, hlog⟩ := addDiagnostic_eq ⟨place ++ problem.message, node, problem.kind⟩ p
    exact .read hlog (.pure (hraised rfl))

theorem emitInline_ends (h : target ≠ .unknown) (text : String) {type : ValueType} :
    p.Gives (ctx.emitInline target text) (Cast.Ends ctx cast c type target p) := by
  refine (emitInline_gives target text).mono fun c q hc => ?_
  obtain ⟨hunknown, -⟩ | ⟨-, rfl, rfl⟩ := hc
  · exact absurd hunknown h
  · exact .emitted text

/-- The text of code that is not deferred is read off its chunk. -/
theorem textOf_eq (hd : ctx.Sees c d p) (hplain : d.deferred? = none) :
    ctx.textOf c p = .ok (plainText d) p := by
  obtain ⟨i, rfl, hd⟩ := hd
  refine (bind_of_ok (chunk_eq hd)).trans ?_
  rw [hplain]
  rfl

/-- What reads a slot is not deferred, and has the type of what is read. -/
theorem readSlot_sees {i : Nat} (hd : (p.scope ctx.scope)[i]? = some d) :
    p.Gives (ctx.readSlot i) fun c q => q.reports = p.reports ∧
      ∃ d', ctx.Sees c d' q ∧ d'.deferred? = none ∧ d'.type = d.type := by
  refine (readSlot_gives i).mono fun c q hc => ?_
  obtain ⟨e, u, kind, he, -, -, rfl, rfl⟩ := hc
  cases he.symm.trans hd
  exact ⟨rfl, _, sees_append (p := { p with slots := _ }) (lt_of_getElem?_scope hd) _, rfl, rfl⟩

/-! ### Casts of code that is not deferred -/

section Plain

variable (hd : ctx.Sees c d p) (hplain : d.deferred? = none) (htarget : target ∈ ValueType.declared)

include hd hplain htarget

theorem convert_ends :
    p.Gives (ctx.convert c target) (Cast.Ends ctx .convert c d.type target p) := by
  have htext := textOf_eq hd hplain
  obtain ⟨i, rfl, hd⟩ := hd
  refine .read (chunk_eq hd) ?_
  simp only [hplain, Option.isSome_none, Bool.false_eq_true, if_false]
  split
  case isTrue hshares => exact .pure (.kept (.inl hshares))
  unfold convertPlain
  split
  case isTrue hfloats =>
    obtain ⟨-, hfloat⟩ := Bool.and_eq_true_iff.1 hfloats
    obtain ⟨hcomponents, hknown⟩ := ValueType.declared_float htarget hfloat
    split
    · exact .read htext (emitInline_ends hknown _)
    split
    · split
      · exact report_ends rfl
      · exact .read htext (emitInline_ends hknown _)
    · exact .pure (.kept (.inl (ValueType.shares_of_components_eq (by omega) hcomponents)))
  split
  case isTrue hattributes => exact .pure (.kept (.inr (.inr ⟨rfl, hattributes⟩)))
  case isFalse => exact report_ends rfl

theorem resize_ends (flags : ResizeFlags) :
    p.Gives (ctx.resize c target flags) (Cast.Ends ctx (.resize flags) c d.type target p) := by
  have htext := textOf_eq hd hplain
  have htype := typeOf_eq hd
  obtain ⟨i, rfl, hd⟩ := hd
  refine .read (chunk_eq hd) ?_
  simp only [hplain, Option.isSome_none, Bool.false_eq_true, if_false]
  refine .read htype ?_
  split
  case isTrue hsame =>
    simp only [Bool.and_eq_true, decide_eq_true_eq] at hsame
    exact .pure (.kept (.inl (by rw [hsame.2]; exact ValueType.declared_shares htarget)))
  split
  case isTrue hshares => exact .pure (.kept (.inl (Bool.and_eq_true_iff.1 hshares).2))
  split
  case isTrue hfloats =>
    obtain ⟨-, hfloat⟩ := Bool.and_eq_true_iff.1 hfloats
    obtain ⟨hcomponents, hknown⟩ := ValueType.declared_float htarget hfloat
    refine .read htext ?_
    split
    · exact emitInline_ends hknown _
    split
    · exact emitInline_ends hknown _
    · exact .pure (.kept (.inl (ValueType.shares_of_components_eq (by omega) hcomponents)))
  split
  case isTrue hvirtual => exact .pure (.kept (.of_virtual htarget hvirtual))
  case isFalse => exact report_ends rfl

end Plain

end Context

namespace Cast

variable {ctx : Context} {cast : Cast} {c r : Code} {d : Chunk} {target : ValueType} {p q : Pass}

/-- Code that is not deferred is kept, or replaced by code of the target, or refused. -/
theorem apply_ends (hd : ctx.Sees c d p) (hplain : d.deferred? = none)
    (htarget : target ∈ ValueType.declared) :
    p.Gives (cast.apply ctx c target) (Ends ctx cast c d.type target p) := by
  cases cast with
  | convert => exact Context.convert_ends hd hplain htarget
  | resize flags => exact Context.resize_ends hd hplain htarget flags

/-- Code of the target is kept. -/
theorem apply_eq_of_type (hd : ctx.Sees c d p) (hplain : d.deferred? = none)
    (htype : d.type = target) (htarget : target ∈ ValueType.declared) :
    cast.apply ctx c target p = .ok c p := by
  have hshares := ValueType.declared_shares htarget
  have htypeOf := Context.typeOf_eq hd
  rw [htype] at htypeOf
  obtain ⟨i, rfl, hd⟩ := hd
  cases cast with
  | convert =>
    refine (bind_of_ok (Context.chunk_eq hd)).trans ?_
    simp only [htype, hshares, if_true]
    rfl
  | resize flags =>
    refine (bind_of_ok (Context.chunk_eq hd)).trans ?_
    simp only [hplain, Option.isSome_none, Bool.false_eq_true, if_false]
    refine (bind_of_ok htypeOf).trans ?_
    cases hexact : flags.exact <;> simp [hshares] <;> rfl

/-- Code that is deferred is let through as it is, or read and then cast. -/
theorem apply_deferred {i : Nat} (hd : (p.scope ctx.scope)[i]? = some d)
    (hdeferred : d.deferred?.isSome) (htarget : target ∈ ValueType.declared)
    (h : cast.apply ctx (some i) target p = .ok r q) :
    r = some i ∧ q = p ∧ cast.Admits d.type target ∨
      ∃ c p', ctx.readSlot i p = .ok c p' ∧ cast.apply ctx c target p' = .ok r q := by
  cases cast with
  | convert =>
    have hcast := (bind_of_ok (Context.chunk_eq hd)).symm.trans h
    split at hcast
    case isTrue hshares =>
      cases hcast
      exact .inl ⟨rfl, rfl, .inl hshares⟩
    case isFalse hshares =>
    split at hcast
    case isTrue hvirtual =>
      cases hcast
      exact .inl ⟨rfl, rfl, .of_virtual htarget hvirtual⟩
    case isFalse =>
      obtain ⟨c, p₁, hread, hcast⟩ := exists_of_bind hcast
      refine .inr ⟨c, p₁, hread, ?_⟩
      obtain ⟨-, d', ⟨j, rfl, hd'⟩, hplain, htype⟩ := Context.readSlot_sees hd c p₁ hread
      refine (bind_of_ok (Context.chunk_eq hd')).trans ?_
      simpa only [htype, hplain, hshares, Option.isSome_none, Bool.false_eq_true, if_false]
        using hcast
  | resize flags =>
    have hcast := (bind_of_ok (Context.chunk_eq hd)).symm.trans h
    simp only [hdeferred, if_true] at hcast
    obtain ⟨c, p₁, hread, hcast⟩ := exists_of_bind hcast
    refine .inr ⟨c, p₁, hread, ?_⟩
    obtain ⟨-, d', ⟨j, rfl, hd'⟩, hplain, htype⟩ := Context.readSlot_sees hd c p₁ hread
    refine (bind_of_ok (Context.chunk_eq hd')).trans ?_
    simpa only [hplain, Option.isSome_none, Bool.false_eq_true, if_false] using hcast

/-- **Casts of code that is not deferred.** -/
theorem apply_stable_of_plain (hd : ctx.Sees c d p) (hplain : d.deferred? = none)
    (htarget : target ∈ ValueType.declared) (h : cast.apply ctx c target p = .ok r q) :
    Stable ctx cast target p r q := by
  cases apply_ends hd hplain htarget r q h with
  | kept hadmits =>
    obtain ⟨i, rfl, hd⟩ := hd
    exact .inl ⟨i, d, rfl, hd, hadmits, rfl, h⟩
  | emitted text =>
    obtain ⟨i, rfl, hd⟩ := hd
    have hlast := getElem?_append (Context.lt_of_getElem?_scope hd)
      ⟨Digest.ofText text 0, text, target, .inline⟩
    exact .inl ⟨_, _, rfl, hlast, .inl (ValueType.declared_shares htarget), rfl,
      apply_eq_of_type ⟨_, rfl, hlast⟩ rfl rfl htarget⟩
  | reported d hkind hraised => exact .inr ⟨d, rfl, hkind, hraised⟩

/-- **Casts are compatible and stable.** A cast to a type that is named gives code of a type that
goes with it, but for virtual textures and material attributes, without any report; to cast that
code once more gives it back and changes nothing. If a cast gives no code although it was given
some, it has reported exactly one problem, and that is one of types. -/
theorem apply_stable (cast : Cast) (ctx : Context) {c r : Code} {target : ValueType}
    (htarget : target ∈ ValueType.declared) {p q : Pass}
    (h : cast.apply ctx c target p = .ok r q) :
    (∀ i, r = some i → q.reports = p.reports ∧
      (∃ d, (q.scope ctx.scope)[i]? = some d ∧ cast.Admits d.type target) ∧
        cast.apply ctx r target q = .ok r q) ∧
    (c.isSome → r = none →
      ∃ d : Diagnostic, d.kind = .type ∧ q.reports = (p.raised d).reports) := by
  cases c with
  | none =>
    obtain ⟨rfl, rfl⟩ : none = r ∧ p = q := by
      cases cast <;> exact EStateM.Result.ok.inj h
    exact ⟨nofun, nofun⟩
  | some i =>
    have hstable : Stable ctx cast target p r q := by
      obtain ⟨d, hd⟩ : ∃ d, (p.scope ctx.scope)[i]? = some d := by
        obtain ⟨d, q, hd, -⟩ : ∃ d q, ctx.chunk i p = .ok d q ∧ True := by
          cases cast <;> exact (exists_of_bind (m := ctx.chunk i) h).imp fun d ⟨q, hd, _⟩ =>
            ⟨q, hd, trivial⟩
        exact ⟨d, (chunk_gives i d q hd).2⟩
      cases hdeferred : d.deferred? with
      | none => exact apply_stable_of_plain ⟨i, rfl, hd⟩ hdeferred htarget h
      | some u =>
        rcases apply_deferred hd (by rw [hdeferred]; rfl) htarget h with
          ⟨rfl, rfl, hadmits⟩ | ⟨c, p', hread, hcast⟩
        · exact .inl ⟨i, d, rfl, hd, hadmits, rfl, h⟩
        · obtain ⟨hreports, d', hd', hplain, -⟩ := Context.readSlot_sees hd c p' hread
          exact (apply_stable_of_plain hd' hplain htarget hcast).since hreports
    rcases hstable with ⟨j, d, rfl, hd, hadmits, hreports, hagain⟩ | ⟨d, rfl, hkind, hraised⟩
    · refine ⟨fun i hi => ?_, nofun⟩
      obtain rfl := Option.some.inj hi
      exact ⟨hreports, ⟨d, hd, hadmits⟩, hagain⟩
    · exact ⟨nofun, fun _ _ => ⟨d, hkind, hraised⟩⟩

/-- A stage in whose scope there is a vector. -/
def holdingVector : Pass := opened.append 3 ⟨0, "Parameters.Normal", .float3, .inline⟩

/-- The context of that stage. -/
def vectorContext : Context where
  env := ⟨{}, {}⟩
  stage := .pixel
  scope := 3

/-- A vector is cut to two components once, and cannot be brought to four by a function input. -/
theorem apply_stable_vector :
    (∃ q, convert.apply vectorContext (some 0) .float2 holdingVector = .ok (some 1) q ∧
      convert.apply vectorContext (some 1) .float2 q = .ok (some 1) q) ∧
    ∃ q, convert.apply vectorContext (some 0) .float4 holdingVector = .ok none q ∧
      ∃ d : Diagnostic, d.kind = .type ∧ q.reports = (holdingVector.raised d).reports := by
  obtain ⟨q, hq⟩ : ∃ q, convert.apply vectorContext (some 0) .float2 holdingVector =
      .ok (some 1) q := ⟨_, rfl⟩
  obtain ⟨q', hq'⟩ : ∃ q, convert.apply vectorContext (some 0) .float4 holdingVector =
      .ok none q := ⟨_, rfl⟩
  exact ⟨⟨q, hq, ((convert.apply_stable vectorContext (by decide) hq).1 1 rfl).2.2⟩,
    q', hq', (convert.apply_stable vectorContext (by decide) hq').2 rfl rfl⟩

end Cast

end ShaderGraph
