import ShaderGraph.Proofs.Emission
import ShaderGraph.Proofs.PhaseLogic

/-!
# Types of casts

What is emitted has the type it was asked for, and an expression over literals stays a literal
(`Context.emitMath_refers`). So a cast gives code that goes with its target
(`Context.resize_refers`), and what is recorded for a property goes with its type, but for one case:
the components of a literal are counted by comparing the bits of types, and those of a shading model
are above all of a float, so that a scalar literal is widened to four components
(`Context.castProperty_admits`).
-/

namespace ShaderGraph

open Pass

/-! ### Widths -/

namespace ValueType

/-- The types with components. -/
theorem components_cases (t : ValueType) :
    t.components = 0 ∨ t = .float1 ∨ t = .float ∨ t = .float2 ∨ t = .float3 ∨ t = .float4 := by
  obtain ⟨bits⟩ := t
  unfold components
  split <;> simp_all [float1, float, float2, float3, float4]

/-- Types of as many components go together. -/
theorem shares_of_components_eq {s t : ValueType} (h : s.components = t.components)
    (ht : t.components ≠ 0) : s.shares t := by
  rcases components_cases t with hnone | rfl | rfl | rfl | rfl | rfl
  · exact absurd hnone ht
  all_goals
    rcases components_cases s with hnone | rfl | rfl | rfl | rfl | rfl
    · exact absurd (hnone.symm.trans h) (by decide)
    all_goals
      revert h
      decide

/-- What goes with a single component has no more. -/
theorem components_of_shares_float1 {t : ValueType} (h : t.shares .float1) :
    t.components ≠ 0 → t.components = 1 := by
  rcases components_cases t with hnone | rfl | rfl | rfl | rfl | rfl
  · exact fun hne => absurd hnone hne
  all_goals
    revert h
    decide

end ValueType

namespace Pass

variable {p : Pass} {k : Nat} {T : Chunk → Prop} {c : Code}

theorem Refers.none : p.Refers k T none := by
  intro i hi
  cases hi

theorem Refers.of_getElem? {i : Nat} {d : Chunk} (hd : (p.scope k)[i]? = some d) (hT : T d) :
    p.Refers k T (some i) := by
  intro j hj
  cases hj
  exact ⟨d, hd, hT⟩

theorem Refers.mono {T' : Chunk → Prop} (h : p.Refers k T c) (hT : ∀ d, T d → T' d) :
    p.Refers k T' c := by
  intro i hi
  obtain ⟨d, hd, hd'⟩ := h i hi
  exact ⟨d, hd, hT d hd'⟩

end Pass

namespace Context

variable {p : Pass} {ctx : Context} {T : Chunk → Prop}
variable {d : Chunk} {u : Uniform} {arguments : List SharedUniform} {i : Nat}

/-! ### Emission -/

/-- The chunk that was added last. -/
theorem refers_append (hscope : ctx.scope < p.scopes.length) (hT : T d) :
    (p.append ctx.scope d).Refers ctx.scope T (some (p.scope ctx.scope).length) :=
  .of_getElem? (getElem?_append hscope d) hT

/-- There is no code for what is reported. -/
theorem report_refers (problem : Problem) :
    p.Gives (ctx.report problem) fun c q => q.Refers ctx.scope T c :=
  (report_gives problem).mono fun _ _ h => h.1 ▸ .none

theorem emitInline_refers (hscope : ctx.scope < p.scopes.length) (type : ValueType)
    (text : String) :
    p.Gives (ctx.emitInline type text) fun c q => q.Refers ctx.scope (·.type = type) c := by
  refine (emitInline_gives type text).mono fun c q hc => ?_
  obtain ⟨-, rfl, -⟩ | ⟨-, rfl, rfl⟩ := hc
  · exact .none
  · exact refers_append hscope rfl

section

variable (hp : p.Sound) (hscope : ctx.scope < p.scopes.length)
  (hover : u.IsOver arguments p.uniforms) (type : ValueType)

include hp hscope hover type

/-- The code for a uniform expression has the type it was asked for, and an entry that stands for
the expression. -/
theorem emitUniform_refers (digest : Digest) (text : String) :
    p.Gives (ctx.emitUniform u (arguments.map (·.id)) type digest text) fun c q =>
      q.Refers ctx.scope
        (fun d => d.type = type ∧ ∃ v, d.uniform? = some v ∧ v.expr.StandsFor u) c := by
  refine (emitUniform_gives u _ type digest text).mono fun c q hc => ?_
  obtain ⟨rfl, -⟩ | ⟨-, ⟨known, hknown, hc⟩ | ⟨-, rfl, rfl⟩⟩ := hc
  · exact .none
  · have hstandsFor := hp.interned.standsFor_of_find? hover hknown
    obtain ⟨i, d, rfl, rfl, hd, htype, hstands⟩ | ⟨rfl, rfl⟩ := hc
    · refine .of_getElem? hd ⟨htype, known, ?_, hstandsFor⟩
      -- The chunk stands for an entry with the number of the one that was found.
      unfold emitUniform.standsFor at hstands
      split at hstands
      case h_1 v hv =>
        have hlisted := hp.listed _ _ (List.mem_of_getElem? hd) v hv
        have hmem : known ∈ _ := List.mem_of_find?_eq_some hknown
        obtain rfl := hp.interned.eq_of_id_eq hlisted hmem (beq_iff_eq.mp hstands)
        exact hv
      case h_2 => cases hstands
    · exact refers_append hscope ⟨rfl, known, rfl, hstandsFor⟩
  · exact refers_append (p := { p with uniforms := _ }) hscope ⟨rfl, _, rfl, .inl rfl⟩

/-- A folded expression has the type it was asked for, and is a literal if it is constant. -/
theorem emitMath_refers (pattern : String)
    {operands : PassM (List String)} (hoperands : p.Gives operands fun _ q => p.Evolves q) :
    p.Gives (ctx.emitMath u arguments type pattern operands) fun c q =>
      q.Refers ctx.scope (fun d => d.type = type ∧ (u.isConstant → d.folded?.isSome)) c := by
  have hfolded : ∀ d : Chunk, (d.type = type ∧ ∃ v, d.uniform? = some v ∧ v.expr.StandsFor u) →
      d.type = type ∧ (u.isConstant → d.folded?.isSome) := by
    rintro d ⟨htype, v, hv, hstandsFor⟩
    exact ⟨htype, fun hu => by simp [Chunk.folded?, hv, hstandsFor.isConstant_eq, hu]⟩
  unfold emitMath
  split
  · exact hoperands.bind fun ts q hq => (emitUniform_refers (hq.sound hp)
      (Nat.lt_of_lt_of_le hscope hq.retains.scopeCount) (hover.mono hq.retains.uniforms) _ _ _).mono
        fun _ _ h => h.mono hfolded
  · exact (emitUniform_refers hp hscope hover _ _ _).mono fun _ _ h => h.mono hfolded

end

/-! ### Reading -/

theorem typeOf_refers (hp : p.Sound) (c : Code) :
    p.Gives (ctx.typeOf c) fun type q => q = p ∧ p.Refers ctx.scope (·.type = type) c ∧
      (c = none → type = .unknown) := by
  cases c with
  | none => exact .pure ⟨rfl, .none, fun _ => rfl⟩
  | some i =>
    refine ((chunk_yields i).gives hp).bind fun d q hd => .pure ?_
    obtain ⟨-, rfl, hd⟩ := hd
    exact ⟨rfl, .of_getElem? hd rfl, fun h => by cases h⟩

theorem uniformOf_gives (hp : p.Sound) (hd : (p.scope ctx.scope)[i]? = some d) :
    p.Gives (ctx.uniformOf (some i)) fun u? q => q = p ∧ u? = d.uniform? := by
  refine ((chunk_yields i).gives hp).bind fun e q he => .pure ?_
  obtain ⟨-, rfl, he⟩ := he
  exact ⟨rfl, congrArg Chunk.uniform? (Option.some.inj (he.symm.trans hd))⟩

/-- The text that reads a slot has the type of what is read. -/
theorem readSlot_refers (hd : (p.scope ctx.scope)[i]? = some d) :
    p.Gives (ctx.readSlot i) fun c q => q.Refers ctx.scope (·.type = d.type) c := by
  refine (readSlot_gives i).mono fun c q hc => ?_
  obtain ⟨e, u, kind, he, -, -, rfl, rfl⟩ := hc
  cases he.symm.trans hd
  exact refers_append (p := { p with slots := _ }) (lt_of_getElem?_scope hd) rfl

/-! ### Components -/

/-- Selected components have the type of as many, and are a literal if they are those of one. -/
theorem componentMask_refers (hp : p.Sound) (hd : (p.scope ctx.scope)[i]? = some d) (mask : Mask) :
    p.Gives (ctx.componentMask (some i) mask) fun c q => q.Refers ctx.scope (fun e =>
      e.type = .ofComponents mask.selected.length ∧ (d.folded?.isSome → e.folded?.isSome)) c := by
  have hscope := lt_of_getElem?_scope hd
  refine (typeOf_refers hp (some i)).bind fun type q hq => ?_
  obtain ⟨rfl, -⟩ := hq
  split
  · exact ((textOf_yields_false _).gives hp).bind fun _ r hr => report_refers _
  dsimp only
  have hlength : (mask.selected.map fun i => if type = .float then 0 else i).length =
      mask.selected.length := List.length_map _
  generalize (mask.selected.map fun i => if type = .float then 0 else i) = sources at hlength ⊢
  split
  · exact report_refers _
  rw [hlength]
  have hoperands : ∀ letters : String, q.Gives (do return [← ctx.textOf (some i), letters])
      fun _ r => q.Evolves r := fun letters =>
    ((textOf_yields_false _).gives hp).bind fun _ r hr => .pure hr.1
  refine (uniformOf_gives hp hd).bind fun u? r hr => ?_
  obtain ⟨rfl, rfl⟩ := hr
  split
  case h_1 u hu =>
    have hlisted := hp.listed _ _ (List.mem_of_getElem? hd) u hu
    refine (emitMath_refers hp hscope (.one rfl hlisted) _ _ (hoperands _)).mono
      fun c r' hc => hc.mono fun e he => ⟨he.1, fun hfolded => he.2 ?_⟩
    simpa [Chunk.folded?, hu, Uniform.isConstant] using hfolded
  case h_2 hnone =>
    refine (hoperands _).bind fun ts r' hr' => ?_
    refine (emitInline_refers (Nat.lt_of_lt_of_le hscope hr'.retains.scopeCount) _ _).mono
      fun c r'' hc => hc.mono fun e he => ⟨he, fun hfolded => ?_⟩
    simp [Chunk.folded?, hnone] at hfolded

/-- The components of one value and those of another make a value of as many as both have. -/
theorem append_refers (hp : p.Sound) {a b : Code} {m n : Nat}
    (ha : p.Refers ctx.scope (fun d => d.type.components ≠ 0 → d.type.components = m) a)
    (hb : p.Refers ctx.scope (fun d => d.type.components ≠ 0 → d.type.components = n) b) :
    p.Gives (ctx.append a b) fun c q =>
      q.Refers ctx.scope (·.type = .ofComponents (m + n)) c := by
  have hwidth : ∀ {c : Code} {k : Nat} {type : ValueType},
      p.Refers ctx.scope (fun d => d.type.components ≠ 0 → d.type.components = k) c →
      p.Refers ctx.scope (·.type = type) c → c ≠ none → type.components ≠ 0 →
        type.components = k := by
    intro c k type hc htype hsome hne
    obtain ⟨i, rfl⟩ := Option.ne_none_iff_exists'.mp hsome
    obtain ⟨d, hd, hk⟩ := hc i rfl
    obtain ⟨e, he, rfl⟩ := htype i rfl
    cases he.symm.trans hd
    exact hk hne
  unfold append
  split
  · exact .pure .none
  case isFalse hsome =>
    simp only [Bool.or_eq_true, Option.isNone_iff_eq_none, not_or] at hsome
    obtain ⟨i, rfl⟩ := Option.ne_none_iff_exists'.mp hsome.1
    obtain ⟨j, rfl⟩ := Option.ne_none_iff_exists'.mp hsome.2
    refine (typeOf_refers hp _).bind fun ta q hq => ?_
    obtain ⟨rfl, hta, -⟩ := hq
    refine (typeOf_refers hp _).bind fun tb q' hq' => ?_
    obtain ⟨rfl, htb, -⟩ := hq'
    dsimp only
    split
    · exact report_refers _
    case isFalse hwide =>
      simp only [Bool.or_eq_true, decide_eq_true_eq, not_or] at hwide
      rw [hwidth ha hta hsome.1 hwide.1.1, hwidth hb htb hsome.2 hwide.1.2]
      obtain ⟨d, hd, -⟩ := hta i rfl
      obtain ⟨e, he, -⟩ := htb j rfl
      have hscope := lt_of_getElem?_scope hd
      have htexts : q'.Gives (ctx.textsOf (some i) (some j)) fun _ r => q'.Evolves r :=
        (textsOf_safe _ _).gives hp
      refine (uniformOf_gives hp hd).bind fun u? r hr => ?_
      obtain ⟨rfl, rfl⟩ := hr
      refine (uniformOf_gives hp he).bind fun v? r hr => ?_
      obtain ⟨rfl, rfl⟩ := hr
      split
      case h_1 u v hu hv =>
        have hlu := hp.listed _ _ (List.mem_of_getElem? hd) u hu
        have hlv := hp.listed _ _ (List.mem_of_getElem? he) v hv
        exact (emitMath_refers hp hscope (.two rfl hlu hlv) _ _ htexts).mono
          fun c r' hc => hc.mono fun e he => he.1
      case h_2 =>
        exact htexts.bind fun ts r' hr' => emitInline_refers
          (Nat.lt_of_lt_of_le hscope hr'.retains.scopeCount) _ _

/-! ### Casts -/

/-- The types that properties are brought to. -/
def propertyTypes : List ValueType := [.float1, .float2, .float3, .shadingModel]

theorem resizePlain_refers (hp : p.Sound) (c : Code) {target : ValueType}
    (htarget : target ∈ propertyTypes) (flags : ResizeFlags) :
    p.Gives (ctx.resizePlain c target flags) fun c q => q.Refers ctx.scope (fun e =>
      e.type.shares target ∧ (flags.exact → e.type.components = target.components)) c := by
  have hself : target.shares target ∧ target.shares .texture2D = false ∧
      (target.isFloat → target.components ≠ 0) := by
    revert target
    decide
  refine (typeOf_refers hp c).bind fun source q hq => ?_
  obtain ⟨rfl, hsource, hnone⟩ := hq
  split
  case isTrue hexact =>
    simp only [Bool.and_eq_true, decide_eq_true_eq] at hexact
    exact .pure (hsource.mono fun d hd => by rw [hd, hexact.2]; exact ⟨hself.1, fun _ => rfl⟩)
  split
  case isTrue hshares =>
    simp only [Bool.and_eq_true, Bool.not_eq_true'] at hshares
    exact .pure (hsource.mono fun d hd => ⟨hd ▸ hshares.2, by simp [hshares.1]⟩)
  split
  case isTrue hfloat =>
    simp only [Bool.and_eq_true] at hfloat
    obtain ⟨i, rfl⟩ : ∃ i, c = some i := by
      refine Option.ne_none_iff_exists'.mp fun hc => ?_
      rw [hnone hc] at hfloat
      exact absurd hfloat.1 (by decide)
    obtain ⟨d, hd, hd'⟩ := hsource i rfl
    refine ((textOf_yields_false _).gives hp).bind fun text r hr => ?_
    have hemit : ∀ text, r.Gives (ctx.emitInline target text) fun c q => q.Refers ctx.scope
        (fun e => e.type.shares target ∧ (flags.exact → e.type.components = target.components)) c :=
      fun text => (emitInline_refers
        (Nat.lt_of_lt_of_le (lt_of_getElem?_scope hd) hr.1.retains.scopeCount) _ _).mono
          fun _ _ hc => hc.mono fun e he => by rw [he]; exact ⟨hself.1, fun _ => rfl⟩
    split
    · exact hemit _
    split
    · exact hemit _
    case isFalse hless hmore =>
      have hsame : source.components = target.components := by omega
      refine .pure (hr.1.refers (hsource.mono fun e he => ?_))
      rw [he]
      exact ⟨ValueType.shares_of_components_eq hsame (hself.2.2 hfloat.2), fun _ => hsame⟩
  split
  case isTrue htexture => simp [hself.2.1] at htexture
  case isFalse => exact report_refers _

/-- A cast gives code that goes with its target. -/
theorem resize_refers (hp : p.Sound) (c : Code) {target : ValueType}
    (htarget : target ∈ propertyTypes) (flags : ResizeFlags) :
    p.Gives (ctx.resize c target flags) fun c q => q.Refers ctx.scope (fun e =>
      e.type.shares target ∧ (flags.exact → e.type.components = target.components)) c := by
  cases c with
  | none => exact .pure .none
  | some i =>
    refine ((chunk_yields i).gives hp).bind fun d q hd => ?_
    obtain ⟨-, rfl, hd⟩ := hd
    split
    · exact ((readSlot_yields i).gives hp).bind fun c r hr =>
        resizePlain_refers (hr.1.sound hp) c htarget flags
    · exact resizePlain_refers hp _ htarget flags

end Context

/-! ### Results -/

namespace Property

variable {property : Property}

/-- What is deferred is not admitted as a literal. -/
theorem Admits.of_deferred {type : ValueType} (d e : Chunk) (hdeferred : d.deferred?.isSome)
    (htype : e.type = d.type) (h : property.Admits type d) : property.Admits type e := by
  rcases h with hshares | ⟨-, -, hfolded⟩
  · exact .inl (htype ▸ hshares)
  · unfold Chunk.deferred? at hdeferred
    unfold Chunk.folded? at hfolded
    cases hu : d.uniform? with
    | none => simp [hu] at hfolded
    | some u => simp_all

theorem type_mem (property : Property) : property.type ∈ Context.propertyTypes := by
  cases property with
  | customizedUV index => exact (by decide : ValueType.float2 ∈ Context.propertyTypes)
  | _ => decide

theorem eq_shadingModel (h : property.type = .shadingModel) : property = .shadingModel := by
  cases property with
  | customizedUV index => exact absurd (show ValueType.float2 = .shadingModel from h) (by decide)
  | shadingModel => rfl
  | _ => exact absurd h (by decide)

end Property

namespace Context

variable {p : Pass} {ctx : Context} {property : Property}

/-- The components of a literal are counted by the bits of the type it is brought to. -/
theorem castLiteral_admits (hp : p.Sound) {i : Nat} {d : Chunk}
    (hd : (p.scope ctx.scope)[i]? = some d) (hfolded : d.folded?.isSome) :
    p.Gives (ctx.castLiteral (some i) d.type property.type) fun c q =>
      q.Refers ctx.scope (property.Admits property.type) c := by
  have hmem := property.type_mem
  generalize htype : property.type = target at hmem
  have hall : ∀ t ∈ propertyTypes, definite t = t ∧ t.shares t ∧
      (ValueType.float1 = t → ValueType.float.shares t) := by decide
  have htarget := hall target hmem
  unfold castLiteral
  simp only [htarget.1]
  split
  case isTrue hsame =>
    refine .pure (.of_getElem? hd (.inl ?_))
    unfold definite at hsame
    split at hsame
    case isTrue hscalar => exact hscalar ▸ htarget.2.2 hsame
    case isFalse => exact hsame ▸ htarget.2.1
  split
  case isTrue hmask =>
    refine (componentMask_refers hp hd _).mono fun c q hc => hc.mono fun e he => ?_
    simp only [propertyTypes, List.mem_cons, List.not_mem_nil, or_false] at hmem
    rcases hmem with rfl | rfl | rfl | rfl
    · exact .inl (he.1 ▸ by decide)
    · exact .inl (he.1 ▸ by decide)
    · exact .inl (he.1 ▸ by decide)
    · exact .inr ⟨Property.eq_shadingModel htype, he.1.trans (by decide), he.2 hfolded⟩
  case isFalse =>
    exact (resize_refers hp _ hmem {}).mono fun c q hc => hc.mono fun e he => .inl he.1

theorem castProperty_admits (hp : p.Sound) (c : Code) :
    p.Gives (ctx.castProperty c property.type) fun c q =>
      q.Refers ctx.scope (property.Admits property.type) c := by
  cases c with
  | none => exact .pure .none
  | some i =>
    have hread : p.Gives (ctx.constantOf (some i)) fun v? q => q = p ∧ ∃ d,
        (p.scope ctx.scope)[i]? = some d ∧ (v?.isSome → d.folded?.isSome) := by
      refine ((chunk_yields i).gives hp).bind fun d q hd => .pure ?_
      obtain ⟨-, rfl, hd⟩ := hd
      exact ⟨rfl, d, hd, fun h => by simpa using h⟩
    refine hread.bind fun v? q hq => ?_
    obtain ⟨rfl, d, hd, hfolded⟩ := hq
    split
    case isTrue hliteral =>
      refine (typeOf_refers hp (some i)).bind fun type r hr => ?_
      obtain ⟨rfl, htype, -⟩ := hr
      obtain ⟨e, he, rfl⟩ := htype i rfl
      cases he.symm.trans hd
      exact castLiteral_admits hp hd (hfolded hliteral)
    case isFalse =>
      exact (resize_refers hp _ property.type_mem {}).mono fun c r hc => hc.mono fun e he =>
        .inl he.1

/-- A slot is read as what it is a slot of, as far as types tell. -/
theorem readResult_refers (hp : p.Sound) {T : Chunk → Prop} {c : Code}
    (hT : ∀ d e : Chunk, d.deferred?.isSome → e.type = d.type → T d → T e)
    (hc : p.Refers ctx.scope T c) :
    p.Gives (ctx.readResult c) fun read q => p.Evolves q ∧ q.Refers ctx.scope T read := by
  cases c with
  | none => exact .pure ⟨.refl _, .none⟩
  | some i =>
    refine ((isDeferred_yields (some i)).gives hp).bind fun deferred q hq => ?_
    obtain ⟨-, rfl, hfound⟩ := hq
    split
    case isTrue hdeferred =>
      obtain ⟨d, hd, hTd⟩ := hc i rfl
      obtain ⟨e, he, heq⟩ := hfound i rfl
      obtain rfl := Option.some.inj (he.symm.trans hd)
      intro read r hr
      exact ⟨((readSlot_yields i).gives hp read r hr).1,
        (readSlot_refers hd read r hr).mono fun e' he' => hT e e' (heq ▸ hdeferred) he' hTd⟩
    case isFalse => exact .pure ⟨.refl _, hc⟩

end Context

/-! ### Appended parameters -/

namespace Pass

variable {p : Pass} {ctx : Context}

theorem appendParameter_safe (code : Code) (type : ValueType) (flags : Context.ResizeFlags)
    (name : String) (default : Single) :
    Safe (appendParameter ctx code type flags name default) :=
  (Context.resize_safe _ _ _).bind fun _ => (Context.scalarParameter_safe _ _).bind fun _ =>
    (Context.resize_safe _ _ _).bind fun _ => Context.append_safe _ _

/-- A parameter adds one component. -/
theorem appendParameter_refers (hp : p.Sound) (code : Code) {type : ValueType}
    (htype : type ∈ Context.propertyTypes) {flags : Context.ResizeFlags} {n : Nat}
    (hwidth : ∀ t : ValueType, t.shares type →
      (flags.exact → t.components = type.components) → t.components ≠ 0 → t.components = n)
    (name : String) (default : Single) :
    p.Gives (appendParameter ctx code type flags name default) fun c q =>
      q.Refers ctx.scope (·.type = .ofComponents (n + 1)) c := by
  intro c q h
  obtain ⟨first, p₁, hfirst, h⟩ := exists_of_bind h
  obtain ⟨parameter, p₂, hparameter, h⟩ := exists_of_bind h
  obtain ⟨second, p₃, hsecond, h⟩ := exists_of_bind h
  have hp₁ := (Context.resize_safe _ _ _).gives hp _ _ hfirst
  have hp₂ := (Context.scalarParameter_safe _ _).gives (hp₁.sound hp) _ _ hparameter
  have hsound₂ := hp₂.sound (hp₁.sound hp)
  have hp₃ := (Context.resize_safe _ _ _).gives hsound₂ _ _ hsecond
  have hone := Context.resize_refers hsound₂ parameter (by decide) {} _ _ hsecond
  refine Context.append_refers (hp₃.sound hsound₂) ((hp₂.trans hp₃).refers ?_)
    (hone.mono fun d hd => ValueType.components_of_shares_float1 hd.1) c q h
  exact (Context.resize_refers hp code htype flags _ _ hfirst).mono fun d hd =>
    hwidth d.type hd.1 hd.2

end Pass

end ShaderGraph
