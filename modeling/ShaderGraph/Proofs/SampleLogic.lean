import ShaderGraph.Proofs.OperationLogic

/-!
# Logics of textures and samples

What is proved of all operations (`Context.Logic`) holds of texture references, page table lookups
and samples too. Only the sample of a virtual texture is left to each logic
(`Context.Logic.sample`): it changes the stacks, which operations know nothing of.
-/

namespace ShaderGraph

open Pass

namespace Context.Logic

open Concerns

variable {ctx : Context} (L : ctx.Logic) {p : Pass} {cs : List Code} {type : ValueType}
variable {ts : List String} {s : Sample} {m : MipChoice} {l : Lookup}

/-! ### Texture references -/

/-- Where a feature level is missing, that is reported. -/
theorem requireLevel (need : FeatureLevel) :
    L.Ends p (ctx.requireLevel need) fun found q => found = false → L.Failed q := by
  unfold Context.requireLevel
  split
  · exact L.report_bind rfl fun _ _ hq => L.pure fun _ => hq
  · exact L.pure nofun

theorem canReadTextures :
    L.Ends p ctx.canReadTextures fun found q => found = false → L.Failed q := by
  unfold Context.canReadTextures
  split
  · exact L.pure nofun
  · exact L.requireLevel _

/-- A texture that is found has the type of a texture. -/
theorem textureType? (index : Int) :
    L.Ends p (ctx.textureType? index) fun found q =>
      (found = none → L.Failed q) ∧ ∀ x, found = some x →
        x.2.isTexture ∧ (ctx.material.TexturesTyped → x.2.isTextureKind) ∧
          ∀ ref : TextureRef, ref.index = index → ctx.env.Names ref x.2 := by
  unfold Context.textureType?
  split
  · exact L.report_bind rfl fun _ _ hq => L.pure ⟨fun _ => hq, nofun⟩
  case h_2 asset hasset =>
    obtain ⟨hindex, hasset⟩ : 0 ≤ index ∧ ctx.material.textures[index.toNat]? = some asset := by
      split at hasset
      · cases hasset
      · exact ⟨by omega, hasset⟩
    have hnamed : ∀ type, ctx.env.kindOf asset = type →
        ∀ ref : TextureRef, ref.index = index → ctx.env.Names ref type := by
      rintro type htype ref rfl
      exact ⟨hindex, asset, hasset, htype⟩
    split
    · exact L.report_bind rfl fun _ _ hq => L.pure ⟨fun _ => hq, nofun⟩
    case isFalse htype =>
      have htexture : asset.type.isTexture := by
        rw [Bool.not_eq_true, Bool.or_eq_false_iff] at htype
        simpa [ValueType.isTexture] using htype.1
      split
      case isTrue hvirtual =>
        refine L.pure ⟨nofun, fun x h => ?_⟩
        cases h
        exact ⟨(by decide : ValueType.texture2D.isTexture),
          fun _ => (by decide : ValueType.texture2D.isTextureKind), hnamed _ (if_pos hvirtual)⟩
      case isFalse hvirtual =>
        refine L.pure ⟨nofun, fun x h => ?_⟩
        cases h
        exact ⟨htexture, fun htyped => htyped asset (List.mem_of_getElem? hasset) htexture,
          hnamed _ (if_neg hvirtual)⟩

/-- A texture whose sampler is not one of virtual textures is reported if it is virtual. -/
theorem texture (index : Int) {sampler : SamplerType} (h : L.virtual ∨ sampler.isVirtual = false)
    (mode : MipMode) : L.Ends p (ctx.texture index sampler mode) L.Good := by
  unfold Context.texture
  split
  · exact L.reported rfl
  refine L.bind L.canReadTextures fun readable q _ hreadable => ?_
  split
  case isFalse hnot => exact L.missing (hreadable (Bool.eq_false_iff.2 hnot))
  refine L.bind (L.textureType? index) fun found q' _ ⟨hmissing, hfound⟩ => ?_
  split
  · exact L.missing (hmissing rfl)
  obtain ⟨hknown, hkind, hnamed⟩ := hfound _ rfl
  dsimp only
  split
  · exact L.reported rfl
  case isFalse hsampler =>
    refine L.emitTexture hknown hkind (.inl (hnamed _ rfl)) (h.imp_right fun h hvirtual => ?_)
    exact hsampler (by simp [hvirtual, h])

/-- The texture of a parameter is what the asset is, whatever the sampler. -/
theorem textureParameter (name : String) {index : Int} (sampler : SamplerType)
    (h : L.virtual ∨ ∀ ref : TextureRef, ref.index = index → ¬ctx.env.Names ref .textureVirtual) :
    L.Ends p (ctx.textureParameter name index sampler) L.Good := by
  refine L.bind L.canReadTextures fun readable q _ hreadable => ?_
  split
  case isFalse hnot => exact L.missing (hreadable (Bool.eq_false_iff.2 hnot))
  refine L.bind (L.textureType? index) fun found q' _ ⟨hmissing, hfound⟩ => ?_
  split
  · exact L.missing (hmissing rfl)
  obtain ⟨hknown, hkind, hnamed⟩ := hfound _ rfl
  refine L.emitTexture hknown hkind (.inl (hnamed _ rfl)) (h.imp_right fun h hvirtual => ?_)
  exact h ⟨.asset, name, index, sampler, -1, -1⟩ rfl (hvirtual ▸ hnamed _ rfl)

theorem virtualTexture (hvirtual : L.virtual) (h : L.loud → ctx.options.virtualTexturing)
    {index layer pageTableLayer : Int} {sampler : SamplerType}
    (hlaid : L.laid ⟨.asset, "", index, sampler, layer, pageTableLayer⟩) :
    L.Ends p (ctx.virtualTexture index layer pageTableLayer sampler) L.Good := by
  unfold Context.virtualTexture
  split
  case isFalse hoff => exact L.missing fun hloud => absurd (h hloud) hoff
  case isTrue hon =>
  refine L.bind L.canReadTextures fun readable q _ hreadable => ?_
  split
  · exact L.emitTexture (by decide) (fun _ => by decide) (.inr ⟨rfl, hon, hlaid⟩) (.inl hvirtual)
  case isFalse hnot => exact L.missing (hreadable (Bool.eq_false_iff.2 hnot))

/-! ### Page tables -/

theorem stackKey (h : L.Reading false [l.coordinate, l.mip, l.mipY] type [] p) :
    L.Ends p (ctx.stackKey l) fun key _ =>
      key.scope = ctx.scope ∧ key.preallocated = l.preallocated := by
  refine L.bind (L.digestOf (h.codes _ (by simp))) fun _ _ h₁ _ => ?_
  refine L.bind (L.digestOf ((h.mono h₁).codes _ (by simp))) fun _ _ h₂ _ => ?_
  refine L.bind (L.digestOf ((h.mono (L.trans h₁ h₂)).codes _ (by simp))) fun _ _ _ _ => ?_
  exact L.pure ⟨rfl, rfl⟩

theorem emitLookup (i : Nat)
    (h : L.Reading false [l.coordinate, l.mip, l.mipY] .pageTableResult [] p) :
    L.Ends p (ctx.emitLookup i l) fun c q => L.Good c q ∧ (L.strict → c.isSome) := by
  -- The text of a lookup with the given texts, of which the first is that of the coordinate.
  have hemit : ∀ {front function uv : String} {rest : List String} {q : Pass},
      Text.isFixed front = true → Text.isFront function = true →
      L.Reading false [l.coordinate, l.mip, l.mipY] .pageTableResult (uv :: rest) q →
      L.Ends q (ctx.emitTemporary .pageTableResult (function ++ lookupArguments i front uv
        ([l.addressU.pageTableName, l.addressV.pageTableName] ++ rest)))
        fun c q => L.Good c q ∧ (L.strict → c.isSome) := by
    intro front function uv rest q hfront hfunction h
    refine L.mono (L.emitWith h.typed (fun hreads => Text.Reads.after ?_ hfunction) ?_)
      fun _ _ _ hc => ⟨hc.1, fun hstrict => hc.2 hstrict (by decide)⟩
    · refine reads_lookupArguments i hfront (h.texts uv (by simp) hreads) fun t ht => ?_
      simp only [List.cons_append, List.nil_append, List.mem_cons] at ht
      rcases ht with rfl | rfl | ht
      · exact .fixed (isFixed_pageTableName _)
      · exact .fixed (isFixed_pageTableName _)
      · exact h.texts t (by simp [ht]) hreads
    · unfold lookupArguments
      simp
  have hfeedback : Text.isFixed (if ctx.givesFeedback then "Parameters.VirtualTextureFeedback,"
      else "") = true := by split <;> decide
  refine L.widened_bind h (by simp) _ fun uv q _ h => ?_
  split
  · exact hemit (by decide) (by decide) h
  · exact L.widened_bind h (by simp) _ fun _ _ _ h => hemit (by decide) (by decide) h
  · exact L.widened_bind h (by simp) _ fun _ _ _ h => hemit hfeedback (by decide) h
  · exact L.widened_bind h (by simp) _ fun _ _ _ h => L.widened_bind h (by simp) _ fun _ _ _ h =>
      hemit (by decide) (by decide) h
  · exact L.throw rfl fun _ => rfl

/-! ### The mip level -/

/-- What was checked is the case, or an ordinary problem was found. -/
def Checked (problem? : Option Problem) (P : Prop) : Prop :=
  (∀ problem, problem? = some problem → problem.isOrdinary) ∧ (problem? = none → P)

theorem problem {problem : Problem} {P : Prop} (h : problem.isOrdinary) :
    L.Ends p (Pure.pure (some problem)) fun problem? q => q = p ∧ Checked problem? P :=
  L.pure ⟨rfl, fun _ heq => Option.some.inj heq ▸ h, nofun⟩

theorem derivativeProblem? (hmip : L.Points false s.mip p) (hmipY : L.Points false s.mipY p) :
    L.Ends p (ctx.derivativeProblem? s) fun problem? q =>
      q = p ∧ Checked problem? (s.mip.isSome ∧ s.mipY.isSome) := by
  unfold Context.derivativeProblem?
  split
  · exact L.problem rfl
  case isFalse hx =>
  split
  · exact L.problem rfl
  case isFalse hy =>
  refine L.read (L.typeOf hmip) fun _ _ => ?_
  split
  · exact L.problem rfl
  refine L.read (L.typeOf hmipY) fun _ _ => ?_
  split
  · exact L.problem rfl
  · exact L.pure ⟨rfl, nofun, fun _ => ⟨Option.isSome_iff_ne_none.2 fun h => hx (h ▸ rfl),
      Option.isSome_iff_ne_none.2 fun h => hy (h ▸ rfl)⟩⟩

/-- What is wrong with a sample is neither a cycle nor stated. If nothing is, derivatives are given,
and only surfaces and decals sample virtual textures. -/
theorem sampleProblem? (hmip : L.Points false s.mip p) (hmipY : L.Points false s.mipY p)
    (type : ValueType) :
    L.Ends p (ctx.sampleProblem? s type) fun problem? q => q = p ∧ Checked problem?
      ((type = .textureVirtual → ctx.material.domain.isSurfaceOrDecal) ∧
        (s.mode = .derivative → s.mip.isSome ∧ s.mipY.isSome)) := by
  unfold Context.sampleProblem? mipProblem?
  split
  · exact L.problem rfl
  split
  · exact L.problem rfl
  split
  · exact L.problem rfl
  case isFalse hdomain =>
  have hdomain : type = .textureVirtual → ctx.material.domain.isSurfaceOrDecal := by
    rintro rfl
    simpa using hdomain
  split
  · exact L.mono (L.derivativeProblem? hmip hmipY) fun _ _ _ ⟨hq, hproblem, hnone⟩ =>
      ⟨hq, hproblem, fun h => ⟨hdomain, fun _ => hnone h⟩⟩
  case isFalse hmode =>
  split
  · refine L.read (L.typeOf hmip) fun _ _ => ?_
    split
    · exact L.pure ⟨rfl, nofun, fun _ => ⟨hdomain, fun h => absurd h hmode⟩⟩
    · exact L.problem rfl
  · exact L.pure ⟨rfl, nofun, fun _ => ⟨hdomain, fun h => absurd h hmode⟩⟩

theorem biased (hmip : L.Points false m.mip p) (hmipY : L.Points false m.mipY p)
    (hboth : m.mode = .derivative → m.mip.isSome ∧ m.mipY.isSome) :
    L.Ends p (ctx.biased m) fun m' q => L.Points false m'.mip q ∧ L.Points false m'.mipY q := by
  unfold Context.biased
  dsimp only
  split
  case isTrue hmode =>
    obtain ⟨hx, hy⟩ := hboth hmode
    refine L.bind (L.emitFixed (by decide) (by decide)) fun factor q₁ h₁ hfactor => ?_
    refine L.bind (L.arithmetic (by decide) (by decide) (.of_isSome (hmip.mono h₁) hx) hfactor)
      fun mip q₂ h₂ hmip => ?_
    refine L.bind (L.arithmetic (by decide) (by decide)
      (.of_isSome (hmipY.mono (L.trans h₁ h₂)) hy) (hfactor.mono h₂)) fun mipY q₃ h₃ hmipY => ?_
    exact L.pure ⟨(hmip.mono h₃).toPoints, hmipY.toPoints⟩
  split
  case isTrue hgiven =>
    have hx : m.mip.isSome := (Bool.and_eq_true_iff.1 hgiven).1
    refine L.bind (L.emitFixed (by decide) (by decide)) fun bias q₁ h₁ hbias => ?_
    refine L.bind (L.arithmetic (by decide) (by decide) (.of_isSome (hmip.mono h₁) hx) hbias)
      fun mip q₂ h₂ hmip => ?_
    exact L.pure ⟨hmip.toPoints, hmipY.mono (L.trans h₁ h₂)⟩
  case isFalse =>
    exact L.bind (L.emitFixed (by decide) (by decide)) fun bias q₁ h₁ hbias =>
      L.pure ⟨hbias.toPoints, hmipY.mono h₁⟩

theorem mipChoice (hmip : L.Points false s.mip p) (hmipY : L.Points false s.mipY p)
    (hboth : s.mode = .derivative → s.mip.isSome ∧ s.mipY.isSome) :
    L.Ends p (ctx.mipChoice s) fun m q => L.Points false m.mip q ∧ L.Points false m.mipY q ∧
      (m.mode = .derivative → m.mip.isSome ∧ m.mipY.isSome) := by
  unfold Context.mipChoice
  split
  · exact L.pure ⟨hmip, hmipY, hboth⟩
  split
  · exact L.pure ⟨hmip, hmipY, nofun⟩
  · exact L.bind (L.constant1 _) fun _ _ hq hc => L.pure ⟨hc.toPoints, hmipY.mono hq, nofun⟩

theorem mipTexts (h : L.Reading false cs type ts p) (hmip : m.mip ∈ cs) (hmipY : m.mipY ∈ cs)
    (uvType : ValueType) :
    L.Ends p (ctx.mipTexts m uvType) fun mips q =>
      L.Reading false cs type (ts ++ [mips.1] ++ [mips.2]) q := by
  have hzero : ∀ {q : Pass}, L.Reads false "0.0f" q := fun _ => .fixed (by decide)
  unfold Context.mipTexts
  split
  · exact L.widened_bind h hmip _ fun _ _ _ h => L.pure (h.concat hzero)
  split
  · exact L.widened_bind h hmip _ fun _ _ _ h => L.widened_bind h hmipY _ fun _ _ _ h => L.pure h
  · exact L.pure ((h.concat hzero).concat hzero)

/-! ### Samples -/

/-- The code of a sample, which is counted. -/
theorem emitSample {text : String} (h : L.Reads false text p) (htext : text ≠ "") :
    L.Ends p (do
      let code ← ctx.emitTemporary .float4 text
      ctx.countSample
      return code) L.Good := by
  refine L.bind (L.emitTemporary nofun h htext) fun code q _ hcode => ?_
  unfold Context.countSample
  split
  · exact L.pure hcode
  · exact L.register .sample fun _ hr => L.pure (hcode.mono hr)

theorem sampleOrdinary
    (h : L.Reading false [m.mip, m.mipY, s.texture, s.coordinate] .float4 [] p)
    (type : ValueType) (biased : Bool) :
    L.Ends p (ctx.sampleOrdinary s type m biased) L.Good := by
  have hfunction := isFixed_sampleFunction type
  unfold Context.sampleOrdinary
  generalize sampleFunction type = found at hfunction
  obtain ⟨function, uvType⟩ := found
  dsimp only at hfunction ⊢
  refine L.bind (L.mipTexts h (by simp) (by simp) uvType) fun ⟨mip, mipY⟩ _ _ h => ?_
  refine L.widened_bind h (by simp) _ fun texture _ _ h =>
    L.widened_bind h (by simp) _ fun uv _ _ h => ?_
  have hemit : ∀ (decal : Bool) {q : Pass},
      L.Reading false [m.mip, m.mipY, s.texture, s.coordinate] .float4 [mip, mipY, texture, uv] q →
      L.Ends q (do
        let code ← ctx.emitTemporary .float4 <| sampleText s.sampler
          (if decal then function ++ "_Decal" else function) texture
          (samplerText s.source biased texture) uv m.mode mip mipY
        ctx.countSample
        return code) L.Good := by
    intro decal q h
    refine L.emitSample (fun hreads => ?_) (sampleText_ne_empty _ _ _ _ _ _ _ _)
    have htexts := fun t ht => h.texts t ht hreads
    refine reads_sampleText _ _ ?_ (htexts _ (by simp)) (reads_samplerText _ _ (htexts _ (by simp)))
      (htexts _ (by simp)) (htexts _ (by simp)) (htexts _ (by simp))
    split
    · exact Text.Reads.before (.fixed hfunction) (by decide)
    · exact .fixed hfunction
  split
  · refine L.bind (L.requireLevel _) fun supported _ hq hsupported => ?_
    split
    · exact hemit _ (h.mono hq)
    case isFalse hnot => exact L.missing (hsupported (Bool.eq_false_iff.2 hnot))
  · exact hemit _ h

theorem canSample (s : Sample) :
    L.Ends p (ctx.canSample s) fun possible q => possible = false → L.Failed q := by
  unfold Context.canSample
  split
  · exact L.report_bind rfl fun _ _ hq => L.pure fun _ => hq
  split
  · exact L.pure nofun
  · exact L.requireLevel _

/-- A sample, given what is known of one of a virtual texture. -/
theorem sample (htexture : L.Good s.texture p) (hcoordinate : L.Good s.coordinate p)
    (hmip : L.Points false s.mip p) (hmipY : L.Points false s.mipY p)
    (hvirtual : ∀ q m, L.Later p q → L.Typed s.texture .textureVirtual q → s.texture.isSome →
      ctx.material.domain.isSurfaceOrDecal → L.Points false m.mip q → L.Points false m.mipY q →
      L.Ends q (ctx.sampleVirtual s m) L.Good) : L.Ends p (ctx.sample s) L.Good := by
  unfold Context.sample
  split
  case isTrue h => exact L.missing (failed_or htexture.absent hcoordinate.absent h)
  case isFalse h =>
  have hsome : s.texture.isSome := by
    simp only [Bool.or_eq_true, not_or, Option.isNone_iff_eq_none] at h
    exact Option.isSome_iff_ne_none.2 h.1
  refine L.bind (L.canSample s) fun possible q₁ h₁ hpossible => ?_
  split
  case isFalse hnot => exact L.missing (hpossible (Bool.eq_false_iff.2 hnot))
  refine L.read (L.typeOf (htexture.mono h₁).toPoints) fun type htype => ?_
  refine L.read (L.sampleProblem? (hmip.mono h₁) (hmipY.mono h₁) type) fun problem? hproblem => ?_
  split
  · exact L.reported (hproblem.1 _ rfl)
  obtain ⟨hdomain, hboth⟩ := hproblem.2 rfl
  have htake : ∀ (biased : Bool) m q, L.Later q₁ q → L.Points false m.mip q →
      L.Points false m.mipY q → L.Ends q (if decide (type = .textureVirtual) then
        ctx.sampleVirtual s m else ctx.sampleOrdinary s type m biased) L.Good := by
    intro biased m q hq hmip hmipY
    have hpq := L.trans h₁ hq
    split
    case isTrue hdec =>
      obtain rfl := of_decide_eq_true hdec
      exact hvirtual q m hpq (htype.mono hq) hsome (hdomain rfl) hmip hmipY
    case isFalse =>
      exact L.sampleOrdinary (.cons hmip (.cons hmipY (.cons (htexture.mono hpq).toPoints
        (.cons (hcoordinate.mono hpq).toPoints (.nil nofun))))) type biased
  refine L.bind (L.mipChoice (hmip.mono h₁) (hmipY.mono h₁) hboth)
    fun m q₂ h₂ ⟨hm, hmY, hboth⟩ => ?_
  dsimp only
  split
  · exact L.bind (L.biased hm hmY hboth) fun m' q₃ h₃ ⟨hm', hmY'⟩ =>
      htake _ m' q₃ (L.trans h₂ h₃) hm' hmY'
  · exact htake _ m q₂ h₂ hm hmY

end Context.Logic

end ShaderGraph
