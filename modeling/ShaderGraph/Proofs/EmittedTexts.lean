import ShaderGraph.Pass.Interpolation
import ShaderGraph.Pass.Sampling
import ShaderGraph.Proofs.Declarations

/-!
# The texts that operations emit

An operation puts its text together from the texts of its operands and from names and numbers. It
mentions no temporary that its operands do not mention, since names and numbers mention none. A text
that is emitted as a temporary is not empty.
-/

namespace ShaderGraph

/-! ### Texts that are not empty -/

namespace Text

/-- Whether a pattern has more than holes. -/
def isSolid : List Char → Bool
  | '%' :: 's' :: rest => isSolid rest
  | _ :: _ => true
  | [] => false

theorem fillChars_ne_nil {pattern : List Char} (h : isSolid pattern) (args : List String) :
    fillChars pattern args ≠ [] := by
  fun_induction isSolid pattern generalizing args with
  | case1 rest ih =>
    exact fun hnil => ih h args.tail (List.append_eq_nil_iff.1 hnil).2
  | case2 c rest hrest =>
    rw [fillChars]
    · exact List.cons_ne_nil _ _
    · exact hrest
  | case3 => cases h

theorem fill_ne_empty {pattern : String} (h : isSolid pattern.toList) (args : List String) :
    fill pattern args ≠ "" := by
  intro hempty
  have hchars := congrArg String.toList hempty
  rw [fill, String.toList_ofList] at hchars
  exact fillChars_ne_nil h args hchars

end Text

theorem SamplerType.decode_ne_empty (sampler : SamplerType) {text : String} (h : text ≠ "") :
    sampler.decode text ≠ "" := by
  unfold decode
  split <;> simp [h]

variable {T : Nat → Prop}

/-! ### Literals -/

/-- The digits of a number are digit characters. -/
theorem exists_digitChar_of_mem_toDigits {b n : Nat} (hb : 1 < b) {c : Char}
    (h : c ∈ Nat.toDigits b n) : ∃ m, c = Nat.digitChar m := by
  induction n using Nat.strongRecOn with
  | ind n ih =>
    rw [Nat.toDigits_eq_if hb] at h
    split at h
    · exact ⟨n, List.mem_singleton.mp h⟩
    · rcases List.mem_append.mp h with h | h
      · exact ih (n / b) (Nat.div_lt_self (by omega) hb) h
      · exact ⟨n % b, List.mem_singleton.mp h⟩

/-- A character of a number: neither the first letter of a name nor the end of a line. -/
abbrev IsNumberChar (c : Char) : Prop := c ≠ 'L' ∧ c ≠ '\n'

theorem isNumberChar_of_mem {l : List Char} {c : Char}
    (h : (l.all fun c => decide (IsNumberChar c)) = true) (hc : c ∈ l) : IsNumberChar c :=
  of_decide_eq_true (List.all_eq_true.mp h c hc)

theorem isNumberChar_of_mem_toDigits {b n : Nat} (hb : 1 < b) {c : Char}
    (h : c ∈ Nat.toDigits b n) : IsNumberChar c := by
  obtain ⟨m, rfl⟩ := exists_digitChar_of_mem_toDigits hb h
  exact ⟨Nat.digitChar_ne _ (by decide), Nat.digitChar_ne _ (by decide)⟩

theorem isNumberChar_of_mem_paddedDigits {width n : Nat} {c : Char}
    (h : c ∈ Single.paddedDigits width n) : IsNumberChar c := by
  rcases List.mem_append.mp h with h | h
  · rw [(List.mem_replicate.mp h).2]
    decide
  · exact isNumberChar_of_mem_toDigits (by decide) h

theorem isNumberChar_of_mem_fixed {places : Nat} {x : Single} {c : Char}
    (h : c ∈ (x.fixed places).toList) : IsNumberChar c := by
  unfold Single.fixed at h
  split at h
  · exact isNumberChar_of_mem (by decide) h
  split at h
  · split at h
    · exact isNumberChar_of_mem (by decide) h
    · exact isNumberChar_of_mem (by decide) h
  · simp only [Single.fixedDigits, String.toList_ofList, List.append_assoc, List.mem_append,
      List.mem_cons] at h
    rcases h with h | h | rfl | h
    · split at h
      · rw [List.mem_singleton.mp h]
        decide
      · simp at h
    · exact isNumberChar_of_mem_toDigits (by decide) h
    · decide
    · exact isNumberChar_of_mem_paddedDigits h

/-- A number is appended in characters of numbers: the sign and the point are written over such. -/
theorem isNumberChar_of_mem_appendLiteral {b : List Char} {x : Single} {c : Char}
    (hb : ∀ c ∈ b, IsNumberChar c) (h : c ∈ x.appendLiteral b '-' '.') : IsNumberChar c := by
  have hset {l : List Char} (i : Nat) {a : Char} (ha : IsNumberChar a)
      (hl : ∀ c ∈ l, IsNumberChar c) : ∀ c ∈ l.set i a, IsNumberChar c := by
    rintro c hc
    exact (List.mem_or_eq_of_mem_set hc).elim (hl c) (· ▸ ha)
  have hsign {l : List Char} (hl : ∀ c ∈ l, IsNumberChar c) :
      ∀ c ∈ if l[b.length]? = some '-' then l.set b.length '-' else l, IsNumberChar c := by
    split
    · exact hset _ (by decide) hl
    · exact hl
  have hall : ∀ c ∈ b ++ (x.fixed Single.literalPlaces).toList, IsNumberChar c := by
    rintro c hc
    exact (List.mem_append.mp hc).elim (hb c) isNumberChar_of_mem_fixed
  unfold Single.appendLiteral at h
  split at h
  · simp only at h
    split at h
    · exact hsign hall c h
    · exact hsign (hset _ (by decide) hall) c (List.mem_of_mem_take h)
  · simp only [List.mem_append, List.mem_singleton] at h
    rcases h with ((h | h) | h) | rfl
    · exact hb c h
    · exact isNumberChar_of_mem (by decide) h
    · exact isNumberChar_of_mem_toDigits (by decide) h
    · decide

theorem isNumberChar_of_mem_foldl (l : List (Single × Nat)) {b : List Char}
    (hb : ∀ c ∈ b, IsNumberChar c) :
    ∀ c ∈ l.foldl (fun b (x, i) =>
      x.appendLiteral (if 0 < i then b ++ [','] else b) '-' '.') b, IsNumberChar c := by
  induction l generalizing b with
  | nil => exact hb
  | cons p rest ih =>
    refine ih fun c hc => isNumberChar_of_mem_appendLiteral (fun c hc => ?_) hc
    split at hc
    · rcases List.mem_append.mp hc with hc | hc
      · exact hb c hc
      · rw [List.mem_singleton.mp hc]
        decide
    · exact hb c hc

/-- A literal mentions no temporary. -/
theorem reads_value_literal (v : Value) (n : Nat) : Text.Reads T (v.literal n) := by
  have hname : ∀ c ∈ s!"MaterialFloat{n}(".toList, IsNumberChar c := by
    simp only [String.toList_append, List.mem_append]
    rintro c ((hc | hc) | hc)
    · exact isNumberChar_of_mem (by decide) hc
    · rw [show toString n = n.repr from rfl, Nat.toList_repr] at hc
      exact isNumberChar_of_mem_toDigits (by decide) hc
    · exact isNumberChar_of_mem (by decide) hc
  refine .of_forall fun c hc => ?_
  rw [Value.literal, String.toList_ofList, Value.appendLiteral] at hc
  simp only [List.nil_append] at hc
  split at hc
  · rcases List.mem_append.mp hc with hc | hc
    · exact isNumberChar_of_mem_foldl _ hname c hc
    · rw [List.mem_singleton.mp hc]
      decide
  · exact isNumberChar_of_mem_foldl _ (by simp) c hc

namespace Context

/-! ### Operands -/

theorem isBack_componentSuffix (n : Nat) : Text.isBack (componentSuffix n) = true := by
  match n with
  | 0 | 1 | 2 | 3 | 4 => decide
  | n + 5 => exact (by decide : Text.isBack "" = true)

theorem isFront_sourceName (t : ValueType) : Text.isFront (t.sourceName ++ "(") = true := by
  unfold ValueType.sourceName ValueType.name
  split <;> try decide
  split <;> decide

theorem reads_repeated (n : Nat) {t : String} (h : Text.Reads T t) :
    Text.Reads T (Text.repeated n t) := by
  refine .intercalate (by decide) (by decide) fun u hu => ?_
  rwa [(List.mem_replicate.mp hu).2]

/-- The letters of selected components. -/
theorem reads_componentLetters (sources : List Nat) :
    Text.Reads T (String.ofList (sources.map fun i => ['r', 'g', 'b', 'a'].getD i 'r')) := by
  refine .of_forall fun c hc => ?_
  rw [String.toList_ofList] at hc
  obtain ⟨i, -, rfl⟩ := List.mem_map.mp hc
  match i with
  | 0 | 1 | 2 | 3 => decide
  | i + 4 => simp

/-! ### Slots and interpolators -/

/-- The text that reads a slot mentions no temporary. -/
theorem access_reads (kind : SlotKind) (type : ValueType) (i : Nat) :
    Text.Reads T (kind.access type i) := by
  have numbered : ∀ front, Text.isFront front = true → Text.Reads T (front ++ toString i) :=
    fun front h => (Text.Reads.natText i).after h
  cases kind with
  | scalar =>
    have hletter : Text.isBack ("]." ++ (["x", "y", "z", "w"] : List String).getD (i % 4) "") =
        true := by
      have : i % 4 < 4 := Nat.mod_lt _ (by decide)
      generalize i % 4 = j at this ⊢
      match j with
      | 0 | 1 | 2 | 3 => decide
    have h := (Text.Reads.natText (T := T) (i / 4)).between (a := "Material.ScalarExpressions[")
      (by decide) hletter
    rwa [← String.append_assoc] at h
  | vector =>
    have hmask : Text.isBack ("]" ++ (if type = .float2 then ".rg" else
        if type = .float3 then ".rgb" else "")) = true := by
      split
      · decide
      · split <;> decide
    have h := (Text.Reads.natText (T := T) i).between (a := "Material.VectorExpressions[")
      (by decide) hmask
    rwa [← String.append_assoc] at h
  | texture2D => exact numbered "Material.Texture2D_" (by decide)
  | textureCube => exact numbered "Material.TextureCube_" (by decide)
  | texture2DArray => exact numbered "Material.Texture2DArray_" (by decide)
  | volumeTexture => exact numbered "Material.VolumeTexture_" (by decide)
  | externalTexture => exact numbered "Material.ExternalTexture_" (by decide)
  | virtualTexture => exact .fixed (t := "") (by decide)

theorem isBack_componentLetter {letters : String}
    (h : letters.toList.all (fun c => Text.isBack (String.ofList [c])) = true) (i : Nat) :
    Text.isBack (componentLetter letters i) = true := by
  unfold componentLetter
  cases hdrop : letters.toList.drop i with
  | nil => exact (by decide : Text.isBack "" = true)
  | cons c rest =>
    have hc : c ∈ letters.toList := List.mem_of_mem_drop (hdrop ▸ List.mem_cons_self)
    exact List.all_eq_true.mp h c hc

theorem reads_place (i : Interpolator) (offset c : Nat) :
    Text.Reads T (i.place offset c) := by
  have hindex : Text.Reads T ("TexCoords[VERTEX_INTERPOLATOR_" ++ toString i.index ++
      "_TEXCOORDS_") := (Text.Reads.natText i.index).between (by decide) (by decide)
  exact ((hindex.before (isBack_componentLetter (by decide) _)).before (by decide)).before
    (isBack_componentLetter (by decide) _)

theorem reads_readText (i : Interpolator) (offset : Nat) :
    Text.Reads T (i.readText offset) := by
  refine .between (.intercalate (by decide) (by decide) fun t ht => ?_)
    (isFront_sourceName _) (by decide)
  obtain ⟨c, -, rfl⟩ := List.mem_map.mp ht
  exact (reads_place i offset c).after (by decide)

/-! ### Page tables -/

theorem reads_lookupArguments (i : Nat) {front uv : String} {rest : List String}
    (hfront : Text.isFixed front = true) (huv : Text.Reads T uv)
    (hrest : ∀ t ∈ rest, Text.Reads T t) : Text.Reads T (lookupArguments i front uv rest) := by
  have hi : Text.Reads T (toString i) := .natText i
  have htable : Text.Reads T ("(VIRTUALTEXTURE_PAGETABLE_" ++ toString i ++
      ", VTPageTableUniform_Unpack(") := hi.between (by decide) (by decide)
  have hpacked : Text.Reads T ("Material.VTPackedPageTableUniform[" ++ toString i ++
      "*2], Material.VTPackedPageTableUniform[" ++ toString i ++ "*2+1]), ") :=
    ((hi.between (by decide) (by decide)).append_apart (by decide) hi).before (by decide)
  have hstack : Text.Reads T (front ++ " " ++ toString i ++ " + LIGHTMAP_VT_ENABLED, ") :=
    (((Text.Reads.fixed hfront).before (by decide)).append_apart (by decide) hi).before (by decide)
  have harguments : Text.Reads T (", ".intercalate (uv :: rest)) := by
    refine .intercalate (by decide) (by decide) fun t ht => ?_
    rcases List.mem_cons.mp ht with rfl | ht
    · exact huv
    · exact hrest t ht
  have hhead := (htable.append_apart (by decide) hpacked).append_apart
    (Text.endsApart_append _ (by decide)) hstack
  exact (hhead.append_apart (Text.endsApart_append _ (by decide)) harguments).before (by decide)

theorem isFixed_pageTableName (a : TextureAddress) : Text.isFixed a.pageTableName = true := by
  cases a with
  | clamp | mirror | wrap => decide
  | other code => exact (by decide : Text.isFixed "VTADDRESSMODE_WRAP" = true)

/-! ### Samples -/

theorem reads_decode (sampler : SamplerType) {t : String} (h : Text.Reads T t) :
    Text.Reads T (sampler.decode t) := by
  unfold SamplerType.decode
  split <;> first | exact h.between (by decide) (by decide) | exact h

theorem isFixed_sampleFunction (type : ValueType) :
    Text.isFixed (sampleFunction type).1 = true := by
  unfold sampleFunction
  repeat' split
  all_goals decide

theorem reads_samplerText (source : SamplerSource) (biased : Bool) {texture : String}
    (h : Text.Reads T texture) : Text.Reads T (samplerText source biased texture) := by
  have hshared : ∀ name, Text.isFixed name = true →
      Text.Reads T ("GetMaterialSharedSampler(" ++ texture ++ "Sampler," ++ name ++ ")") :=
    fun name hname => ((h.between (by decide) (by decide)).append_apart (by decide)
      (.fixed hname)).before (by decide)
  unfold samplerText
  split
  · exact h.before (by decide)
  · exact hshared _ (by split <;> decide)
  · exact hshared _ (by split <;> decide)
  · exact .fixed (by decide)

/-- What a sample is put together from. -/
theorem reads_sampleText (sampler : SamplerType) (mode : MipMode)
    {function texture samplerState uv mip mipY : String} (hfunction : Text.Reads T function)
    (htexture : Text.Reads T texture) (hstate : Text.Reads T samplerState)
    (huv : Text.Reads T uv) (hmip : Text.Reads T mip) (hmipY : Text.Reads T mipY) :
    Text.Reads T (sampleText sampler function texture samplerState uv mode mip mipY) := by
  have hcall : ∀ suffix rest, Text.isBack suffix = true → (∀ t ∈ rest, Text.Reads T t) →
      Text.Reads T (sampler.decode (function ++ suffix ++ "(" ++
        ",".intercalate (texture :: samplerState :: uv :: rest) ++ ")")) := by
    intro suffix rest hsuffix hrest
    refine reads_decode _ ((hfunction.before hsuffix).call ?_)
    exact .intercalate (by decide) (by decide) (by simpa [htexture, hstate, huv] using hrest)
  unfold sampleText
  split
  · exact hcall _ _ (by decide) (by simp)
  · exact hcall _ _ (by decide) (by simpa using hmip)
  · exact hcall _ _ (by decide) (by simpa using hmip)
  · exact hcall _ _ (by decide) (by simpa using ⟨hmip, hmipY⟩)
  · have hdecoded : Text.Reads T (sampler.decode "" ++ "%!(EXTRA ") :=
      (reads_decode sampler (.fixed (by decide))).before (by decide)
    refine (hdecoded.append_apart (by decide) ?_).before (by decide)
    refine .intercalate (by decide) (by decide) fun t ht => ?_
    obtain ⟨u, hu, rfl⟩ := List.mem_map.mp ht
    refine Text.Reads.after ?_ (by decide)
    simp only [List.mem_cons, List.not_mem_nil, or_false] at hu
    rcases hu with rfl | rfl | rfl | rfl | rfl <;> assumption

theorem reads_physicalTexture (source : SamplerSource) (slot : Int) :
    Text.Reads T (physicalTexture source slot) := by
  have htable : Text.Reads T ("Material.VirtualTexturePhysicalTable_" ++ toString slot) :=
    (Text.Reads.intText slot).after (by decide)
  unfold physicalTexture
  split
  · exact ((htable.before (by decide)).append_apart (by decide) htable).before (by decide)
  · exact ((htable.before (by decide)).append_apart (by decide) htable).before (by decide)

theorem reads_virtualSample (source : SamplerSource) (slot layer : Int)
    {function pageTable : String} (hfunction : Text.isFront (function ++ "(") = true)
    (hpageTable : Text.Reads T pageTable) :
    Text.Reads T (function ++ "(" ++ physicalTexture source slot ++ ", " ++ pageTable ++
      s!", {layer}, VTUniform_Unpack(Material.VTPackedUniform[{slot}]))") := by
  have hphysical : Text.Reads T (function ++ "(" ++ physicalTexture source slot ++ ", ") :=
    (reads_physicalTexture source slot).between hfunction (by decide)
  have hlayer : Text.Reads T (", " ++ toString layer ++
      ", VTUniform_Unpack(Material.VTPackedUniform[") :=
    (Text.Reads.intText layer).between (by decide) (by decide)
  refine (hphysical.append_apart (by decide) hpageTable).append
    ((hlayer.append_apart (by decide) (.intText slot)).before (by decide)) (.inr ?_)
  simp only [String.toList_append, List.append_assoc]
  exact Text.opens_of_beginsApart (by decide) _

theorem sampleText_ne_empty (sampler : SamplerType) (function texture samplerState uv : String)
    (mode : MipMode) (mip mipY : String) :
    sampleText sampler function texture samplerState uv mode mip mipY ≠ "" := by
  unfold sampleText
  cases mode with
  | other code => simp
  | _ => exact SamplerType.decode_ne_empty _ (by simp)

end Context

end ShaderGraph
