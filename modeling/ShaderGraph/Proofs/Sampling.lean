import ShaderGraph.Proofs.StackAcquisition

/-!
# Texture samples keep the code sound

A sample of a virtual texture binds it to a layer of its stack, the next one or the one that is laid
out for it (`Context.Binds`), and does nothing else besides emitting code. All else that is done
with textures and page tables is emitting code only.
-/

namespace ShaderGraph

open Pass

variable {p : Pass} {ctx : Context}

namespace Context

variable {u : SharedUniform} {ref : TextureRef}

open Concerns

theorem acquireStack_safe (l : Lookup) : Safe (ctx.acquireStack l) := by
  have hreading : ∀ {p : Pass}, ctx.sounding.Reading false [l.coordinate, l.mip, l.mipY]
      .pageTableResult [] p := ⟨fun _ _ => sounds.toPoints, nofun, nofun⟩
  intro p
  refine (ctx.sounding.stackKey hreading : p.Yields _ _).bind fun key p _ _ => .get_bind ?_
  split
  · exact .pure trivial
  · refine .modify_bind (.single (.newStack _ _)) ?_
    refine (note_safe _ _ _ _).bind fun _ q _ _ => ?_
    refine (ctx.sounding.emitLookup _ hreading : q.Yields _ _).bind fun _ r _ _ => ?_
    exact .modify_bind (.single (.newEntry _)) (.pure trivial)

theorem mipTexts_safe (m : MipChoice) (uvType : ValueType) : Safe (ctx.mipTexts m uvType) := by
  have hreading : ∀ {p : Pass}, ctx.sounding.Reading false [m.mip, m.mipY] .float [] p :=
    ⟨fun _ _ => sounds.toPoints, nofun, nofun⟩
  exact safe_of_sounding fun _ => ctx.sounding.mipTexts hreading (by simp) (by simp) uvType

theorem countSample_safe : Safe ctx.countSample := by
  unfold countSample
  split
  · exact .pure _
  · refine .modify (fun p => ?_) fun p => ?_
    · split <;> rfl
    · split <;> rfl

/-- A virtual texture was just bound to a layer of a stack, and its page table is read at `read`.
The stack is laid out for it, or gave out its next layer. -/
structure Binds (ctx : Context) (ref : TextureRef) (slot read : Int) (stack : Nat) (layer : Int)
    (p : Pass) : Prop where
  bound : ∃ before after : LayerStack, before.setLayer layer slot = .ok after ∧
    p.slots.layerStacks[stack]? = some after
  entry : ∃ entry, p.stackEntries[stack]? = some entry ∧ entry.key.scope = ctx.scope ∧
    entry.key.preallocated = if 0 ≤ ref.layer then ref.index else -1
  layout : if 0 ≤ ref.layer then layer = ref.layer ∧ read = ref.pageTableLayer else read = layer

/-- The slot of a virtual texture holds it. -/
theorem getElem?_virtualSlot (hp : p.Sound) (hu : u ∈ p.uniforms) (h : 0 ≤ p.slots.virtualSlot u) :
    p.slots.texturesVirtual[(p.slots.virtualSlot u).toNat]? = some u := by
  unfold UniformSet.virtualSlot at h ⊢
  split at h
  case h_1 i hi =>
    obtain ⟨hlt, hid, -⟩ := List.findIdx?_eq_some_iff_getElem.mp hi
    have hentry : p.slots.texturesVirtual[i] ∈ p.uniforms :=
      hp.slotted .virtualTexture _ (List.getElem_mem hlt)
    have heq := hp.interned.eq_of_id_eq hentry hu (beq_iff_eq.mp hid)
    simpa only [hi, Int.toNat_natCast, ← heq] using List.getElem?_eq_getElem hlt
  case h_2 => exact absurd h (by decide)

theorem acquireLayer_yields {slot : Int} (s : Sample) (m : MipChoice)
    (hslot : 0 ≤ slot → p.HoldsTexture slot ref) :
    p.Yields (ctx.acquireLayer ref slot s m) fun found q => ∀ read stack,
      found = some (read, stack) → ∃ layer, ctx.Binds ref slot read stack layer q := by
  unfold acquireLayer
  dsimp only
  split
  case isTrue hfixed =>
    intro hp found q h
    obtain ⟨stack, p₁, hstack, h⟩ := exists_of_bind h
    have hp₁ := (acquireStack_safe _ p hp _ _ hstack).1
    obtain ⟨entry, hentry, hscope, hindex⟩ := acquireStack_key hstack
    split at h
    · obtain ⟨_, p₂, hreport, h⟩ := exists_of_bind h
      cases h
      exact ⟨hp₁.trans (report_safe _ _ (hp₁.sound hp) _ _ hreport).1, by simp⟩
    · obtain ⟨_, p₂, hbind, h⟩ := exists_of_bind h
      cases h
      obtain ⟨before, after, hs, hset, rfl⟩ := bindLayer_ok hbind
      have htexture := hp₁.holdsTexture (hslot (LayerStack.setLayer_ok hset).1)
      refine ⟨hp₁.trans (.single (.ownLayer hs hentry hindex htexture hset)), ?_⟩
      rintro read stack' heq
      obtain ⟨rfl, rfl⟩ := Prod.mk.inj (Option.some.inj heq)
      refine ⟨ref.layer, ⟨before, after, hset, getElem?_withLayers after hs⟩,
        ⟨entry, hentry, hscope, ?_⟩, ?_⟩
      · rw [if_pos hfixed]
        exact hindex
      · rw [if_pos hfixed]
        exact ⟨rfl, rfl⟩
  case isFalse hfree =>
    intro hp found q h
    obtain ⟨stack, p₁, hstack, h⟩ := exists_of_bind h
    have hp₁ := (acquireStack_safe _ p hp _ _ hstack).1
    obtain ⟨entry, hentry, hscope, hindex⟩ := acquireStack_key hstack
    obtain ⟨layer, p₂, htake, h⟩ := exists_of_bind h
    obtain ⟨before, taken, hs, hadd, rfl⟩ := takeLayer_ok htake
    obtain ⟨_, p₃, hbind, h⟩ := exists_of_bind h
    cases h
    obtain ⟨taken', after, hs', hset, rfl⟩ := bindLayer_ok hbind
    obtain rfl := Option.some.inj ((getElem?_withLayers taken hs).symm.trans hs')
    rw [withLayers_withLayers]
    refine ⟨hp₁.trans (.single (.nextLayer hs hadd hset)), ?_⟩
    rintro read stack' heq
    obtain ⟨rfl, rfl⟩ := Prod.mk.inj (Option.some.inj heq)
    refine ⟨layer, ⟨taken, after, hset, getElem?_withLayers after hs⟩,
      ⟨entry, hentry, hscope, ?_⟩, ?_⟩
    · rw [if_neg hfree]
      exact hindex
    · rw [if_neg hfree]

theorem textureReference_ok {u? : Option SharedUniform} (h : textureReference u? = .ok (u, ref)) :
    u? = some u ∧ u.expr = .texture ref := by
  unfold textureReference at h
  split at h
  · cases h
  · split at h
    case h_1 hexpr =>
      cases h
      exact ⟨rfl, hexpr⟩
    case h_2 => cases h

theorem sampleVirtual_safe (s : Sample) (m : MipChoice) : Safe (ctx.sampleVirtual s m) := by
  intro p
  refine (mipTexts_safe m .float2 p).bind fun _ q₀ _ _ => ?_
  refine (widened_safe s.texture _ q₀).bind fun _ q₁ _ _ => ?_
  refine (uniformOf_yields s.texture).bind fun u? q₂ _ hu => .of_sound fun hq₂ => ?_
  split
  · exact report_safe _ _
  case h_2 u ref href =>
    obtain ⟨rfl, hexpr⟩ := textureReference_ok href
    have hslot : 0 ≤ q₂.slots.virtualSlot u → q₂.HoldsTexture (q₂.slots.virtualSlot u) ref :=
      fun h => ⟨u, getElem?_virtualSlot hq₂ (hu u rfl) h, hexpr⟩
    refine .get_bind (.modify_bind (.idle rfl rfl) ?_)
    refine (widened_safe s.coordinate _ _).bind fun _ q₃ hq₃ _ => ?_
    refine (acquireLayer_yields s m fun h => hq₃.holdsTexture (hslot h)).bind
      fun found q₄ _ _ => ?_
    split
    · exact .pure trivial
    rename_i layer stack _
    refine .get_bind ((textOf_yields_false _).bind fun pageTable q₅ _ hpageTable => ?_)
    refine (emitWith_yields (reads_decode _ ?_)).bind fun code q₆ _ _ =>
      countSample_safe.bind (fun _ => .pure code) q₆
    refine reads_virtualSample s.source _ layer ?_ hpageTable
    split <;> decide

theorem sample_safe (s : Sample) : Safe (ctx.sample s) :=
  safe_of_sounding fun _ => ctx.sounding.sample sounds sounds sounds.toPoints sounds.toPoints
    fun q m _ _ _ _ _ _ => (sampleVirtual_safe s m q).mono fun _ _ _ _ => sounds

end Context

end ShaderGraph
