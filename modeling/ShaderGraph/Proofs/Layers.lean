import ShaderGraph.Proofs.Packing

/-!
# Layers of virtual texture stacks

A sample of a virtual texture names a slot, and reads it through a layer of a stack. What is bound
to the layer is known to the renderer from the stacks in the end, when other samples may have used
the stack. A layer that was given out stays with its slot, since the next one is always behind all
that are in use. A texture that the renderer has laid out is bound to its own layer, and only
another with the same layer of the same texture can take its place (`Pass.run_layers`). This does
happen, where a texture is sampled in two ways, and then the code of the first sample reads a slot
that no layer is bound to (`Pass.run_sharedLayer`).
-/

namespace ShaderGraph

/-! ### Layers -/

namespace Pass

variable {p q : Pass}

/-- The next layer of a stack is taken and bound to a slot. -/
def Takes (p : Pass) (stack layer : Nat) (slot : Int) (q : Pass) : Prop :=
  ∃ s taken bound, p.slots.layerStacks[stack]? = some s ∧ s.addLayer = .ok (layer, taken) ∧
    taken.setLayer layer slot = .ok bound ∧ q = p.withLayers stack bound

/-- A slot is bound to the layer of its texture in a stack that is laid out for it. -/
def Places (p : Pass) (stack : Nat) (slot : Int) (ref : TextureRef) (q : Pass) : Prop :=
  ∃ entry s bound, p.slots.layerStacks[stack]? = some s ∧ p.stackEntries[stack]? = some entry ∧
    entry.key.preallocated = ref.index ∧ p.HoldsTexture slot ref ∧
    s.setLayer ref.layer slot = .ok bound ∧ q = p.withLayers stack bound

/-- What a step does to the stacks. -/
theorem Step.stacks (h : Step p q) :
    (∃ more, q.slots.layerStacks = p.slots.layerStacks ++ more ∧
      ∀ s ∈ more, ∃ preallocated, s = .fresh preallocated) ∨
    (∃ stack layer slot, p.Takes stack layer slot q) ∨
    ∃ stack slot ref, p.Places stack slot ref q := by
  have hsame (hstacks : q.slots.layerStacks = p.slots.layerStacks) :
      ∃ more, q.slots.layerStacks = p.slots.layerStacks ++ more ∧
        ∀ s ∈ more, ∃ preallocated, s = .fresh preallocated :=
    ⟨[], by rw [hstacks, List.append_nil], nofun⟩
  cases h with
  | effect h =>
    cases h with
    | idle hcode _ => exact .inl (hsame (congrArg (·.slots.layerStacks) hcode))
    | @slot k i c u kind => exact .inl (hsame (by cases kind <;> rfl))
    | newStack _ preallocated =>
      exact .inl ⟨_, rfl, fun s hs => ⟨preallocated, List.mem_singleton.mp hs⟩⟩
    | nextLayer hs htaken hbound => exact .inr (.inl ⟨_, _, _, _, _, _, hs, htaken, hbound, rfl⟩)
    | ownLayer hs hentry hindex htexture hbound =>
      exact .inr (.inr ⟨_, _, _, _, _, _, hs, hentry, hindex, htexture, hbound, rfl⟩)
    | _ => exact .inl (hsame rfl)
  | programs h =>
    obtain ⟨ps, qs, table, final, -, -, rfl⟩ := UniformSet.withPrograms_ok h
    exact .inl (hsame rfl)
  | _ => exact .inl (hsame rfl)

/-- Every stack has room for all layers. -/
def Roomy (p : Pass) : Prop := ∀ s ∈ p.slots.layerStacks, s.layers.length = maxLayers

namespace Roomy

variable {p q : Pass}

theorem withLayers (hp : p.Roomy) {stack layer : Nat} {s bound : LayerStack} {texture : Int}
    (hs : p.slots.layerStacks[stack]? = some s) (hbound : s.Binds layer texture bound) :
    (p.withLayers stack bound).Roomy := by
  intro t ht
  rcases List.mem_or_eq_of_mem_set ht with ht | rfl
  · exact hp t ht
  · rw [hbound.layers, List.length_set]
    exact hp s (List.mem_of_getElem? hs)

theorem step (hp : p.Roomy) (h : Step p q) : q.Roomy := by
  rcases h.stacks with ⟨more, hstacks, hfresh⟩ |
    ⟨k, layer, slot, s, taken, bound, hs, htaken, hbound, rfl⟩ |
    ⟨k, slot, ref, entry, s, bound, hs, -, -, -, hbound, rfl⟩
  · intro s hs
    rcases List.mem_append.mp (hstacks ▸ hs) with hs | hs
    · exact hp s hs
    · obtain ⟨preallocated, rfl⟩ := hfresh s hs
      exact List.length_replicate
  · exact hp.withLayers hs (.of_addLayer htaken hbound)
  · exact hp.withLayers hs (.of_setLayer hbound)

end Roomy

theorem Reaches.roomy (h : Reaches {} p) : p.Roomy :=
  h.invariant (fun _ _ hstep hp => hp.step hstep) fun s hs => by cases hs

/-! ### What lasts -/

theorem Step.holdsTexture (h : Step p q) {slot : Int} {ref : TextureRef}
    (href : p.HoldsTexture slot ref) : q.HoldsTexture slot ref := by
  obtain ⟨u, hu, hexpr⟩ := href
  exact ⟨u, getElem?_of_prefix (h.retains.slots .virtualTexture) hu, hexpr⟩

/-- A slot is bound to a layer in use of a stack that is laid out for a texture, or was replaced
there by another that the renderer has laid out, with the same layer of that texture. -/
def Bound (p : Pass) (stack layer : Nat) (index slot : Int) : Prop :=
  ∃ entry s texture, p.stackEntries[stack]? = some entry ∧ entry.key.preallocated = index ∧
    p.slots.layerStacks[stack]? = some s ∧ layer < s.used ∧ s.layers[layer]? = some texture ∧
    (texture = slot ∨ 0 ≤ texture ∧ ∃ other, p.HoldsTexture texture other ∧ other.layer = layer ∧
      other.index = index)

namespace Bound

variable {p q : Pass} {stack layer : Nat} {index slot : Int}

/-- What leaves the stacks alone leaves their layers bound. -/
theorem of_layerStacks (hp : p.Bound stack layer index slot) (h : Step p q)
    (hstacks : ∀ s, p.slots.layerStacks[stack]? = some s → q.slots.layerStacks[stack]? = some s) :
    q.Bound stack layer index slot := by
  obtain ⟨entry, s, texture, hentry, hindex, hs, hused, hlayer, htexture⟩ := hp
  refine ⟨entry, s, texture, getElem?_of_prefix h.retains.stackEntries hentry, hindex, hstacks s hs,
    hused, hlayer, htexture.imp_right ?_⟩
  exact fun ⟨hvalid, other, hother, hsame⟩ => ⟨hvalid, other, h.holdsTexture hother, hsame⟩

/-- A layer is bound. If it is the same layer, what is bound to it can take the place. -/
theorem withLayers (hp : p.Bound stack layer index slot) {k other : Nat} {texture : Int}
    {s bound : LayerStack} (h : Step p (p.withLayers k bound))
    (hs : p.slots.layerStacks[k]? = some s) (hbound : s.Binds other texture bound)
    (hsame : ∀ entry, p.stackEntries[k]? = some entry → other < s.used →
      ∃ ref, p.HoldsTexture texture ref ∧ ref.layer = other ∧
        ref.index = entry.key.preallocated) :
    (p.withLayers k bound).Bound stack layer index slot := by
  by_cases hstack : k = stack
  · subst hstack
    obtain ⟨entry, s', was, hentry, rfl, hs', hlt, hlayer, hwas⟩ := hp
    cases hs.symm.trans hs'
    have hlater : ∀ {ref : TextureRef} {t : Int}, p.HoldsTexture t ref →
        (p.withLayers k bound).HoldsTexture t ref := h.holdsTexture
    have hlt' : layer < bound.used := hbound.used ▸ Nat.lt_of_lt_of_le hlt (Nat.le_max_right ..)
    have hstack := Context.getElem?_withLayers bound hs
    by_cases hother : other = layer
    · subst hother
      obtain ⟨ref, href, hsame⟩ := hsame entry hentry hlt
      obtain ⟨hbounds, -⟩ := List.getElem?_eq_some_iff.mp hlayer
      refine ⟨entry, bound, texture, hentry, rfl, hstack, hlt', ?_,
        .inr ⟨hbound.valid, ref, hlater href, hsame⟩⟩
      rw [hbound.layers]
      exact List.getElem?_set_self hbounds
    · refine ⟨entry, bound, was, hentry, rfl, hstack, hlt', ?_, hwas.imp_right ?_⟩
      · rw [hbound.layers, List.getElem?_set_ne hother]
        exact hlayer
      · exact fun ⟨hwasValid, ref, href, hrest⟩ => ⟨hwasValid, ref, hlater href, hrest⟩
  · exact hp.of_layerStacks h fun t ht => (List.getElem?_set_ne hstack).trans ht

theorem step (hp : p.Bound stack layer index slot) (h : Step p q) :
    q.Bound stack layer index slot := by
  rcases h.stacks with ⟨more, hstacks, -⟩ |
    ⟨k, other, texture, s, taken, bound, hs, htaken, hbound, rfl⟩ |
    ⟨k, texture, ref, entry, s, bound, hs, hentry, hindex, htexture, hbound, rfl⟩
  · exact hp.of_layerStacks h fun s hs =>
      getElem?_of_prefix (hstacks ▸ List.prefix_append _ _) hs
  · exact hp.withLayers h hs (.of_addLayer htaken hbound) fun _ _ hlt => absurd hlt (by omega)
  · refine hp.withLayers h hs (.of_setLayer hbound) fun found hfound _ => ⟨ref, htexture, ?_, ?_⟩
    · exact (Int.toNat_of_nonneg (LayerStack.setLayer_ok hbound).2.1).symm
    · cases hentry.symm.trans hfound
      exact hindex.symm

end Bound

namespace Reaches

variable {p q : Pass}

/-- **Bindings last.** -/
theorem bound (h : p.Reaches q) {stack layer : Nat} {index slot : Int}
    (hp : p.Bound stack layer index slot) :
    q.Bound stack layer index slot :=
  h.invariant (P := fun q => q.Bound stack layer index slot) (fun _ _ hstep hp => hp.step hstep) hp

theorem holdsTexture (h : p.Reaches q) {slot : Int} {ref : TextureRef}
    (href : p.HoldsTexture slot ref) : q.HoldsTexture slot ref :=
  h.invariant (P := fun q => q.HoldsTexture slot ref) (fun _ _ hstep => hstep.holdsTexture) href

end Reaches

end Pass

/-! ### Samples -/

namespace Context

open Pass

variable {p q r : Pass} {ctx : Context} {stack c : Nat} {s : Sample} {m : MipChoice}

/-- A layer that was just bound is. -/
theorem Binds.isBound {ref : TextureRef} {slot read layer : Int}
    (h : ctx.Binds ref slot read stack layer p) (hp : p.Roomy) :
    0 ≤ slot ∧ 0 ≤ layer ∧
      p.Bound stack layer.toNat (if 0 ≤ ref.layer then ref.index else -1) slot := by
  obtain ⟨before, after, hset, hafter⟩ := h.bound
  obtain ⟨entry, hentry, -, hindex⟩ := h.entry
  obtain ⟨hslot, hlayer, hmax, hlayers, hused, -⟩ := LayerStack.setLayer_ok hset
  have hlength := hp after (List.mem_of_getElem? hafter)
  refine ⟨hslot, hlayer, entry, after, slot, hentry, hindex, hafter, by omega, ?_, .inl rfl⟩
  rw [hlayers] at hlength ⊢
  rw [List.length_set] at hlength
  exact List.getElem?_set_self (by omega)

/-- The text of a sample reads the page table of the stack. -/
theorem emitVirtual_ok (hp : p.Sound) (hscope : ctx.scope < p.scopes.length) {slot read : Int}
    (h : ctx.emitVirtual s m slot read stack p = .ok (some c) r) :
    ∃ q pageTable, ctx.textOf (p.stackEntries[stack]?.bind (·.pageTable)) p = .ok pageTable q ∧
      p.Evolves q ∧ q.Evolves r ∧
      r.textAt? ctx.scope (some c) = some (virtualText s m slot pageTable read) := by
  obtain ⟨_, _, hget, h⟩ := exists_of_bind h
  cases hget
  obtain ⟨pageTable, q, hpageTable, h⟩ := exists_of_bind h
  obtain ⟨code, q', hemit, h⟩ := exists_of_bind h
  obtain ⟨_, q'', hcount, h⟩ := exists_of_bind h
  cases h
  obtain ⟨hq, hreads⟩ := textOf_yields_false _ hp _ _ hpageTable
  have htext : q.Reads ctx.scope false (virtualText s m slot pageTable read) :=
    reads_decode _ (reads_virtualSample s.source slot read (by split <;> decide) hreads)
  have hq' := (emitWith_yields htext (hq.sound hp) _ _ hemit).1
  have hq'' := (countSample_safe _ ((hq.trans hq').sound hp) _ _ hcount).1
  refine ⟨q, pageTable, hpageTable, hq, hq'.trans hq'', ?_⟩
  refine ((Reaches.refl q').evolves hq'').textAt? ?_
  exact (emitWith_text (Nat.lt_of_lt_of_le hscope hq.retains.scopeCount) _ _ _ _ _ hemit rfl).1

/-- What a sample of a virtual texture does: it binds a slot with its texture to a layer of a stack,
and emits the text that samples it. -/
theorem sampleVirtual_ok (hp : p.Sound) (h : ctx.sampleVirtual s m p = .ok (some c) r) :
    ∃ ref slot read stack layer q, p.Evolves q ∧ ctx.Binds ref slot read stack layer q ∧
      (0 ≤ slot → q.HoldsTexture slot ref) ∧
      ctx.emitVirtual s m slot read stack q = .ok (some c) r := by
  obtain ⟨_, p₁, hmip, h⟩ := exists_of_bind h
  obtain ⟨_, p₂, htexture, h⟩ := exists_of_bind h
  obtain ⟨u?, p₃, huniform, h⟩ := exists_of_bind h
  have hp₁ := (mipTexts_safe m .float2 _ hp _ _ hmip).1
  have hp₂ := hp₁.trans (widened_safe s.texture _ _ (hp₁.sound hp) _ _ htexture).1
  obtain ⟨hp₃, hu⟩ := uniformOf_yields s.texture (hp₂.sound hp) _ _ huniform
  have hp₃ := hp₂.trans hp₃
  cases href : textureReference u? with
  | error problem =>
    simp only [href] at h
    cases (report_gives problem _ _ h).1
  | ok found =>
    simp only [href] at h
    obtain ⟨rfl, hexpr⟩ := textureReference_ok href
    obtain ⟨_, _, hget, h⟩ := exists_of_bind h
    cases hget
    have hslot : 0 ≤ p₃.slots.virtualSlot found.1 →
        p₃.HoldsTexture (p₃.slots.virtualSlot found.1) found.2 := fun hnonneg =>
      ⟨found.1, getElem?_virtualSlot (hp₃.sound hp) (hu _ rfl) hnonneg, hexpr⟩
    obtain ⟨_, p₄, hcount, h⟩ := exists_of_bind h
    obtain ⟨_, p₅, hcoordinate, h⟩ := exists_of_bind h
    obtain ⟨place?, q, hlayer, h⟩ := exists_of_bind h
    have hp₄ : p₃.Evolves p₄ := by
      cases hcount
      exact .idle rfl rfl
    have hsound₄ := (hp₃.trans hp₄).sound hp
    have hp₅ := hp₄.trans (widened_safe s.coordinate _ _ hsound₄ _ _ hcoordinate).1
    obtain ⟨hq, hbinds⟩ := acquireLayer_yields s m (fun hnonneg => hp₅.holdsTexture (hslot hnonneg))
      ((hp₃.trans hp₅).sound hp) _ _ hlayer
    cases place? with
    | none => cases h
    | some place =>
      obtain ⟨layer, hbinds⟩ := hbinds place.1 place.2 rfl
      exact ⟨found.2, _, place.1, place.2, layer, q, (hp₃.trans hp₅).trans hq, hbinds,
        fun hnonneg => (hp₅.trans hq).holdsTexture (hslot hnonneg), h⟩

end Context

namespace Pass

/-- The code `c` of a sample reads a slot that holds its texture, through the page table of a stack.
A texture that the renderer has laid out has its own layer and page table layer; of any other, the
layer is the one that is read. -/
structure SampleReads (p : Pass) (ctx : Context) (s : Sample) (m : MipChoice) (c : Nat)
    (ref : TextureRef) (slot stack layer : Nat) (read : Int) : Prop where
  texture : p.HoldsTexture slot ref
  code : ∃ entry q r pageTable, p.stackEntries[stack]? = some entry ∧
    entry.key.scope = ctx.scope ∧ ctx.textOf entry.pageTable q = .ok pageTable r ∧ r.Reaches p ∧
    p.textAt? ctx.scope (some c) = some (Context.virtualText s m slot pageTable read)
  layout : if 0 ≤ ref.layer then ref.layer = layer ∧ read = ref.pageTableLayer else read = layer

/-- What a sample reads, and what it is bound to, lasts. -/
theorem sample_lasts {ctx : Context} {s : Sample} {m : MipChoice} {q r p : Pass} {c : Nat}
    (hq : Reaches {} q) (hscope : ctx.scope < q.scopes.length)
    (h : ctx.sampleVirtual s m q = .ok (some c) r) (hp : r.Reaches p) :
    ∃ ref slot stack layer read, p.SampleReads ctx s m c ref slot stack layer read ∧
      p.Bound stack layer (if 0 ≤ ref.layer then ref.index else -1) slot := by
  have hsound := hq.sound ready_init.sound
  obtain ⟨ref, slot, read, stack, layer, t, ht, hbinds, hholds, hemit⟩ :=
    Context.sampleVirtual_ok hsound h
  obtain ⟨t', pageTable, hpageTable, ht', hr, htext⟩ := Context.emitVirtual_ok (ht.sound hsound)
    (Nat.lt_of_lt_of_le hscope ht.retains.scopeCount) hemit
  obtain ⟨entry, hentry, hkey, -⟩ := hbinds.entry
  obtain ⟨hslot, hlayer, hbound⟩ := hbinds.isBound (hq.evolves ht).roomy
  have hend' : t'.Reaches p := ((Reaches.refl t').evolves hr).trans hp
  have hend : t.Reaches p := ((Reaches.refl t).evolves ht').trans hend'
  have hslotCast : ((slot.toNat : Nat) : Int) = slot := Int.toNat_of_nonneg hslot
  have hlayerCast : ((layer.toNat : Nat) : Int) = layer := Int.toNat_of_nonneg hlayer
  refine ⟨ref, slot.toNat, stack, layer.toNat, read, ⟨?_, ?_, ?_⟩, ?_⟩
  · exact hend.holdsTexture (hholds hslot)
  · refine ⟨entry, t, t', pageTable, getElem?_of_prefix hend.retains.stackEntries hentry, hkey, ?_,
      hend', ?_⟩
    · simpa only [hentry, Option.bind_some] using hpageTable
    · rw [hslotCast]
      exact hp.textAt? htext
  · have hlayout := hbinds.layout
    rw [hlayerCast]
    split at hlayout
    case isTrue hfixed => exact if_pos hfixed ▸ ⟨hlayout.1.symm, hlayout.2⟩
    case isFalse hfree => exact if_neg hfree ▸ hlayout
  · rw [hslotCast]
    exact hend.bound hbound

end Pass

/-- A layer of a stack is bound to a slot, or to another one in its place that the renderer has laid
out, with the same layer of a texture. -/
def UniformSet.LayerBound (set : UniformSet) (stack layer : Nat) (index : Int) (slot : Nat) :
    Prop :=
  ∃ s texture, set.layerStacks[stack]? = some s ∧ s.layers[layer]? = some texture ∧
    (texture = slot ∨ 0 ≤ texture ∧ ∃ u other, set.texturesVirtual[texture.toNat]? = some u ∧
      u.expr = .texture other ∧ other.layer = layer ∧ other.index = index)

namespace Pass

/-- **No binding of a virtual texture is lost** but to one of its kind. Take any sample that was
compiled on the way to a state with the slots of the outcome, as the last one has. Its code reads a
slot through a stack, and the outcome has the slot at the layer that it was bound to, or another
texture that the renderer has laid out, with the same layer of the same texture; of no texture, if
the sampled one was not laid out. -/
theorem run_layers (env : Environment) (g? : Option Graph) {o : Outcome} {p : Pass}
    (h : run env (g?.map Graph.expressions) {} = .ok o p) :
    EndsIn env g? o p ∧
    ∀ (ctx : Context) (s : Sample) (m : MipChoice) (q r e : Pass) (c : Nat), Reaches {} q →
      ctx.scope < q.scopes.length → ctx.sampleVirtual s m q = .ok (some c) r → r.Reaches e →
      e.slots = o.slots → ∃ (ref : TextureRef) (slot stack layer : Nat) (read : Int),
        e.SampleReads ctx s m c ref slot stack layer read ∧
        o.slots.LayerBound stack layer (if 0 ≤ ref.layer then ref.index else -1) slot := by
  refine ⟨run_endsIn g? h, ?_⟩
  intro ctx s m q r e c hq hscope hsample hr hslots
  obtain ⟨ref, slot, stack, layer, read, hreads, hbound⟩ := sample_lasts hq hscope hsample hr
  obtain ⟨entry, final, texture, -, -, hfinal, -, hlayer, htexture⟩ := hbound
  refine ⟨ref, slot, stack, layer, read, hreads, final, texture, hslots ▸ hfinal, hlayer,
    htexture.imp_right ?_⟩
  rintro ⟨hvalid, other, ⟨u, hu, hexpr⟩, hother⟩
  exact ⟨hvalid, u, other, hslots ▸ hu, hexpr, hother⟩

/-- A virtual texture that the renderer has laid out, and the same as any other. -/
def layered : Graph where
  nodes := [.virtualTextureSample { sampler := .virtualNormal } 2 1,
    .textureSample { sampler := .virtualColor }]

/-- The material that samples it in both ways, as any other first. -/
def layeredMaterial : Environment where
  material :=
    { inputs := ((PropertyTable.const Input.none).set .baseColor ⟨1, 0⟩).set .emissiveColor ⟨2, 0⟩,
      textures := [{ name := "T", type := .textureVirtual, sizeX := 4, sizeY := 4 }] }
  options := { virtualTexturing := true }

/-- Where the pixel stage compiles the first node. -/
def layeredReader (p : Pass) : Context :=
  { propertyContext layeredMaterial .baseColor (p.stageScopes.get .pixel) with node := 1 }

end Pass

namespace Context

/-- What the first node samples: the code of the texture and of the coordinates. -/
def laidOutInputs (ctx : Context) : PassM (Code × Code) := do
  let texture ← ctx.virtualTexture 0 2 1 .virtualNormal
  return (texture, ← ctx.textureCoordinate 0 .none)

theorem laidOutInputs_safe (ctx : Context) : Pass.Safe ctx.laidOutInputs :=
  (safe_of_sounding fun _ => ctx.sounding.virtualTexture trivial False.elim trivial).bind fun _ =>
    (safe_of_sounding fun _ => ctx.sounding.textureCoordinate 0 .none).bind fun _ => .pure _

end Context

namespace Pass

/-- Its sample. -/
def laidOut (x : Code × Code) : Sample where
  texture := x.1
  coordinate := x.2
  sampler := .virtualNormal

/-- Its mip level. -/
def laidOutMip : MipChoice := ⟨.automatic, none, none⟩

/-- Each of the two has a stack. Where the pixel stage compiles the one that is laid out, it is read
through a layer that is bound in the outcome. -/
theorem run_layers_layered :
    ∃ o p q x r c s, run layeredMaterial (some layered.expressions) {} = .ok o p ∧
      (o.slots.layerStacks.map fun s => (s.layers.take 3).map (·.toNat?)) =
        [[some 0, none, none], [none, none, some 1]] ∧
      Reaches {} q ∧ q.Reaches p ∧ q.layeredReader.laidOutInputs q = .ok x r ∧
      q.layeredReader.sampleVirtual (laidOut x) laidOutMip r = .ok (some c) s ∧
      ∃ ref slot stack layer read,
        s.SampleReads q.layeredReader (laidOut x) laidOutMip c ref slot stack layer read ∧
        o.slots.LayerBound stack layer (if 0 ≤ ref.layer then ref.index else -1) slot := by
  obtain ⟨o, p, h, hlayers, q, hq, x, r, hr, hscope, code, s, hsample, hsome, hslots⟩ :
      ∃ o p, run layeredMaterial (some layered.expressions) {} = .ok o p ∧
        (o.slots.layerStacks.map fun s => (s.layers.take 3).map (·.toNat?)) =
          [[some 0, none, none], [none, none, some 1]] ∧
        ∃ q, run layeredMaterial (some (layered.barred 1 .noSuchStage)) {} =
          .error .noSuchStage q ∧
        ∃ x r, q.layeredReader.laidOutInputs q = .ok x r ∧
          q.layeredReader.scope < r.scopes.length ∧
        ∃ code s, q.layeredReader.sampleVirtual (laidOut x) laidOutMip r = .ok code s ∧
          code.isSome ∧ s.slots = o.slots := by
    decide +kernel
  obtain ⟨c, rfl⟩ := Option.isSome_iff_exists.mp hsome
  obtain ⟨hreached, hrest⟩ := Graph.barred_waypoint h hq
  have hevolves := (Context.laidOutInputs_safe _).gives (hreached.sound ready_init.sound) _ _ hr
  exact ⟨o, p, q, x, r, c, s, h, hlayers, hreached, hrest, hr, hsample,
    (run_layers layeredMaterial (some layered) h).2 _ _ _ _ _ s c (hreached.evolves hevolves) hscope
      hsample (.refl s) hslots⟩

/-- A virtual texture that the renderer has laid out, with two samplers for one layer. -/
def sharedLayer : Graph where
  nodes := [.virtualTextureSample { sampler := .virtualColor } 0 0,
    .virtualTextureSample { sampler := .virtualNormal } 0 0]

/-- Sampled in two ways, a texture that is laid out has two slots, and the second is bound in the
place of the first: the code samples the first, but no layer of any stack is bound to it. -/
theorem run_sharedLayer :
    ∃ o p, run layeredMaterial (some sharedLayer.expressions) {} = .ok o p ∧ o.success = true ∧
      (∃ d ∈ p.scope (p.stageScopes.get .pixel), d.text = "UnpackNormalMap(" ++
        "TextureVirtualSample(Material.VirtualTexturePhysicalTable_0, " ++
        "Material.VirtualTexturePhysicalTable_0Sampler, Local0, 0, " ++
        "VTUniform_Unpack(Material.VTPackedUniform[0])))") ∧
      (o.slots.texturesVirtual[0]?).isSome ∧
      ∀ s ∈ o.slots.layerStacks, ∀ texture ∈ s.layers, texture ≠ Int.ofNat 0 := by
  decide +kernel

end Pass

end ShaderGraph
