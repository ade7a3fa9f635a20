import ShaderGraph.Proofs.StackOrder

/-!
# Layers that are taken

A sample of a virtual texture takes the next layer of its stack, also if another sample has bound
the same slot there before. So the layers of a stack are the slots of its samples in their order,
and a slot that is sampled twice through a stack has two of its layers (`Graph.layers_taken`). Two
samples of one texture at the same coordinates are enough (`Graph.run_sampledTwice`).
-/

namespace ShaderGraph

/-! ### Layers in use -/

namespace LayerStack

variable {s bound : LayerStack} {layer : Nat} {slot : Int}

/-- A layer in use is bound to a slot. -/
def Has (s : LayerStack) (layer : Nat) (slot : Int) : Prop :=
  layer < s.used ∧ s.layers[layer]? = some slot

/-- Once the next layer is bound, it is in use besides those that were. -/
theorem Binds.has_iff {texture : Int} (h : s.Binds s.used texture bound)
    (hlength : s.layers.length = maxLayers) :
    bound.Has layer slot ↔ s.Has layer slot ∨ layer = s.used ∧ slot = texture := by
  have hlt := h.lt
  unfold Has
  rw [h.used, h.layers]
  by_cases heq : layer = s.used
  · subst heq
    rw [List.getElem?_set_self (by omega)]
    simp [eq_comm]
  · rw [List.getElem?_set_ne (Ne.symm heq)]
    have hmax : layer < max (s.used + 1) s.used ↔ layer < s.used := by omega
    rw [hmax]
    simp [heq]

/-- The layers in use are bound to different slots if no two of them are bound to one. -/
theorem nodup_take_used_iff (s : LayerStack) : (s.layers.take s.used).Nodup ↔
    ∀ i j slot, s.Has i slot → s.Has j slot → i = j := by
  have hget (i : Nat) (slot : Int) : (s.layers.take s.used)[i]? = some slot ↔ s.Has i slot := by
    rw [List.getElem?_take, Option.ite_none_right_eq_some]
    rfl
  rw [List.nodup_iff_getElem?_ne_getElem?]
  constructor
  · intro hdiffer i j slot hi hj
    have hne {i j : Nat} (hlt : i < j) (hi : s.Has i slot) (hj : s.Has j slot) : False := by
      obtain ⟨hbound, -⟩ := List.getElem?_eq_some_iff.mp ((hget j slot).mpr hj)
      exact hdiffer i j hlt hbound (((hget i slot).mpr hi).trans ((hget j slot).mpr hj).symm)
    rcases Nat.lt_trichotomy i j with hlt | heq | hlt
    · exact (hne hlt hi hj).elim
    · exact heq
    · exact (hne hlt hj hi).elim
  · intro hsingle i j hlt hbound heq
    have hj := List.getElem?_eq_getElem hbound
    have := hsingle i j _ ((hget i _).mp (heq.trans hj)) ((hget j _).mp hj)
    omega

end LayerStack

namespace Pass

variable {p q r : Pass} {stack layer : Nat} {slot : Int} {other : Nat} {texture : Int}

/-- A layer in use of a stack is bound to a slot. -/
def HasLayer (p : Pass) (stack layer : Nat) (slot : Int) : Prop :=
  ∃ s, p.slots.layerStacks[stack]? = some s ∧ s.Has layer slot

theorem hasLayer_iff {s : LayerStack} (hs : p.slots.layerStacks[stack]? = some s) :
    p.HasLayer stack layer slot ↔ s.Has layer slot := by
  simp [HasLayer, hs]

/-- A stack is laid out for no virtual texture. -/
def Unlaid (stack : Nat) (p : Pass) : Prop :=
  ∀ entry slot ref, p.stackEntries[stack]? = some entry → p.HoldsTexture slot ref →
    entry.key.preallocated ≠ ref.index

/-- And so it was before. -/
theorem Unlaid.before (hq : q.Unlaid stack) (h : p.Reaches q) : p.Unlaid stack := by
  intro entry slot ref hentry href
  have hlater := getElem?_of_prefix h.retains.stackEntries hentry
  exact hq entry slot ref hlater (h.holdsTexture href)

/-! ### Steps -/

section

variable (h : p.Takes stack layer slot q)

include h

theorem Takes.step : Step p q := by
  obtain ⟨s, taken, bound, hs, htaken, hbound, rfl⟩ := h
  exact .effect (.nextLayer hs htaken hbound)

/-- Layers are taken one behind the other. -/
theorem Takes.lt_of_hasLayer (hother : p.HasLayer stack other texture) : other < layer := by
  obtain ⟨s, taken, bound, hs, htaken, hbound, rfl⟩ := h
  obtain ⟨rfl, -⟩ := LayerStack.addLayer_ok htaken
  exact ((hasLayer_iff hs).mp hother).1

/-- The layers in use after one is taken are this one and those that were. -/
theorem Takes.hasLayer_iff (hp : p.Roomy) :
    q.HasLayer stack other texture ↔
      p.HasLayer stack other texture ∨ other = layer ∧ texture = slot := by
  obtain ⟨s, taken, bound, hs, htaken, hbound, rfl⟩ := h
  have hbinds := LayerStack.Binds.of_addLayer htaken hbound
  obtain ⟨rfl, -⟩ := LayerStack.addLayer_ok htaken
  rw [Pass.hasLayer_iff hs, Pass.hasLayer_iff (Context.getElem?_withLayers bound hs),
    hbinds.has_iff (hp s (List.mem_of_getElem? hs))]

/-- A layer that was just taken is bound. -/
theorem Takes.hasLayer (hp : p.Roomy) : q.HasLayer stack layer slot := (h.hasLayer_iff hp).mpr
    (.inr ⟨rfl, rfl⟩)

end

/-- A step takes a layer of a stack, or leaves its layers as they are. -/
theorem Step.takes_or (h : Step p q) (hunlaid : p.Unlaid stack) :
    (∃ layer slot, p.Takes stack layer slot q) ∨
      ∀ layer slot, q.HasLayer stack layer slot ↔ p.HasLayer stack layer slot := by
  have hkept (hstack : q.slots.layerStacks[stack]? = p.slots.layerStacks[stack]?) (layer : Nat)
      (slot : Int) : q.HasLayer stack layer slot ↔ p.HasLayer stack layer slot := by
    simp only [HasLayer, hstack]
  rcases h.stacks with ⟨more, hstacks, hfresh⟩ | ⟨k, layer, slot, htakes⟩ |
    ⟨k, slot, ref, entry, s, bound, hs, hentry, hindex, htexture, -, rfl⟩
  · refine .inr fun layer slot => ⟨?_, ?_⟩
    · rintro ⟨s, hs, hlt, hslot⟩
      rw [hstacks, List.getElem?_append] at hs
      split at hs
      · exact ⟨s, hs, hlt, hslot⟩
      · obtain ⟨preallocated, rfl⟩ := hfresh s (List.mem_of_getElem? hs)
        exact absurd hlt (Nat.not_lt_zero _)
    · rintro ⟨s, hs, hslot⟩
      exact ⟨s, getElem?_of_prefix (hstacks ▸ List.prefix_append _ _) hs, hslot⟩
  · by_cases hk : k = stack
    · exact .inl ⟨layer, slot, hk ▸ htakes⟩
    · obtain ⟨s, taken, bound, -, -, -, rfl⟩ := htakes
      exact .inr (hkept (List.getElem?_set_ne hk))
  · have hk : k ≠ stack := fun heq => hunlaid entry slot ref (heq ▸ hentry) htexture hindex
    exact .inr (hkept (List.getElem?_set_ne hk))

/-! ### Runs -/

/-- On the way to a state, a layer of a stack was taken for a slot. -/
def Taken (p : Pass) (stack layer : Nat) (slot : Int) : Prop :=
  ∃ q r, Reaches {} q ∧ q.Takes stack layer slot r ∧ r.Reaches p

namespace Reaches

/-- A layer that is bound stays so. -/
theorem hasLayer (hp : Reaches {} p) (h : p.Reaches q) (hunlaid : q.Unlaid stack)
    (hlayer : p.HasLayer stack layer slot) : q.HasLayer stack layer slot := by
  induction h with
  | refl => exact hlayer
  | @tail r q hr hstep ih =>
    have hunlaid' := hunlaid.before (.step (.refl r) hstep)
    have hlast := ih hunlaid'
    rcases hstep.takes_or hunlaid' with ⟨_, _, htakes⟩ | hsame
    · exact (htakes.hasLayer_iff (hp.trans hr).roomy).mpr (.inl hlast)
    · exact (hsame layer slot).mpr hlast

/-- **The layers in use are those that were taken.** -/
theorem hasLayer_iff (h : Reaches {} p) (hunlaid : p.Unlaid stack) :
    p.HasLayer stack layer slot ↔ p.Taken stack layer slot := by
  constructor
  · intro hlayer
    induction h with
    | refl =>
      obtain ⟨s, hs, -⟩ := hlayer
      cases hs
    | @tail q p hq hstep ih =>
      have hunlaid' := hunlaid.before (.step (.refl q) hstep)
      have hlater (hlast : q.HasLayer stack layer slot) : p.Taken stack layer slot := by
        obtain ⟨r, r', hr, htakes, hr'⟩ := ih hunlaid' hlast
        exact ⟨r, r', hr, htakes, hr'.step hstep⟩
      rcases hstep.takes_or hunlaid' with ⟨n, x, htakes⟩ | hsame
      · rcases (htakes.hasLayer_iff (roomy hq)).mp hlayer with hlast | ⟨rfl, rfl⟩
        · exact hlater hlast
        · exact ⟨q, p, hq, htakes, .refl p⟩
      · exact hlater ((hsame layer slot).mp hlayer)
  · rintro ⟨q, r, hq, htakes, hr⟩
    exact (hq.step htakes.step).hasLayer hr hunlaid (htakes.hasLayer hq.roomy)

end Reaches

end Pass

/-! ### Samples -/

open Pass

namespace Context

variable {p q : Pass} {ctx : Context} {ref : TextureRef} {slot read : Int} {s : Sample}
variable {m : MipChoice} {stack : Nat}

/-- A sample of a texture that is not laid out takes the next layer of its stack. -/
theorem acquireLayer_takes (hp : p.Sound) (hfree : ref.layer < 0)
    (h : ctx.acquireLayer ref slot s m p = .ok (some (read, stack)) q) :
    ∃ r, p.Evolves r ∧ ∃ layer : Nat, read = layer ∧ r.Takes stack layer slot q := by
  unfold acquireLayer at h
  dsimp only at h
  rw [if_neg (Int.not_le.mpr hfree)] at h
  obtain ⟨_, r, hstack, h⟩ := exists_of_bind h
  obtain ⟨layer, r', htake, h⟩ := exists_of_bind h
  obtain ⟨_, r'', hbind, h⟩ := exists_of_bind h
  cases h
  obtain ⟨t, taken, ht, htaken, rfl⟩ := takeLayer_ok htake
  obtain ⟨taken', bound, htaken', hbound, rfl⟩ := bindLayer_ok hbind
  obtain rfl := Option.some.inj ((getElem?_withLayers taken ht).symm.trans htaken')
  exact ⟨r, (acquireStack_safe _ p hp _ _ hstack).1, layer, rfl, t, taken, bound, ht, htaken,
    hbound, withLayers_withLayers ..⟩

end Context

/-- A stack that is not laid out is laid out for no virtual texture, if all have an index. -/
theorem Graph.IndexesLayouts.unlaid {g : Graph} (hindexed : g.IndexesLayouts) {env : Environment}
    {o : Outcome} {p : Pass} (h : run env (some g.expressions) {} = .ok o p) {stack : Nat}
    {s : LayerStack} (hs : o.slots.layerStacks[stack]? = some s) (hfree : s.preallocated = -1) :
    p.Unlaid stack := by
  obtain ⟨harranged, hslots⟩ := (g.keepsStacks env).final o p h
  rintro entry slot ref hentry ⟨u, hu, href⟩ hindex
  have hpreallocated := harranged.laidOut hentry (hslots ▸ hs)
  have hlisted : u ∈ o.slots.table .virtualTexture := hslots ▸ List.mem_of_getElem? hu
  obtain ⟨ref', href', hallowed⟩ := g.tables_allowed env h rfl hlisted
  obtain rfl := Uniform.texture.inj (href.symm.trans href')
  rcases hallowed with hnames | ⟨-, -, hlaid⟩
  · have hindexed := hnames.1
    omega
  · exact hindexed.marked ref hlaid (by omega)

/-- A sample of a texture that is not laid out is compiled: it binds a slot to a layer of a stack,
through which it is read. -/
def Pass.SamplesThrough (stack : Nat) (slot read : Int) (p q : Pass) : Prop :=
  ∃ (ctx : Context) (ref : TextureRef) (s : Sample) (m : MipChoice), ref.layer < 0 ∧
    ctx.acquireLayer ref slot s m p = .ok (some (read, stack)) q

/-- What is known of the layers in use of a stack that is not laid out. -/
structure Pass.TakesLayers (p : Pass) (stack : Nat) (final : LayerStack) : Prop where
  unlaid : p.Unlaid stack
  has_iff : ∀ layer slot, final.Has layer slot ↔ p.Taken stack layer slot
  nodup_iff : (final.layers.take final.used).Nodup ↔
    ∀ i j slot, p.Taken stack i slot → p.Taken stack j slot → i = j
  /-- On the way to any state where the stack is laid out for no texture, as it is in the end, a
  sample that is compiled after another one is read through a later layer, and both layers are bound
  in that state. -/
  later : ∀ (slot slot' read read' : Int) (q r q' r' e : Pass), Reaches {} q →
    SamplesThrough stack slot read q r → r.Reaches q' → SamplesThrough stack slot' read' q' r' →
    r'.Reaches e → e.Unlaid stack → ∃ i j : Nat, read = i ∧ read' = j ∧ i < j ∧
      e.HasLayer stack i slot ∧ e.HasLayer stack j slot'

/-- **Every sample takes a layer of its own.** Take a stack of the outcome that is not laid out,
where every texture that is laid out has an index. Its layers in use are those that were taken on
the way, each bound to the slot that it was taken for; so they are bound to different slots if and
only if no slot took two. A slot does take two whenever two samples of it use the stack: the later
one is read through a later layer, and both stay bound, whether the slots are different or not. -/
theorem Graph.layers_taken (g : Graph) (env : Environment) (hindexed : g.IndexesLayouts)
    {o : Outcome} {p : Pass} (h : run env (some g.expressions) {} = .ok o p) {stack : Nat}
    {final : LayerStack} (hfinal : o.slots.layerStacks[stack]? = some final)
    (hfree : final.preallocated = -1) :
    EndsIn env (some g) o p ∧ p.TakesLayers stack final := by
  have ho := run_endsIn (some g) h
  have hunlaid := hindexed.unlaid h hfinal hfree
  have hhas (layer : Nat) (slot : Int) : final.Has layer slot ↔ p.Taken stack layer slot := by
    rw [← ho.reached.hasLayer_iff hunlaid, hasLayer_iff (ho.slots ▸ hfinal)]
  refine ⟨ho, hunlaid, hhas, ?_, ?_⟩
  · rw [final.nodup_take_used_iff]
    simp only [hhas]
  · rintro slot slot' read read' q r q' r' e hq ⟨ctx, ref, s, m, hlayer, hsample⟩ hr
      ⟨ctx', ref', s', m', hlayer', hsample'⟩ he hunlaid
    obtain ⟨t, ht, i, rfl, htakes⟩ :=
      Context.acquireLayer_takes (hq.sound ready_init.sound) hlayer hsample
    have hafter := (hq.evolves ht).step htakes.step
    have hq' := hafter.trans hr
    obtain ⟨t', ht', j, rfl, htakes'⟩ :=
      Context.acquireLayer_takes (hq'.sound ready_init.sound) hlayer' hsample'
    have hlast : t'.Reaches e := .trans (.step (.refl t') htakes'.step) he
    -- The first layer is in use where the second is taken.
    have hfirst : t'.HasLayer stack i slot := hafter.hasLayer (hr.evolves ht')
      (hunlaid.before hlast) (htakes.hasLayer (hq.evolves ht).roomy)
    have hsecond : r'.HasLayer stack j slot' := htakes'.hasLayer (hq'.evolves ht').roomy
    exact ⟨i, j, rfl, rfl, htakes'.lt_of_hasLayer hfirst,
      (hq'.evolves ht').hasLayer hlast hunlaid hfirst,
      ((hq'.evolves ht').step htakes'.step).hasLayer he hunlaid hsecond⟩

/-- Two samples of a virtual texture at the same coordinates. -/
def sampledTwice : Graph where
  nodes := [.textureSample { sampler := .virtualColor },
    .textureSample { sampler := .virtualColor }]

/-- The texture that they read. -/
def sampledRef : TextureRef := ⟨.asset, "", 0, .virtualColor, -1, -1⟩

/-- What a sample of it needs before it looks for a stack. -/
def Context.sampledOperands (ctx : Context) : PassM Code := do
  let texture ← ctx.texture 0 .virtualColor .automatic
  let coordinate ← ctx.textureCoordinate 0 .none
  let _ ← ctx.widened texture .textureVirtual
  let _ ← ctx.widened coordinate .float2
  return coordinate

theorem Context.sampledOperands_safe (ctx : Context) : Safe ctx.sampledOperands :=
  (safe_of_sounding fun _ => ctx.sounding.texture 0 (.inl trivial) .automatic).bind fun _ =>
    (safe_of_sounding fun _ => ctx.sounding.textureCoordinate 0 .none).bind fun _ =>
      (widened_safe _ _).bind fun _ => (widened_safe _ _).bind fun _ => .pure _

set_option synthInstance.maxSize 1024 in
/-- Two layers were taken for its slot. The second one is taken where the pixel stage compiles the
second sample, and sampled again it takes another. -/
theorem Graph.layers_taken_sampledTwice :
    ∃ o p q c r s t, run layeredMaterial (some sampledTwice.expressions) {} = .ok o p ∧
      p.Taken 0 0 0 ∧ p.Taken 0 1 0 ∧ Reaches {} q ∧ q.Reaches p ∧
      q.layeredReader.sampledOperands q = .ok c r ∧
      q.layeredReader.acquireLayer sampledRef 0 (laidOut (none, c)) laidOutMip r =
        .ok (some (1, 0)) s ∧
      q.layeredReader.acquireLayer sampledRef 0 (laidOut (none, c)) laidOutMip s =
        .ok (some (2, 0)) t ∧ t.HasLayer 0 1 0 ∧ t.HasLayer 0 2 0 := by
  obtain ⟨o, p, h, hstacks, q, hq, c, r, hr, found, s, hs, rfl, found', t, ht, rfl, hentries,
      hvirtuals⟩ :
      ∃ o p, run layeredMaterial (some sampledTwice.expressions) {} = .ok o p ∧
        o.slots.layerStacks[0]? = some ⟨[0, 0, -1, -1, -1, -1, -1, -1], 2, -1⟩ ∧
        ∃ q, run layeredMaterial (some (sampledTwice.barred 1 .noSuchStage)) {} =
          .error .noSuchStage q ∧
        ∃ c r, q.layeredReader.sampledOperands q = .ok c r ∧
        ∃ found s, q.layeredReader.acquireLayer sampledRef 0 (laidOut (none, c)) laidOutMip r =
          .ok found s ∧ found = some (1, 0) ∧
        ∃ found' t, q.layeredReader.acquireLayer sampledRef 0 (laidOut (none, c)) laidOutMip s =
          .ok found' t ∧ found' = some (2, 0) ∧ t.stackEntries = q.stackEntries ∧
          t.slots.texturesVirtual = q.slots.texturesVirtual := by
    decide +kernel
  obtain ⟨-, htakes⟩ := layers_taken sampledTwice layeredMaterial (by decide) h hstacks rfl
  obtain ⟨hreached, hrest⟩ := barred_waypoint h hq
  have hevolves := (Context.sampledOperands_safe _).gives (hreached.sound ready_init.sound) _ _ hr
  have hunlaid : t.Unlaid 0 := by
    rintro entry slot ref hentry ⟨u, hu, href⟩
    exact htakes.unlaid.before hrest entry slot ref (hentries ▸ hentry)
      ⟨u, (show _ = q.slots.texturesVirtual from hvirtuals) ▸ hu, href⟩
  obtain ⟨i, j, hi, hj, -, hfirst, hsecond⟩ := htakes.later 0 0 1 2 r s s t t
    (hreached.evolves hevolves) ⟨_, _, _, _, by decide, hs⟩ (.refl s) ⟨_, _, _, _, by decide, ht⟩
    (.refl t) hunlaid
  obtain rfl : 1 = i := by omega
  obtain rfl : 2 = j := by omega
  exact ⟨o, p, q, c, r, s, t, h, (htakes.has_iff 0 0).mp ⟨by decide, rfl⟩,
    (htakes.has_iff 1 0).mp ⟨by decide, rfl⟩, hreached, hrest, hr, hs, ht, hfirst, hsecond⟩

/-- The texture has one slot, and two layers of its stack are bound to it. -/
theorem Graph.run_sampledTwice :
    ∃ o p, run layeredMaterial (some sampledTwice.expressions) {} = .ok o p ∧ o.success = true ∧
      o.slots.layerStacks = [⟨[0, 0, -1, -1, -1, -1, -1, -1], 2, -1⟩] := by
  decide +kernel

end ShaderGraph
