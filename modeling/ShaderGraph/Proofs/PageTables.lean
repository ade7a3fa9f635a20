import ShaderGraph.Proofs.EmissionContracts
import ShaderGraph.Proofs.StackAcquisition

/-!
# Samples and the page tables they share

A page table that was looked up once is read by later samples too. The code of the lookup is kept
with its stack, and a stack is only found in the scope it was made in, so the code is read in its
own scope. While the lookup for a new stack is emitted, the stack has no entry yet; before and after
that the stacks are in order (`Context.acquireStack_meets`).
-/

namespace ShaderGraph

open Pass

namespace Context

variable {t : Terms} {ctx : Context} {p q : Pass} {c : Code} {type : ValueType}
variable {l : Lookup} {slot : Int} {s : Sample} {ref : TextureRef} {m : MipChoice} {d : Chunk}
variable {u : SharedUniform}

/-! ### Stacks -/

/-- What a lookup is made with is in the scope of the context. -/
structure Lookup.Points (ctx : Context) (l : Lookup) (p : Pass) : Prop where
  coordinate : ctx.Points l.coordinate p
  mip : ctx.Points l.mip p
  mipY : ctx.Points l.mipY p

theorem Lookup.Points.mono (h : l.Points ctx p) (hq : Since p q) : l.Points ctx q :=
  ⟨h.coordinate.mono hq, h.mip.mono hq, h.mipY.mono hq⟩

theorem Lookup.Points.reading (h : l.Points ctx p) :
    (meeting t ctx).Reading false [l.coordinate, l.mip, l.mipY] .pageTableResult [] p :=
  .cons h.coordinate.given (.cons h.mip.given (.cons h.mipY.given (.nil nofun)))

theorem emitLookup_meets (i : Nat) (h : l.Points ctx p) :
    ctx.Meets t p (ctx.emitLookup i l) fun c q => ∃ d, ctx.Sees c d q := by
  refine Meets.mono ((meeting t ctx).emitLookup i h.reading) fun c q _ ⟨hc, hsome⟩ => ?_
  exact (concerns_points.1 hc.toPoints).sees (by simp [hsome trivial])

/-- A step that leaves the stacks alone. -/
theorem Meets.keeping {α : Type} {m : PassM α} {Q : α → Pass → Prop} (h : ctx.Meets t p m Q)
    (hm : Plain m) : ctx.Meets t p m fun a q => Q a q ∧ q.kept = p.kept := by
  refine fun hp => ⟨fun a q hq => ?_, (h hp).2⟩
  obtain ⟨hfit, hlater, ha⟩ := (h hp).1 a q hq
  exact ⟨hfit, hlater, ha, (hm.remains a q hq).kept rfl⟩

/-- The stack at a place was made in the scope of the context. -/
def Owns (ctx : Context) (i : Nat) (p : Pass) : Prop :=
  ∀ entry, p.stackEntries[i]? = some entry → entry.key.scope = ctx.scope

/-- The stack at a place has a free layer, and was made for textures with an index. -/
def HasRoom (i : Nat) (preallocated : Int) (p : Pass) : Prop :=
  ∃ s, p.slots.layerStacks[i]? = some s ∧ s.isFull = false ∧ s.preallocated = preallocated

/-- A stack is added for a key that no other can be used for. -/
theorem addStack_meets (h : l.Points ctx p) {key : StackKey} (hscope : key.scope = ctx.scope)
    (hindex : key.preallocated = l.preallocated)
    (hnone : t.ordered → ∀ i, ¬p.Usable key i) :
    ctx.Meets t p (ctx.addStack key l p.stackEntries.length)
      fun i q => ctx.Owns i q ∧ (t.ordered → HasRoom i l.preallocated q) := by
  intro hp
  -- The lists of stacks and of entries are uneven until the entry is there.
  let t' : Terms := { t with ordered := False }
  let p' : Pass := { p with
    stackBuckets := p.stackBuckets.add key.digest p.stackEntries.length,
    slots := { p.slots with
      layerStacks := p.slots.layerStacks ++ [LayerStack.fresh l.preallocated] } }
  have hsane : p.Sane t' ctx.env := hp.toSane.of_lax rfl rfl False.elim
  have hp' : p'.Fit t' ctx.env ctx.scope :=
    { hsane with stacked := False.elim, placed := hp.placed, audible := hp.audible }
  have hrest : ctx.Meets t' p' (do
      note .debug "allocated virtual texture stack"
        [("stack", toString p.stackEntries.length), ("mode", toString l.mode.code),
         ("preallocated", toString l.preallocated)]
      let pageTable ← ctx.emitLookup p.stackEntries.length l
      modify fun p => { p with stackEntries := p.stackEntries ++ [⟨key, pageTable⟩] }
      return p.stackEntries.length)
      fun i q => i = p.stackEntries.length ∧ q.slots.layerStacks = p'.slots.layerStacks ∧
        q.stackBuckets = p'.stackBuckets ∧
        ∃ pageTable, q.stackEntries = p.stackEntries ++ [⟨key, pageTable⟩] := by
    refine ((note_meets _ (by decide) _).keeping (.note _ _ _)).bind
      fun _ q₁ h₁ hkept₁ => ?_
    have h₁ : Since p q₁ := Since.trans ((Since.refl p).of_ground_eq (by rfl)) h₁.toSince
    refine ((emitLookup_meets _ (h.mono h₁)).keeping (emitLookup_plain _ _)).bind
      fun pageTable q₂ h₂ hpageTable => ?_
    obtain ⟨⟨d, i, rfl, hi⟩, hkept₂⟩ := hpageTable
    have hkept : q₂.kept = p'.kept := hkept₂.trans hkept₁.2
    have hentries : q₂.stackEntries = p.stackEntries := congrArg StackState.entries hkept
    refine .update_bind (fun hq => { hq with
      pageTables := fun e he => ?_, stacked := False.elim }) (.of_ground_eq rfl)
      (.pure ⟨rfl, congrArg StackState.layers hkept, congrArg StackState.buckets hkept, some i,
        congrArg (· ++ _) hentries⟩)
    rcases List.mem_append.1 he with he | he
    · exact hq.pageTables e he
    · obtain rfl := List.mem_singleton.1 he
      exact ⟨i, rfl, hscope ▸ (List.getElem?_eq_some_iff.1 hi).1⟩
  obtain ⟨hok, herror⟩ := hrest hp'
  refine ⟨fun i q hq => ?_, herror⟩
  obtain ⟨hfit, hlater, rfl, hstacks, hbuckets, pageTable, hentries⟩ := hok i q hq
  have hlater : Later p q := (Later.of_ground_eq (p := p) (q := p') rfl).trans hlater
  have hsane : q.Sane t ctx.env := hfit.toSane.of_lax rfl rfl fun ht =>
    (hp.stacked ht).add (hnone ht) hentries (hindex ▸ hstacks) hbuckets hlater.virtuals
  refine ⟨{ hsane with placed := hfit.placed, audible := hfit.audible }, hlater,
    fun entry hentry => ?_, fun ht => ?_⟩
  · rw [hentries, List.getElem?_concat_length] at hentry
    cases hentry
    exact hscope
  · refine ⟨_, ?_, LayerStack.isFull_fresh _, rfl⟩
    rw [hstacks, (hp.stacked ht).even]
    exact List.getElem?_concat_length

/-- **A stack is acquired** in the scope it was made in, so its page table can be read there; and it
has a free layer. -/
theorem acquireStack_meets (h : l.Points ctx p) :
    ctx.Meets t p (ctx.acquireStack l) fun i q =>
      ctx.Owns i q ∧ (t.ordered → HasRoom i l.preallocated q) := by
  refine Meets.bind ((meeting t ctx).stackKey h.reading) fun key q hq ⟨hscope, hindex⟩ =>
    .get_bind (.of_fit fun hp => ?_)
  split
  case h_1 i hi =>
    obtain ⟨entry, s, hentry, hs, hagrees, hroom⟩ := usable_of_findStack? hi
    refine .pure ⟨fun other hother => ?_, fun ht => ⟨s, hs, hroom, ?_⟩⟩
    · cases hentry.symm.trans hother
      exact (StackKey.scope_eq_of_agrees hagrees).trans hscope
    · rw [(hp.stacked ht).laidOut hentry hs, StackKey.preallocated_eq_of_agrees hagrees, hindex]
  case h_2 hnone =>
    exact addStack_meets (h.mono hq.toSince) hscope hindex fun ht =>
      (hp.stacked ht).findStack?_eq_none_iff.mp hnone

/-- The page table of a stack is read in its own scope. -/
theorem Owns.points {i : Nat} (h : ctx.Owns i p) {env : Environment} (hp : p.Sane t env) :
    ctx.Points (p.stackEntries[i]?.bind (·.pageTable)) p := by
  intro j hj
  obtain ⟨entry, hentry, hpageTable⟩ := Option.bind_eq_some_iff.1 hj
  have hlt := hp.pageTable_lt (List.mem_of_getElem? hentry) hpageTable
  rwa [h entry hentry] at hlt

theorem Owns.of_eq {i : Nat} (h : ctx.Owns i p) (hq : q.stackEntries = p.stackEntries) :
    ctx.Owns i q := fun entry hentry => h entry (hq ▸ hentry)

/-- A step that binds a slot to a layer. -/
theorem Meets.of_binds {α : Type} {m : PassM α} {a : α} {k layer : Nat} {s bound : LayerStack}
    (hs : p.slots.layerStacks[k]? = some s) (hbound : s.Binds layer slot bound)
    (hslot : slot < p.slots.texturesVirtual.length)
    (hnext : t.marked → s.preallocated = -1 → layer ≤ s.used)
    (hm : m p = .ok a (p.withLayers k bound)) :
    ctx.Meets t p m fun b q => b = a ∧ q.stackEntries = p.stackEntries :=
  .of_eq hm (fun hp => { hp with
    stacked := fun ht => (hp.stacked ht).withLayers hs hbound hslot hnext }) (.of_ground_eq rfl)
    ⟨rfl, rfl⟩

/-- **A layer is acquired** in a stack that was made in the scope of the context. -/
theorem acquireLayer_scoped {x : Int × Nat} (h : ctx.acquireLayer ref slot s m p = .ok (some x) q) :
    ∃ entry, q.stackEntries[x.2]? = some entry ∧ entry.key.scope = ctx.scope := by
  unfold acquireLayer at h
  dsimp only at h
  split at h
  · obtain ⟨stack, p₁, hstack, hrest⟩ := exists_of_bind h
    split at hrest
    · obtain ⟨_, _, -, hnone⟩ := exists_of_bind hrest
      cases hnone
    · obtain ⟨_, p₂, hbind, hrest⟩ := exists_of_bind hrest
      cases hrest
      obtain ⟨entry, hentry, hscope, -⟩ := acquireStack_key hstack
      obtain ⟨_, _, -, -, rfl⟩ := bindLayer_ok hbind
      exact ⟨entry, hentry, hscope⟩
  · obtain ⟨stack, p₁, hstack, hrest⟩ := exists_of_bind h
    obtain ⟨layer, p₂, htake, hrest⟩ := exists_of_bind hrest
    obtain ⟨_, p₃, hbind, hrest⟩ := exists_of_bind hrest
    cases hrest
    obtain ⟨entry, hentry, hscope, -⟩ := acquireStack_key hstack
    obtain ⟨_, _, -, -, rfl⟩ := takeLayer_ok htake
    obtain ⟨_, _, -, -, rfl⟩ := bindLayer_ok hbind
    exact ⟨entry, hentry, hscope⟩

/-! ### Samples -/

/-- A mip level can be used: what is given is in the scope, and derivatives are given. -/
structure MipChoice.Points (ctx : Context) (m : MipChoice) (p : Pass) : Prop where
  mip : ctx.Points m.mip p
  mipY : ctx.Points m.mipY p

theorem MipChoice.Points.mono (h : MipChoice.Points ctx m p) (hq : Since p q) :
    MipChoice.Points ctx m q := ⟨h.mip.mono hq, h.mipY.mono hq⟩

/-- A layer of a stack of the scope; without one, that is reported. -/
theorem acquireLayer_meets (ht : t.ordered)
    (hslot : 0 ≤ slot ∧ slot < p.slots.texturesVirtual.length) (hindex : t.marked → ref.index ≠ -1)
    (hcoordinate : ctx.Points s.coordinate p) (hm : MipChoice.Points ctx m p) :
    ctx.Meets t p (ctx.acquireLayer ref slot s m) fun found q =>
      (t.loud → found = none → q.success = false) ∧ ∀ x, found = some x → ctx.Owns x.2 q := by
  have hlater : ∀ {q : Pass}, Later p q → slot < q.slots.texturesVirtual.length := fun hq => by
    have hle := hq.virtuals.length_le
    omega
  have hlookup : ∀ mode addressU addressV aspect preallocated, Lookup.Points ctx
      ⟨mode, addressU, addressV, aspect, s.coordinate, m.mip, m.mipY, preallocated⟩ p :=
    fun _ _ _ _ _ => ⟨hcoordinate, hm.mip, hm.mipY⟩
  unfold acquireLayer
  dsimp only
  split
  case isTrue hfixed =>
    refine (acquireStack_meets (hlookup ..)).bind fun stack q hq ⟨hstack, hroom⟩ => ?_
    split
    · exact (report_meets _).bind fun _ q' _ hq' =>
        .pure ⟨fun hloud _ => hq'.2 hloud, fun x h => by cases h⟩
    case isFalse hlt =>
      obtain ⟨before, hs, -, hsame⟩ := hroom ht
      obtain ⟨bound, hset⟩ := before.exists_setLayer hslot.1 hfixed (Int.not_le.1 hlt)
      refine (Meets.of_binds hs (.of_setLayer hset) (hlater hq) (fun hmarked hfree => ?_)
        (bindLayer_eq hs hset)).bind fun _ q' _ hkept => ?_
      · exact absurd (hsame.symm.trans hfree) (hindex hmarked)
      · refine .pure ⟨fun _ => nofun, fun x h => ?_⟩
        cases h
        exact hstack.of_eq hkept.2
  case isFalse =>
    refine (acquireStack_meets (hlookup ..)).bind fun stack q hq ⟨hstack, hroom⟩ => ?_
    obtain ⟨before, hs, hfree, -⟩ := hroom ht
    refine .of_fit fun hp => ?_
    have htaken : before.addLayer = .ok (before.used, { before with used := before.used + 1 }) :=
      if_neg (by simp [hfree])
    have hlt : before.used < maxLayers := by
      have hle := ((hp.stacked ht).formed before (List.mem_of_getElem? hs)).used_le
      have hne : before.used ≠ maxLayers := fun h => by simp [LayerStack.isFull, h] at hfree
      omega
    obtain ⟨bound, hset⟩ := LayerStack.exists_setLayer { before with used := before.used + 1 }
      hslot.1 (Int.natCast_nonneg before.used) (by omega)
    have hbind : bindLayer stack before.used slot
        (q.withLayers stack { before with used := before.used + 1 }) =
          .ok () (q.withLayers stack bound) := by
      rw [bindLayer_eq (getElem?_withLayers _ hs) hset, withLayers_withLayers]
    refine (Meets.of_binds hs (.of_addLayer htaken hset) (hlater hq) (fun _ _ => Nat.le_refl _)
      ((bind_of_ok (changeStack_eq hs htaken)).trans (bind_of_ok hbind))).mono
      fun found q' _ ⟨hfound, hkept⟩ => ?_
    subst hfound
    refine ⟨fun _ => nofun, fun x h => ?_⟩
    cases h
    exact hstack.of_eq hkept

/-- The text of a virtual texture is that of its slot. -/
theorem widened_hasSlot (hd : ctx.Sees c d p) (htype : d.type = .textureVirtual)
    (hu : d.deferred? = some u) :
    ctx.Meets t p (ctx.widened c .textureVirtual) fun _ q => q.slots.HasSlot u := by
  refine .read (typeOf_eq hd) ?_
  rw [if_pos htype]
  obtain ⟨i, rfl, hi⟩ := hd
  refine .read (chunk_eq hi) ?_
  rw [if_pos (by simp [hu])]
  refine (readSlot_meets hi).bind fun r q _ ⟨⟨d', ⟨j, hj, hd'⟩, _⟩, hslot⟩ => ?_
  subst hj
  exact .read (chunk_eq hd') (.pure (hslot htype u hu))

/-- The reference that a chunk of a virtual texture stands for. -/
theorem deferred?_of_textureReference (h : textureReference d.uniform? = .ok (u, ref)) :
    d.deferred? = some u ∧ u.expr = .texture ref := by
  unfold textureReference at h
  split at h
  · cases h
  case h_2 v hv =>
    split at h
    case h_1 hexpr =>
      obtain ⟨rfl, rfl⟩ := Prod.mk.inj (Except.ok.inj h)
      exact ⟨Option.filter_eq_some_iff.2 ⟨hv, by simp [hexpr, Uniform.isConstant]⟩, hexpr⟩
    · cases h

theorem sampleVirtual_holds (ht : t.ordered) (hd : ctx.Sees s.texture d p)
    (htype : d.type = .textureVirtual) (hcoordinate : ctx.Points s.coordinate p)
    (hm : MipChoice.Points ctx m p) : ctx.Meets t p (ctx.sampleVirtual s m) (ctx.Holds t) := by
  have hmips : (meeting t ctx).Reading false [m.mip, m.mipY] .float [] p :=
    .cons hm.mip.given (.cons hm.mipY.given (.nil nofun))
  refine .of_fit fun hp => Meets.bind ((meeting t ctx).mipTexts hmips (by simp) (by simp) .float2)
    fun _ q₁ h₁ _ => ?_
  have hfits := hd.fits hp.toSane
  have hd₁ := hd.mono h₁.toSince
  cases href : textureReference d.uniform? with
  | error problem =>
    refine (widened_meets hd₁.points _).bind fun _ q₂ h₂ _ => ?_
    refine .read (uniformOf_eq (hd₁.mono h₂.toSince)) ?_
    rw [href]
    exact report_holds _
  | ok found =>
    obtain ⟨u, ref⟩ := found
    obtain ⟨hdeferred, hexpr⟩ := deferred?_of_textureReference href
    have hindex : t.marked → ref.index ≠ -1 := by
      intro hmarked
      obtain ⟨other, hother, hallowed⟩ :=
        hfits.texture u (uniform?_of_deferred? hdeferred) (htype ▸ by decide)
      obtain rfl := Uniform.texture.inj (hexpr.symm.trans hother)
      rcases hallowed with hnames | ⟨-, -, hlaid⟩
      · have hnonneg := hnames.1
        omega
      · exact hmarked _ hlaid
    refine (widened_hasSlot hd₁ htype hdeferred).bind fun _ q₂ h₂ hslot => ?_
    refine .read (uniformOf_eq (hd₁.mono h₂.toSince)) ?_
    have h₂ := (h₁.trans h₂).toSince
    rw [href]
    refine .get_bind (.modify_bind rfl ?_)
    refine (widened_meets ?_ _).bind fun _ q₃ h₃ _ => ?_
    · exact hcoordinate.mono (h₂.of_ground_eq rfl)
    have hslot : 0 ≤ q₂.slots.virtualSlot u ∧
        q₂.slots.virtualSlot u < q₃.slots.texturesVirtual.length := by
      have hle := h₃.virtuals.length_le
      obtain ⟨hnonneg, hlt⟩ := hslot.virtualSlot
      exact ⟨hnonneg, Int.lt_of_lt_of_le hlt (Int.ofNat_le.2 hle)⟩
    have h₃ : Since p q₃ := Since.trans (h₂.of_ground_eq (by rfl)) h₃.toSince
    refine (acquireLayer_meets ht hslot hindex (hcoordinate.mono h₃) (hm.mono h₃)).bind
      fun found q₄ _ hfound => ?_
    split
    · exact .pure (.of_failed fun hloud => hfound.1 hloud rfl)
    · refine .of_fit fun hp => .get_bind ?_
      refine (textOf_meets ((hfound.2 _ rfl).points hp.toSane)).bind fun pageTable q₅ _ _ => ?_
      exact .of_good ((meeting t ctx).emitSample False.elim
        (SamplerType.decode_ne_empty _ (by simp)))

theorem sample_holds (ht : t.ordered) (htexture : ctx.Holds t s.texture p)
    (hcoordinate : ctx.Holds t s.coordinate p) (hmip : ctx.Points s.mip p)
    (hmipY : ctx.Points s.mipY p) : ctx.Meets t p (ctx.sample s) (ctx.Holds t) := by
  refine .of_good ((meeting t ctx).sample htexture.good hcoordinate.good hmip.given hmipY.given
    fun q m hq htype hsome _ hm hmY => ?_)
  obtain ⟨i, hi⟩ := Option.isSome_iff_exists.1 hsome
  obtain ⟨d, hd, htype⟩ := htype.sees (.inl trivial) i hi
  exact (sampleVirtual_holds ht ⟨i, hi, hd⟩ htype (hcoordinate.1.mono hq.toSince)
    ⟨concerns_points.1 hm, concerns_points.1 hmY⟩).mono fun _ _ _ => concerns_holds.2

end Context

end ShaderGraph
