import ShaderGraph.Proofs.Coupling

/-!
# Stacks in order

What is kept of the stacks is in two lists, one with the keys and one with the layers, and the
places in them are found by the digests of the keys. `Pass.Stacked` says what samples keep of them:
the lists are of one length, what is found by a digest are the places of the keys that have it, a
key comes a second time only once all stacks with it are full, and what is bound to the layers are
slots of virtual textures, with the free layers behind those in use. Keys that agree have one
digest, so no stack is missed, and the one that is found is the only one with its key that is not
full.
-/

namespace ShaderGraph

/-! ### Slots -/

/-- A virtual texture has a slot. -/
def UniformSet.HasSlot (set : UniformSet) (u : SharedUniform) : Prop :=
  ∃ e ∈ set.texturesVirtual, e.id = u.id

theorem UniformSet.HasSlot.virtualSlot {set : UniformSet} {u : SharedUniform} (h : set.HasSlot u) :
    0 ≤ set.virtualSlot u ∧ set.virtualSlot u < set.texturesVirtual.length := by
  obtain ⟨e, he, hid⟩ := h
  unfold UniformSet.virtualSlot
  split
  case h_1 i hi =>
    obtain ⟨hlt, -⟩ := List.findIdx?_eq_some_iff_getElem.mp hi
    omega
  case h_2 hnone =>
    have hdiffers := List.findIdx?_eq_none_iff.mp hnone e he
    simp [hid] at hdiffers

/-! ### Layers -/

namespace LayerStack

variable {s bound taken : LayerStack} {n m layer : Nat} {texture : Int}

/-- What binding a layer does. -/
theorem setLayer_ok {layer : Int} (h : s.setLayer layer texture = .ok bound) :
    0 ≤ texture ∧ 0 ≤ layer ∧ layer < maxLayers ∧
      bound.layers = s.layers.set layer.toNat texture ∧
      bound.used = max (layer.toNat + 1) s.used ∧ bound.preallocated = s.preallocated := by
  unfold setLayer at h
  split at h
  case isTrue => cases h
  case isFalse hvalid =>
    simp only [Bool.or_eq_true, decide_eq_true_eq, not_or] at hvalid
    cases h
    exact ⟨by omega, by omega, by omega, rfl, rfl, rfl⟩

/-- A slot can be bound to every layer. -/
theorem exists_setLayer (s : LayerStack) {layer : Int} (htexture : 0 ≤ texture) (hlayer : 0 ≤ layer)
    (hlt : layer < maxLayers) : ∃ bound, s.setLayer layer texture = .ok bound := by
  refine ⟨_, if_neg ?_⟩
  simp only [Bool.or_eq_true, decide_eq_true_eq]
  omega

/-- The next layer is behind all that are in use. -/
theorem addLayer_ok (h : s.addLayer = .ok (n, taken)) :
    n = s.used ∧ taken.layers = s.layers ∧ taken.used = s.used + 1 ∧
      taken.preallocated = s.preallocated := by
  unfold addLayer at h
  split at h
  · cases h
  · obtain ⟨rfl, rfl⟩ := Prod.mk.inj (Except.ok.inj h)
    exact ⟨rfl, rfl, rfl, rfl⟩

/-- A stack as samples leave it, where there are `n` slots: the layers behind those in use are free,
and the last one in use is not. -/
structure Formed (n : Nat) (s : LayerStack) : Prop where
  length : s.layers.length = maxLayers
  used_le : s.used ≤ maxLayers
  slot : ∀ x ∈ s.layers, x = -1 ∨ 0 ≤ x ∧ x < n
  free : ∀ {i : Nat} {x : Int}, s.layers[i]? = some x → s.used ≤ i → x = -1
  last : s.used ≠ 0 → ∃ x, s.layers[s.used - 1]? = some x ∧ 0 ≤ x

/-- No layer in use is free. -/
def Filled (s : LayerStack) : Prop := ∀ i x, s.layers[i]? = some x → i < s.used → 0 ≤ x

/-- A slot is bound to a layer. -/
structure Binds (layer : Nat) (texture : Int) (s bound : LayerStack) : Prop where
  lt : layer < maxLayers
  valid : 0 ≤ texture
  layers : bound.layers = s.layers.set layer texture
  used : bound.used = max (layer + 1) s.used
  preallocated : bound.preallocated = s.preallocated

theorem Binds.of_setLayer {layer : Int} (h : s.setLayer layer texture = .ok bound) :
    s.Binds layer.toNat texture bound := by
  obtain ⟨hvalid, hnonneg, hlt, hlayers, hused, hsame⟩ := setLayer_ok h
  exact ⟨by omega, hvalid, hlayers, hused, hsame⟩

/-- The next layer is taken and bound. -/
theorem Binds.of_addLayer (htaken : s.addLayer = .ok (layer, taken))
    (h : taken.setLayer layer texture = .ok bound) : s.Binds s.used texture bound := by
  obtain ⟨rfl, hlayers, hused, hsame⟩ := addLayer_ok htaken
  have hbinds := Binds.of_setLayer h
  refine ⟨hbinds.lt, hbinds.valid, hlayers ▸ hbinds.layers, ?_, hbinds.preallocated.trans hsame⟩
  rw [hbinds.used, hused]
  omega

theorem isFull_fresh (preallocated : Int) : (fresh preallocated).isFull = false := rfl

namespace Formed

theorem mono (h : s.Formed n) (hle : n ≤ m) : s.Formed m :=
  { h with slot := fun x hx => (h.slot x hx).imp_right fun hx => ⟨hx.1, by omega⟩ }

theorem fresh (n : Nat) (preallocated : Int) : (LayerStack.fresh preallocated).Formed n := by
  refine ⟨List.length_replicate, Nat.zero_le _, fun x hx => .inl (List.eq_of_mem_replicate hx),
    fun {i x} hx _ => List.eq_of_mem_replicate (List.mem_of_getElem? hx), fun h => absurd rfl h⟩

theorem bind (h : s.Formed n) (hbound : s.Binds layer texture bound) (hslot : texture < n) :
    bound.Formed n := by
  obtain ⟨hlt, hvalid, hlayers, hused, -⟩ := hbound
  have hle := h.used_le
  have hlength := h.length
  refine ⟨?_, by omega, fun x hx => ?_, fun {i x} hx hi => ?_, fun _ => ?_⟩
  · rw [hlayers, List.length_set, hlength]
  · rw [hlayers] at hx
    rcases List.mem_or_eq_of_mem_set hx with hx | rfl
    · exact h.slot x hx
    · exact .inr ⟨hvalid, hslot⟩
  · rw [hlayers, List.getElem?_set_ne (by omega)] at hx
    exact h.free hx (by omega)
  · by_cases hlast : bound.used - 1 = layer
    · exact ⟨texture, by rw [hlast, hlayers, List.getElem?_set_self (by omega)], hvalid⟩
    · have hsame : bound.used = s.used := by omega
      rw [hlayers, List.getElem?_set_ne (by omega), hsame]
      exact h.last (by omega)

/-- A stack is full once its last layer is bound. -/
theorem isFull_iff (h : s.Formed n) :
    s.isFull ↔ ∃ x, s.layers[maxLayers - 1]? = some x ∧ 0 ≤ x := by
  have hle := h.used_le
  constructor
  · intro hfull
    obtain heq : s.used = maxLayers := eq_of_beq hfull
    exact heq ▸ h.last (by rw [heq]; decide)
  · rintro ⟨x, hx, hvalid⟩
    by_contra hroom
    have hne : s.used ≠ maxLayers := fun heq => hroom (beq_iff_eq.mpr heq)
    have hfree := h.free hx (by omega)
    omega

end Formed

theorem Filled.fresh (preallocated : Int) : (LayerStack.fresh preallocated).Filled :=
  fun _ _ _ h => absurd h (Nat.not_lt_zero _)

theorem Filled.bind (h : s.Filled) (hbound : s.Binds layer texture bound) (hle : layer ≤ s.used) :
    bound.Filled := by
  intro i x hx hi
  obtain ⟨-, hvalid, hlayers, hused, -⟩ := hbound
  rw [hlayers] at hx
  by_cases heq : layer = i
  · subst heq
    obtain ⟨hlt, hget⟩ := List.getElem?_eq_some_iff.mp hx
    rw [List.getElem_set_self] at hget
    exact hget ▸ hvalid
  · rw [List.getElem?_set_ne heq] at hx
    exact h i x hx (by omega)

theorem Binds.isFull (hbound : s.Binds layer texture bound) (h : s.isFull) : bound.isFull := by
  have hlt := hbound.lt
  have heq : s.used = maxLayers := eq_of_beq h
  refine beq_iff_eq.mpr ?_
  rw [hbound.used]
  omega

end LayerStack

/-! ### Binding -/

namespace Context

open Pass

variable {p q : Pass} {stack : Nat} {layer : Nat}

/-- What a change of a stack does. -/
theorem changeStack_ok {α : Type} {change : LayerStack → Except Fault (α × LayerStack)} {a : α}
    (h : changeStack stack change p = .ok a q) :
    ∃ s changed, p.slots.layerStacks[stack]? = some s ∧ change s = .ok (a, changed) ∧
      q = p.withLayers stack changed := by
  obtain ⟨_, _, hget, h⟩ := exists_of_bind h
  cases hget
  cases hs : p.slots.layerStacks[stack]? with
  | none =>
    simp only [hs] at h
    cases h
  | some s =>
    simp only [hs, Option.elim] at h
    cases hchanged : change s with
    | error fault =>
      simp only [hchanged] at h
      cases h
    | ok found =>
      simp only [hchanged] at h
      cases h
      exact ⟨s, found.2, rfl, hchanged, rfl⟩

theorem takeLayer_ok (h : takeLayer stack p = .ok layer q) :
    ∃ s taken, p.slots.layerStacks[stack]? = some s ∧ s.addLayer = .ok (layer, taken) ∧
      q = p.withLayers stack taken := changeStack_ok h

theorem bindLayer_ok {layer texture : Int} {a : Unit}
    (h : bindLayer stack layer texture p = .ok a q) :
    ∃ s bound, p.slots.layerStacks[stack]? = some s ∧ s.setLayer layer texture = .ok bound ∧
      q = p.withLayers stack bound := by
  obtain ⟨s, bound, hs, hbound, hq⟩ := changeStack_ok h
  refine ⟨s, bound, hs, ?_, hq⟩
  cases hset : s.setLayer layer texture with
  | error fault => simp [hset, Except.map] at hbound
  | ok found =>
    rw [hset] at hbound
    exact congrArg Except.ok (Prod.mk.inj (Except.ok.inj hbound)).2

theorem getElem?_withLayers {s : LayerStack} (bound : LayerStack)
    (hs : p.slots.layerStacks[stack]? = some s) :
    (p.withLayers stack bound).slots.layerStacks[stack]? = some bound := by
  obtain ⟨hlt, -⟩ := List.getElem?_eq_some_iff.mp hs
  exact List.getElem?_set_self hlt

theorem withLayers_withLayers (p : Pass) (stack : Nat) (s t : LayerStack) :
    (p.withLayers stack s).withLayers stack t = p.withLayers stack t := by
  simp only [withLayers, List.set_set]

theorem changeStack_eq {α : Type} {change : LayerStack → Except Fault (α × LayerStack)} {a : α}
    {s changed : LayerStack} (hs : p.slots.layerStacks[stack]? = some s)
    (h : change s = .ok (a, changed)) :
    changeStack stack change p = .ok a (p.withLayers stack changed) := by
  unfold changeStack
  rw [get_bind_eq, hs, Option.elim, h]
  rfl

/-- A layer that can be bound is. -/
theorem bindLayer_eq {s bound : LayerStack} {layer texture : Int}
    (hs : p.slots.layerStacks[stack]? = some s) (h : s.setLayer layer texture = .ok bound) :
    bindLayer stack layer texture p = .ok () (p.withLayers stack bound) :=
  changeStack_eq hs (by rw [h]; rfl)

end Context

/-! ### Keys -/

/-- The whole part of a thousand zeros is zero, whatever the sign. -/
theorem Single.wholePart_mul_thousand {x : Single} (h : x.isZero) :
    (x.mul .thousand).wholePart = 0 := by
  have hx : x = .signedZero x.negative := by
    refine eq_of_negative_of_code ?_ ((eq_of_beq h).trans ?_)
    · cases x.negative <;> rfl
    · cases x.negative <;> rfl
  rw [hx]
  cases x.negative <;> decide +kernel

namespace StackKey

variable {a b c : StackKey}

theorem agrees_iff : a.agrees b ↔
    { a with aspect := Single.zero } = { b with aspect := Single.zero } ∧
      a.aspect.equal b.aspect := by
  cases a
  cases b
  simp only [agrees, Bool.and_eq_true, beq_iff_eq, mk.injEq, true_and]
  tauto

theorem agrees_symm (h : a.agrees b) : b.agrees a := by
  rw [agrees_iff] at h ⊢
  exact ⟨h.1.symm, Single.equal_comm _ _ ▸ h.2⟩

theorem agrees_trans (h : a.agrees b) (h' : b.agrees c) : a.agrees c := by
  rw [agrees_iff] at h h' ⊢
  exact ⟨h.1.trans h'.1, Single.equal_trans h.2 h'.2⟩

/-- Keys that agree have one digest: their aspects differ in the sign of a zero at most. -/
theorem digest_eq_of_agrees (h : a.agrees b) : a.digest = b.digest := by
  obtain ⟨hrest, haspect⟩ := agrees_iff.mp h
  have hwhole : (a.aspect.mul .thousand).wholePart = (b.aspect.mul .thousand).wholePart := by
    rcases Single.upToSign_of_equal haspect with heq | ⟨ha, hb⟩
    · rw [heq]
    · rw [Single.wholePart_mul_thousand ha, Single.wholePart_mul_thousand hb]
  cases a
  cases b
  simp only [mk.injEq, true_and] at hrest
  simp only [digest, hwhole, hrest]

theorem scope_eq_of_agrees (h : a.agrees b) : a.scope = b.scope := by
  simpa using congrArg scope (agrees_iff.mp h).1

theorem preallocated_eq_of_agrees (h : a.agrees b) : a.preallocated = b.preallocated := by
  simpa using congrArg preallocated (agrees_iff.mp h).1

end StackKey

/-! ### Stacks -/

namespace Pass

variable {p q : Pass} {marked : Prop} {key : StackKey} {i j : Nat}

/-- A stack can be used for a key: it has the key, and a free layer. -/
def Usable (p : Pass) (key : StackKey) (i : Nat) : Prop :=
  ∃ entry s, p.stackEntries[i]? = some entry ∧ p.slots.layerStacks[i]? = some s ∧
    entry.key.agrees key ∧ s.isFull = false

/-- The places of the entries whose keys have a digest, in order. -/
def digestPlaces (entries : List StackEntry) (d : Digest) : List Nat :=
  (entries.zipIdx.filter (·.1.key.digest == d)).map (·.2)

theorem digestPlaces_concat (entries : List StackEntry) (entry : StackEntry) (d : Digest) :
    digestPlaces (entries ++ [entry]) d =
      digestPlaces entries d ++ if entry.key.digest = d then [entries.length] else [] := by
  by_cases h : entry.key.digest = d <;> simp [digestPlaces, List.zipIdx_append, h]

theorem places_add (b : Buckets) (d d' : Digest) (place : Nat) :
    (b.add d place).places d' = b.places d' ++ if d = d' then [place] else [] := by
  by_cases h : d = d'
  · subst h
    simp [Buckets.places, Buckets.add]
  · have hne : (d' == d) = false := beq_eq_false_iff_ne.mpr (Ne.symm h)
    simp [Buckets.places, Buckets.add, List.lookup_cons, hne, h]

/-- The stacks are in order. Unless the renderer is said to have laid out a texture without an
index, which `marked` rules out, the layers in use of the other stacks are bound. -/
structure Stacked (marked : Prop) (p : Pass) : Prop where
  even : p.stackEntries.length = p.slots.layerStacks.length
  laidOut : ∀ {i : Nat} {entry : StackEntry} {s : LayerStack}, p.stackEntries[i]? = some entry →
    p.slots.layerStacks[i]? = some s → s.preallocated = entry.key.preallocated
  /-- A key comes again only once the stacks with it are full. -/
  spent : ∀ {i j : Nat} {entry other : StackEntry} {s : LayerStack}, i < j →
    p.stackEntries[i]? = some entry → p.stackEntries[j]? = some other →
    entry.key.agrees other.key → p.slots.layerStacks[i]? = some s → s.isFull
  formed : ∀ s ∈ p.slots.layerStacks, s.Formed p.slots.texturesVirtual.length
  /-- What is found by a digest are the stacks whose keys have it. -/
  bucketed : ∀ d, p.stackBuckets.places d = digestPlaces p.stackEntries d
  filled : marked → ∀ s ∈ p.slots.layerStacks, s.preallocated = -1 → s.Filled

theorem isUsable_iff : Context.isUsable p key i ↔ p.Usable key i := by
  unfold Context.isUsable
  constructor
  · intro h
    obtain ⟨⟨entry, s⟩, hx, hfits⟩ := (Option.any_eq_true _ _).mp h
    obtain ⟨hentry, hs⟩ := List.getElem?_zip_eq_some.mp hx
    obtain ⟨hagrees, hroom⟩ : entry.key.agrees key ∧ s.isFull = false := by simpa using hfits
    exact ⟨entry, s, hentry, hs, hagrees, hroom⟩
  · rintro ⟨entry, s, hentry, hs, hagrees, hroom⟩
    have hx := List.getElem?_zip_eq_some (z := (entry, s)).mpr ⟨hentry, hs⟩
    simp [hx, hagrees, hroom]

theorem findStack?_of_kept_eq (h : q.kept = p.kept) (key : StackKey) :
    Context.findStack? q key = Context.findStack? p key := by
  have hentries : q.stackEntries = p.stackEntries := congrArg StackState.entries h
  have hstacks : q.slots.layerStacks = p.slots.layerStacks := congrArg StackState.layers h
  have hbuckets : q.stackBuckets = p.stackBuckets := congrArg StackState.buckets h
  unfold Context.findStack? Context.isUsable
  rw [hentries, hstacks, hbuckets]

/-- What is found can be used. -/
theorem usable_of_findStack? (h : Context.findStack? p key = some i) : p.Usable key i :=
  isUsable_iff.mp (List.find?_some (p := Context.isUsable p key) h)

namespace Stacked

theorem init : Stacked marked {} := by
  refine ⟨rfl, fun h => ?_, fun _ h => ?_, fun s hs => ?_, fun _ => rfl, fun _ s hs => ?_⟩ <;>
    first | cases h | cases hs

section

variable (hp : p.Stacked marked)

include hp

/-- What leaves the stacks alone leaves them in order. -/
theorem of_eq (hkept : q.kept = p.kept)
    (hvirtuals : p.slots.texturesVirtual <+: q.slots.texturesVirtual) : q.Stacked marked := by
  have hentries : q.stackEntries = p.stackEntries := congrArg StackState.entries hkept
  have hstacks : q.slots.layerStacks = p.slots.layerStacks := congrArg StackState.layers hkept
  have hbuckets : q.stackBuckets = p.stackBuckets := congrArg StackState.buckets hkept
  constructor
  · rw [hentries, hstacks]
    exact hp.even
  · rw [hentries, hstacks]
    exact hp.laidOut
  · rw [hentries, hstacks]
    exact hp.spent
  · rw [hstacks]
    exact fun s hs => (hp.formed s hs).mono hvirtuals.length_le
  · rw [hbuckets, hentries]
    exact hp.bucketed
  · rw [hstacks]
    exact hp.filled

/-- A stack that can be used for a key is found by the digest of the key. -/
theorem mem_places (h : p.Usable key i) : i ∈ p.stackBuckets.places key.digest := by
  obtain ⟨entry, s, hentry, -, hagrees, -⟩ := h
  rw [hp.bucketed, digestPlaces, List.mem_map]
  refine ⟨(entry, i), List.mem_filter.mpr ⟨List.mk_mem_zipIdx_iff_getElem?.mpr hentry, ?_⟩, rfl⟩
  exact beq_iff_eq.mpr (StackKey.digest_eq_of_agrees hagrees)

/-- The stacks in use with one key that are not full are one. -/
theorem usable_unique (hi : p.Usable key i) (hj : p.Usable key j) : i = j := by
  obtain ⟨entry, s, hentry, hs, hagrees, hroom⟩ := hi
  obtain ⟨other, s', hother, hs', hagrees', hroom'⟩ := hj
  have hsame := StackKey.agrees_trans hagrees (StackKey.agrees_symm hagrees')
  rcases Nat.lt_trichotomy i j with hlt | heq | hlt
  · have hfull := hp.spent hlt hentry hother hsame hs
    rw [hroom] at hfull
    cases hfull
  · exact heq
  · have hfull := hp.spent hlt hother hentry (StackKey.agrees_symm hsame) hs'
    rw [hroom'] at hfull
    cases hfull

/-- **A stack is found** if one can be used. -/
theorem findStack?_eq_none_iff : Context.findStack? p key = none ↔ ∀ i, ¬p.Usable key i := by
  rw [Context.findStack?, List.find?_eq_none]
  refine ⟨fun h i hi => h i (hp.mem_places hi) (isUsable_iff.mpr hi), fun h i _ hi => ?_⟩
  exact h i (isUsable_iff.mp hi)

/-- **The first stack** that can be used is found, as if all were looked through. -/
theorem findStack?_eq_some_iff :
    Context.findStack? p key = some i ↔ p.Usable key i ∧ ∀ j < i, ¬p.Usable key j := by
  constructor
  · intro h
    have hi := usable_of_findStack? h
    exact ⟨hi, fun j hlt hj => Nat.ne_of_lt hlt (hp.usable_unique hj hi)⟩
  · rintro ⟨hi, -⟩
    cases h : Context.findStack? p key with
    | none => exact absurd hi (hp.findStack?_eq_none_iff.mp h i)
    | some j => rw [hp.usable_unique (usable_of_findStack? h) hi]

/-- A stack is added for a key that none can be used for. -/
theorem add {pageTable : Code} (hnone : ∀ i, ¬p.Usable key i)
    (hentries : q.stackEntries = p.stackEntries ++ [⟨key, pageTable⟩])
    (hstacks : q.slots.layerStacks = p.slots.layerStacks ++ [.fresh key.preallocated])
    (hbuckets : q.stackBuckets = p.stackBuckets.add key.digest p.stackEntries.length)
    (hvirtuals : p.slots.texturesVirtual <+: q.slots.texturesVirtual) : q.Stacked marked := by
  have heven := hp.even
  constructor
  · rw [hentries, hstacks, List.length_append, List.length_append, heven]
    rfl
  · intro i entry s hentry hs
    rw [hentries, List.getElem?_append] at hentry
    rw [hstacks, List.getElem?_append, ← heven] at hs
    split at hentry
    · rw [if_pos ‹_›] at hs
      exact hp.laidOut hentry hs
    · rw [if_neg ‹_›] at hs
      obtain rfl := List.mem_singleton.mp (List.mem_of_getElem? hentry)
      obtain rfl := List.mem_singleton.mp (List.mem_of_getElem? hs)
      rfl
  · intro i j entry other s hlt hentry hother hagrees hs
    have hj := (List.getElem?_eq_some_iff.mp hother).1
    rw [hentries, List.length_append, List.length_singleton] at hj
    rw [hentries, List.getElem?_append_left (by omega)] at hentry
    rw [hstacks, List.getElem?_append_left (by omega)] at hs
    rw [hentries, List.getElem?_append] at hother
    split at hother
    · exact hp.spent hlt hentry hother hagrees hs
    · obtain rfl := List.mem_singleton.mp (List.mem_of_getElem? hother)
      by_contra hroom
      exact hnone i ⟨entry, s, hentry, hs, hagrees, Bool.eq_false_iff.mpr hroom⟩
  · intro s hs
    rw [hstacks] at hs
    rcases List.mem_append.mp hs with hs | hs
    · exact (hp.formed s hs).mono hvirtuals.length_le
    · exact List.mem_singleton.mp hs ▸ .fresh _ _
  · intro d
    rw [hbuckets, hentries, places_add, digestPlaces_concat, hp.bucketed]
  · intro hmarked s hs
    rw [hstacks] at hs
    rcases List.mem_append.mp hs with hs | hs
    · exact hp.filled hmarked s hs
    · exact List.mem_singleton.mp hs ▸ fun _ => .fresh _

/-- A slot is bound to a layer of a stack. -/
theorem withLayers {k layer : Nat} {texture : Int} {s bound : LayerStack}
    (hs : p.slots.layerStacks[k]? = some s) (hbound : s.Binds layer texture bound)
    (hslot : texture < p.slots.texturesVirtual.length)
    (hnext : marked → s.preallocated = -1 → layer ≤ s.used) :
    (p.withLayers k bound).Stacked marked := by
  have hmem : ∀ t ∈ (p.withLayers k bound).slots.layerStacks,
      t ∈ p.slots.layerStacks ∨ t = bound := fun t ht => List.mem_or_eq_of_mem_set ht
  -- The stack at a place is the one that was there, but for the one that is bound to.
  have hget : ∀ {i : Nat} {t : LayerStack},
      (p.withLayers k bound).slots.layerStacks[i]? = some t →
      p.slots.layerStacks[i]? = some t ∨ i = k ∧ t = bound := by
    intro i t ht
    by_cases hi : k = i
    · subst hi
      exact .inr ⟨rfl, Option.some.inj (ht.symm.trans (Context.getElem?_withLayers bound hs))⟩
    · exact .inl ((List.getElem?_set_ne hi).symm.trans ht)
  constructor
  · exact hp.even.trans List.length_set.symm
  · intro i entry t hentry ht
    rcases hget ht with ht | ⟨rfl, rfl⟩
    · exact hp.laidOut hentry ht
    · exact hbound.preallocated.trans (hp.laidOut hentry hs)
  · intro i j entry other t hlt hentry hother hagrees ht
    rcases hget ht with ht | ⟨rfl, rfl⟩
    · exact hp.spent hlt hentry hother hagrees ht
    · exact hbound.isFull (hp.spent hlt hentry hother hagrees hs)
  · intro t ht
    rcases hmem t ht with ht | rfl
    · exact hp.formed t ht
    · exact (hp.formed s (List.mem_of_getElem? hs)).bind hbound hslot
  · exact hp.bucketed
  · intro hmarked t ht hfree
    rcases hmem t ht with ht | rfl
    · exact hp.filled hmarked t ht hfree
    · rw [hbound.preallocated] at hfree
      exact (hp.filled hmarked s (List.mem_of_getElem? hs) hfree).bind hbound (hnext hmarked hfree)

end

end Stacked

end Pass

end ShaderGraph
