import ShaderGraph.Proofs.Layers
import ShaderGraph.Proofs.TextureTables

/-!
# Virtual texture stacks stay in order

The stacks of a compilation and what they are found by are in order wherever code is asked for or an
expression is compiled, and in the end (`Graph.stacks_arranged`). Where they are in order, a lookup
is given the first stack with its key that is not full, as if all stacks were looked through and not
only those with the digest of the key, and a new one only if there is none. Layers are never bound
beyond what a stack holds.

Two things stand in the way of more. A texture may be said to be laid out without having an index,
and then its stack looks like one that is not laid out, but has gaps (`Graph.run_unindexed`). And a
stack counts as full once its last layer is bound, also if the renderer has laid it out and other
layers are free: a texture that is sampled again gets another stack then
(`Graph.laidOut_stack`, `Graph.run_lastFirst`).
-/

namespace ShaderGraph

variable {g : Graph}

/-- Every texture that a graph says is laid out has an index. -/
def Graph.IndexesLayouts (g : Graph) : Prop :=
  ∀ node ∈ g.nodes, ∀ ref ∈ node.laidOut?, ref.index ≠ -1

instance (g : Graph) : Decidable g.IndexesLayouts :=
  inferInstanceAs (Decidable (∀ node ∈ g.nodes, ∀ ref ∈ node.laidOut?, ref.index ≠ -1))

theorem Graph.IndexesLayouts.marked (h : g.IndexesLayouts) : g.layoutTerms.marked :=
  fun _ ⟨node, hnode, href⟩ => h node hnode _ href

namespace Pass

variable {p q : Pass} {marked : Prop} {key : StackKey}

/-- The stacks are in order, and their page tables are code of their scopes. -/
structure Arranged (marked : Prop) (p : Pass) : Prop extends Stacked marked p where
  placed : ∀ e ∈ p.stackEntries, ∃ i, e.pageTable = some i ∧ i < (p.scope e.key.scope).length

theorem Sane.arranged {g : Graph} {t : Terms} {env : Environment} (hp : p.Sane t env)
    (ht : t.ordered) (hlaid : t.laid = g.layoutTerms.laid) : p.Arranged g.IndexesLayouts := by
  have hstacked := hp.stacked ht
  refine { hstacked with filled := fun hindexed => ?_, placed := hp.pageTables }
  exact hstacked.filled fun ref href => hindexed.marked ref (hlaid ▸ href)

/-- What leaves the stacks alone and only adds code leaves them in order. -/
theorem Arranged.of_eq (hp : p.Arranged marked) (hkept : q.kept = p.kept)
    (hvirtuals : p.slots.texturesVirtual <+: q.slots.texturesVirtual)
    (hscopes : ∀ k, p.scope k <+: q.scope k) : q.Arranged marked := by
  refine ⟨hp.toStacked.of_eq hkept hvirtuals, fun e he => ?_⟩
  have hentries : q.stackEntries = p.stackEntries := congrArg StackState.entries hkept
  obtain ⟨i, hi, hlt⟩ := hp.placed e (hentries ▸ he)
  exact ⟨i, hi, Nat.lt_of_lt_of_le hlt (hscopes _).length_le⟩

theorem Arranged.fixes (hp : p.Arranged marked) (hq : Fixes p q) : q.Arranged marked := by
  obtain ⟨ps, qs, table, final, -, -, hslots⟩ := UniformSet.withPrograms_ok hq.programs
  refine hp.of_eq ?_ hq.virtuals hq.scopes
  simp only [kept, hq.stackEntries, hq.stackBuckets, hslots]

end Pass

namespace Context

open Pass

variable {p q : Pass} {ctx : Context}

/-- A lookup ends with code of its scope. -/
theorem emitLookup_gives (hscope : ctx.scope < p.scopes.length) (i : Nat) (l : Lookup) :
    p.Gives (ctx.emitLookup i l) fun c q => ∃ j, c = some j ∧ j < (q.scope ctx.scope).length := by
  have hemit : ∀ {q : Pass}, ctx.scope < q.scopes.length → ∀ text,
      q.Gives (ctx.emitTemporary .pageTableResult text) fun c r =>
        ∃ j, c = some j ∧ j < (r.scope ctx.scope).length := by
    refine fun {q} hq text => (emitWith_gives _ _ _).mono fun c r hc => ?_
    obtain ⟨-, ⟨j, d, rfl, rfl, hd, -⟩ | ⟨rfl, rfl⟩⟩ | ⟨hkept, -⟩ := hc
    · exact ⟨j, rfl, (List.getElem?_eq_some_iff.mp hd).1⟩
    · exact ⟨_, rfl, (List.getElem?_eq_some_iff.mp
        (getElem?_append (p := { q with nextTemporary := _ }) hq _)).1⟩
    · exact absurd rfl hkept
  refine (widened_plain l.coordinate _).remains.bind fun uv q hq => ?_
  have hscope := Nat.lt_of_lt_of_le hscope hq.length_scopes
  split
  · exact hemit hscope _
  · exact (widened_plain l.mip _).remains.bind fun _ r hr =>
      hemit (Nat.lt_of_lt_of_le hscope hr.length_scopes) _
  · exact (widened_plain l.mip _).remains.bind fun _ r hr =>
      hemit (Nat.lt_of_lt_of_le hscope hr.length_scopes) _
  · refine (widened_plain l.mip _).remains.bind fun _ r hr => ?_
    exact (widened_plain l.mipY _).remains.bind fun _ r' hr' =>
      hemit (Nat.lt_of_lt_of_le hscope (Nat.le_trans hr.length_scopes hr'.length_scopes)) _
  · exact .throw _

/-- What a lookup is given: the first stack that can be used for its key, as if all were looked
through, or a new one behind the others if there is none. The page table of the stack is code of the
scope of the lookup. -/
structure Acquires (ctx : Context) (l : Lookup) (p : Pass) (i : Nat) (q : Pass) : Prop where
  found : ∃ key r, ctx.stackKey l p = .ok key r ∧
    ((p.Usable key i ∧ ∀ j < i, ¬p.Usable key j) ∧ q.kept = p.kept ∨
      (∀ j, ¬p.Usable key j) ∧ i = p.stackEntries.length ∧
        q.slots.layerStacks = p.slots.layerStacks ++ [.fresh l.preallocated] ∧
        ∃ pageTable, q.stackEntries = p.stackEntries ++ [⟨key, pageTable⟩])
  placed : ctx.scope < p.scopes.length → ∃ entry j, q.stackEntries[i]? = some entry ∧
    entry.key.scope = ctx.scope ∧ entry.pageTable = some j ∧ j < (q.scope ctx.scope).length

/-- **A stack is acquired** as if all were looked through, where they are in order. -/
theorem acquires_of_arranged {marked : Prop} (hp : p.Arranged marked) {l : Lookup} {i : Nat}
    (h : ctx.acquireStack l p = .ok i q) : ctx.Acquires l p i q := by
  obtain ⟨key, p₁, hkey, hcases⟩ := acquireStack_ok h
  obtain ⟨hkeyScope, -, hkept⟩ := stackKey_ok hkey
  have hp₁ := (stackKey_plain l).remains _ _ hkey
  rcases hcases with ⟨hfound, rfl⟩ |
    ⟨hnone, rfl, hstacks, pageTable, p₂, p₃, hentries, hscopes, hlookup, hend⟩
  · have hfound := hp.findStack?_eq_some_iff.mp hfound
    refine ⟨⟨key, q, hkey, .inl ⟨hfound, hkept⟩⟩, fun _ => ?_⟩
    obtain ⟨⟨entry, s, hentry, -, hagrees, -⟩, -⟩ := hfound
    have hentries : q.stackEntries = p.stackEntries := congrArg StackState.entries hkept
    have hsameScope := (StackKey.scope_eq_of_agrees hagrees).trans hkeyScope
    obtain ⟨j, hj, hlt⟩ := hp.placed entry (List.mem_of_getElem? hentry)
    obtain ⟨more, hmore, -⟩ := hp₁.scopes ctx.scope
    refine ⟨entry, j, hentries ▸ hentry, hsameScope, hj, ?_⟩
    rw [hmore, List.length_append, ← hsameScope]
    omega
  · refine ⟨⟨key, p₁, hkey, .inr ⟨hp.findStack?_eq_none_iff.mp hnone, rfl, hstacks, pageTable,
      hentries⟩⟩, fun hscope => ?_⟩
    have hlt : ctx.scope < p₂.scopes.length :=
      hscopes ▸ Nat.lt_of_lt_of_le hscope hp₁.length_scopes
    obtain ⟨j, rfl, hlt⟩ := emitLookup_gives hlt _ _ _ _ hlookup
    have hsameScope : q.scope ctx.scope = p₃.scope ctx.scope := by simp only [Pass.scope, hend]
    refine ⟨⟨key, some j⟩, j, ?_, hkeyScope, rfl, hsameScope ▸ hlt⟩
    rw [hentries]
    exact List.getElem?_concat_length

end Context

/-! ### Runs -/

open Pass

/-- What is looked for to see that the stacks stay in order. -/
def Watch.arranged (marked : Prop) : Watch where
  asked _ p := p.Arranged marked
  answered _ _ _ q := q.Arranged marked
  before _ p := p.Arranged marked
  after _ _ _ q := q.Arranged marked

theorem Context.Prepared.arranged {l : Ledger} {ctx : Context} {p : Pass}
    (h : ctx.Prepared g.layoutTerms l p) (marks : List LogEntry) :
    (p.under marks).Arranged g.IndexesLayouts :=
  (h.fit.toSane.arranged trivial rfl).of_eq rfl List.prefix_rfl fun _ => List.prefix_rfl

theorem Watch.arranged_sound (g : Graph) :
    Watch.Sound g.layoutTerms fun _ => .arranged g.IndexesLayouts where
  asked marks _ h := h.arranged marks
  answered _ marks' _ _ h := h.prepared.arranged marks'
  before marks _ h := h.toPrepared.arranged marks
  after _ marks' _ _ h _ := h.prepared.arranged marks'

/-- A compilation keeps the stacks in order, and never binds a layer beyond what they hold. -/
structure Graph.KeepsStacks (g : Graph) (env : Environment) : Prop where
  watched : ∀ alarm, runWatched env g.expressions (.arranged g.IndexesLayouts) alarm {} =
    run env (some g.expressions) {}
  final : ∀ o p, run env (some g.expressions) {} = .ok o p →
    p.Arranged g.IndexesLayouts ∧ o.slots = p.slots
  room : ∀ e p, run env (some g.expressions) {} = .error e p →
    e ≠ .layersExhausted ∧ e ≠ .invalidLayer

theorem Graph.keepsStacks (g : Graph) (env : Environment) : g.KeepsStacks env := by
  obtain ⟨l, hwatched, -, hends⟩ := run_observed (Watch.arranged_sound g) g.keeps_layout.tracked env
  refine ⟨hwatched, fun o p hrun => ⟨?_, ?_⟩, fun e p hrun => ?_⟩
  · obtain ⟨q, hq, hfixes, -⟩ := hends.ok hrun
    exact (hq.sane.arranged trivial rfl).fixes hfixes
  · exact (run_concluded (some g) hrun).slots
  · rcases hends.error hrun with he | ⟨rfl, -⟩
    · constructor <;> rintro rfl <;> cases he
    · exact ⟨nofun, nofun⟩

/-- **Stacks stay in order.** While a graph is compiled and in the end, there are as many stacks as
there are keys, and what is found by a digest are the stacks whose keys have it; a stack has eight
layers, bound to slots of virtual textures, and those behind the ones in use are free; and its page
table is code of its scope. The ones in use are bound too, if the stack is not laid out and every
texture that is has an index. A layer is never bound beyond that. Where the stacks are in order, a
lookup is given the first stack with its key that is not full, as if all were looked through, and a
new one if there is none; and the page table of that stack is code of the scope it is made in. -/
theorem Graph.stacks_arranged (g : Graph) (env : Environment) :
    g.KeepsStacks env ∧
    ∀ (ctx : Context) (l : Context.Lookup) (marked : Prop) (p q : Pass) (i : Nat),
      p.Arranged marked → ctx.acquireStack l p = .ok i q → ctx.Acquires l p i q :=
  ⟨g.keepsStacks env, fun _ _ _ _ _ _ hp h => Context.acquires_of_arranged hp h⟩

/-- The lookup of a sample of a texture that the renderer has laid out. -/
def Context.layoutLookup (ctx : Context) (ref : TextureRef) (s : Sample) (m : MipChoice) :
    Lookup :=
  let asset := if ref.index < 0 then default else ctx.material.textures.getD ref.index.toNat default
  { mode := m.mode, addressU := (addressModes s.source asset).1,
    addressV := (addressModes s.source asset).2, aspect := .one, coordinate := s.coordinate,
    mip := m.mip, mipY := m.mipY, preallocated := ref.index }

/-- The texture that is laid out, with a layer. -/
def laidOutRef (layer : Int) : TextureRef := ⟨.asset, "", 0, .virtualNormal, layer, 1⟩

/-- What the sample of a texture that is laid out needs before it looks for a stack. -/
def Context.laidOutOperands (ctx : Context) : PassM (Code × Code) := do
  let x ← ctx.laidOutInputs
  let _ ← ctx.widened x.1 .textureVirtual
  let _ ← ctx.widened x.2 .float2
  return x

/-- Where the pixel stage has bound a texture that is laid out, its stack is found. -/
theorem Graph.stacks_arranged_layered :
    ∃ o p q x r found s t, run layeredMaterial (some layered.expressions) {} = .ok o p ∧
      (∀ s ∈ o.slots.layerStacks, s.preallocated = -1 → s.Filled) ∧ Reaches {} q ∧ q.Reaches p ∧
      q.layeredReader.laidOutOperands q = .ok x r ∧
      q.layeredReader.acquireLayer (laidOutRef 2) 1 (laidOut x) laidOutMip r = .ok found s ∧
      q.layeredReader.acquireStack
        (q.layeredReader.layoutLookup (laidOutRef 2) (laidOut x) laidOutMip) s = .ok 1 t ∧
      q.layeredReader.Acquires
        (q.layeredReader.layoutLookup (laidOutRef 2) (laidOut x) laidOutMip) s 1 t := by
  obtain ⟨o, p, h, q, hq, x, r, hr, found, s, hs, hkept, hvirtuals, hplaced, i, t, ht, rfl⟩ :
      ∃ o p, run layeredMaterial (some layered.expressions) {} = .ok o p ∧
        ∃ q, run layeredMaterial (some (layered.barred 1 .noSuchStage)) {} =
          .error .noSuchStage q ∧
        ∃ x r, q.layeredReader.laidOutOperands q = .ok x r ∧
        ∃ found s, q.layeredReader.acquireLayer (laidOutRef 2) 1 (laidOut x) laidOutMip r =
            .ok found s ∧ s.kept = p.kept ∧
          p.slots.texturesVirtual <+: s.slots.texturesVirtual ∧
          (∀ e ∈ s.stackEntries, e.pageTable.any (· < (s.scope e.key.scope).length)) ∧
        ∃ i t, q.layeredReader.acquireStack
          (q.layeredReader.layoutLookup (laidOutRef 2) (laidOut x) laidOutMip) s = .ok i t ∧
          i = 1 := by
    decide +kernel
  obtain ⟨hreached, hrest⟩ := barred_waypoint h hq
  obtain ⟨hkeeps, hacquires⟩ := stacks_arranged layered layeredMaterial
  obtain ⟨hp, hslots⟩ := hkeeps.final o p h
  have harranged : s.Arranged layered.IndexesLayouts := by
    refine ⟨hp.toStacked.of_eq hkept hvirtuals, fun e he => ?_⟩
    obtain ⟨j, hj, hlt⟩ := (Option.any_eq_true _ _).mp (hplaced e he)
    exact ⟨j, hj, of_decide_eq_true hlt⟩
  exact ⟨o, p, q, x, r, found, s, t, h, hslots ▸ hp.filled (by decide), hreached, hrest, hr, hs, ht,
    hacquires _ _ _ _ _ _ harranged ht⟩

/-- A texture without an index that the renderer is said to have laid out. -/
def unindexed : Graph where
  nodes := [.virtualTextureSample { textureIndex := -1, sampler := .virtualColor } 2 0]

/-- The material that samples the first node of a graph. -/
def virtualMaterial : Environment where
  material :=
    { inputs := (PropertyTable.const Input.none).set .baseColor ⟨1, 0⟩
      textures := [{ name := "T", type := .textureVirtual, sizeX := 4, sizeY := 4 }] }
  options := { virtualTexturing := true }

/-- Its stack is not told apart from one that is not laid out, and two layers in use are free. -/
theorem Graph.run_unindexed :
    ∃ o p, run virtualMaterial (some unindexed.expressions) {} = .ok o p ∧ o.success = true ∧
      o.slots.layerStacks = [⟨[-1, -1, 0, -1, -1, -1, -1, -1], 3, -1⟩] := by
  decide +kernel

/-! ### Textures that are laid out -/

namespace Context

variable {p q r : Pass} {ctx : Context} {ref : TextureRef} {slot read : Int} {s : Sample}
variable {m : MipChoice} {i : Nat} {key : StackKey}

/-- The key with which such a sample looks for a stack. -/
def LooksFor (ctx : Context) (ref : TextureRef) (s : Sample) (m : MipChoice) (key : StackKey)
    (p : Pass) : Prop := ∃ q, ctx.stackKey (ctx.layoutLookup ref s m) p = .ok key q

/-- A sample of a texture that is laid out finds a stack, and adds nothing to what is found. -/
theorem acquireLayer_laidOut (hfixed : 0 ≤ ref.layer)
    (h : ctx.acquireLayer ref slot s m p = .ok (some (read, i)) q) :
    ∃ r, ctx.acquireStack (ctx.layoutLookup ref s m) p = .ok i r ∧
      r.stackEntries = q.stackEntries := by
  unfold acquireLayer at h
  dsimp only at h
  rw [if_pos hfixed] at h
  obtain ⟨stack, r, hstack, h⟩ := exists_of_bind h
  split at h
  · obtain ⟨_, _, -, hnone⟩ := exists_of_bind h
    cases hnone
  · obtain ⟨_, r', hbind, h⟩ := exists_of_bind h
    cases h
    obtain ⟨_, _, -, -, rfl⟩ := bindLayer_ok hbind
    exact ⟨r, hstack, rfl⟩

/-- The stack that is found has the key, and stays behind those that were there. -/
theorem LooksFor.entry (hkey : ctx.LooksFor ref s m key p) (hself : key.agrees key)
    (h : ctx.acquireStack (ctx.layoutLookup ref s m) p = .ok i q) :
    p.stackEntries <+: q.stackEntries ∧
      ∃ entry, q.stackEntries[i]? = some entry ∧ entry.key.agrees key := by
  obtain ⟨p₁, hkey⟩ := hkey
  obtain ⟨key', p₁', hkey', hcases⟩ := acquireStack_ok h
  cases hkey.symm.trans hkey'
  rcases hcases with ⟨hfound, rfl⟩ | ⟨-, rfl, -, pageTable, _, _, hentries, -⟩
  · obtain ⟨entry, t, hentry, -, hagrees, -⟩ := usable_of_findStack? hfound
    have hentries : q.stackEntries = p.stackEntries :=
      congrArg StackState.entries (stackKey_ok hkey).2.2
    exact ⟨hentries ▸ List.prefix_rfl, entry, hentries ▸ hentry, hagrees⟩
  · rw [hentries]
    exact ⟨List.prefix_append _ _, _, List.getElem?_concat_length, hself⟩

end Context

namespace Pass

variable {p : Pass} {marked : Prop} {i j : Nat} {key : StackKey}

/-- The last layer of a stack is bound. -/
def IsLastBound (p : Pass) (i : Nat) : Prop :=
  ∃ s x, p.slots.layerStacks[i]? = some s ∧ s.layers[maxLayers - 1]? = some x ∧ 0 ≤ x

/-- A stack that has the key can be used unless its last layer is bound. -/
theorem Stacked.usable_iff (hp : p.Stacked marked) {entry : StackEntry}
    (hentry : p.stackEntries[i]? = some entry) (hagrees : entry.key.agrees key) :
    p.Usable key i ↔ ¬p.IsLastBound i := by
  have hlt : i < p.slots.layerStacks.length := hp.even ▸ (List.getElem?_eq_some_iff.mp hentry).1
  have hs := List.getElem?_eq_getElem hlt
  have hfull := (hp.formed _ (List.mem_of_getElem? hs)).isFull_iff
  constructor
  · rintro ⟨_, s, -, hs', -, hroom⟩ ⟨s', x, hs'', hx⟩
    cases hs'.symm.trans hs''
    cases hs.symm.trans hs'
    rw [hfull.mpr ⟨x, hx⟩] at hroom
    cases hroom
  · intro hfree
    refine ⟨entry, _, hentry, hs, hagrees, Bool.eq_false_iff.mpr fun h => hfree ?_⟩
    obtain ⟨x, hx⟩ := hfull.mp h
    exact ⟨_, x, hs, hx⟩

/-- Of two stacks with one key, the last layer of the first is bound. -/
theorem Stacked.isLastBound (hp : p.Stacked marked) (hlt : i < j) {entry other : StackEntry}
    (hentry : p.stackEntries[i]? = some entry) (hother : p.stackEntries[j]? = some other)
    (hagrees : entry.key.agrees other.key) : p.IsLastBound i := by
  by_contra hfree
  obtain ⟨entry', s, hentry', hs, -, hroom⟩ := (hp.usable_iff hentry hagrees).mpr hfree
  rw [hp.spent hlt hentry hother hagrees hs] at hroom
  cases hroom

end Pass

/-- A sample of a texture that the renderer has laid out is compiled: it looks for a key and uses a
stack. -/
def Pass.UsesLayout (key : StackKey) (i : Nat) (p q : Pass) : Prop :=
  ∃ (ctx : Context) (ref : TextureRef) (slot read : Int) (s : Sample) (m : MipChoice),
    0 ≤ ref.layer ∧ ctx.LooksFor ref s m key p ∧
    ctx.acquireLayer ref slot s m p = .ok (some (read, i)) q

/-- Such samples with one key, the second of which is compiled on the way after the first, use one
stack until its last layer is bound. -/
structure SharesLayout (i j : Nat) (p q : Pass) : Prop where
  second : ∀ marked, p.Stacked marked → (j = i ↔ ¬p.IsLastBound i)
  later : ∀ marked e, q.Reaches e → e.Stacked marked → i = j ∨ e.IsLastBound (min i j)

/-- **A texture that is laid out keeps its stack** until the last layer of the stack is bound. Take
two samples of textures that the renderer has laid out whose keys agree: they are in one scope and
of one texture, with the same coordinates, mip levels and address modes. If the stacks are in order
where the second one is compiled, it uses the stack of the first if and only if the last layer of
that stack is not bound yet. So on the way to any state with the stacks in order, as the last one of
a compilation is, they use one stack, or the last layer of the first of the two is bound there. -/
theorem Graph.laidOut_stack (g : Graph) (env : Environment) :
    (∀ o p, run env (some g.expressions) {} = .ok o p →
      EndsIn env (some g) o p ∧ p.Stacked g.IndexesLayouts) ∧
    ∀ (key key' : StackKey) (i j : Nat) (p q p' q' : Pass), UsesLayout key i p q → q.Reaches p' →
      UsesLayout key' j p' q' → key.agrees key' → SharesLayout i j p' q' := by
  refine ⟨fun o p hrun => ?_, ?_⟩
  · exact ⟨run_endsIn (some g) hrun, ((g.keepsStacks env).final o p hrun).1.toStacked⟩
  · intro key key' i j p q p' q' h hreaches h' hagrees
    obtain ⟨ctx, ref, slot, read, s, m, hfixed, hkey, h⟩ := h
    obtain ⟨ctx', ref', slot', read', s', m', hfixed', hkey', h'⟩ := h'
    have hback := StackKey.agrees_symm hagrees
    obtain ⟨r, hstack, hr⟩ := Context.acquireLayer_laidOut hfixed h
    obtain ⟨r', hstack', hr'⟩ := Context.acquireLayer_laidOut hfixed' h'
    obtain ⟨-, entry, hentry, hentryKey⟩ := hkey.entry (StackKey.agrees_trans hagrees hback) hstack
    obtain ⟨hentries, entry', hentry', hentryKey'⟩ :=
      hkey'.entry (StackKey.agrees_trans hback hagrees) hstack'
    have hfirst : p'.stackEntries[i]? = some entry :=
      getElem?_of_prefix hreaches.retains.stackEntries (hr ▸ hentry)
    have hsame : entry.key.agrees key' := StackKey.agrees_trans hentryKey hagrees
    constructor
    · intro marked hp'
      rw [← hp'.usable_iff hfirst hsame]
      obtain ⟨_, hkey'⟩ := hkey'
      obtain ⟨found, _, hfound, hcases⟩ := Context.acquireStack_ok hstack'
      obtain ⟨rfl, -⟩ := EStateM.Result.ok.inj (hkey'.symm.trans hfound)
      rcases hcases with ⟨hused, -⟩ | ⟨hnone, rfl, -⟩
      · have hused := usable_of_findStack? hused
        exact ⟨fun heq => heq ▸ hused, fun hi => hp'.usable_unique hused hi⟩
      · refine ⟨fun heq => ?_, fun hi => absurd hi (hp'.findStack?_eq_none_iff.mp hnone i)⟩
        exact absurd (List.getElem?_eq_some_iff.mp hfirst).1 (by omega)
    · intro marked e hend he
      have hgrows := hend.retains.stackEntries
      have hi : e.stackEntries[i]? = some entry :=
        getElem?_of_prefix hgrows (hr' ▸ getElem?_of_prefix hentries hfirst)
      have hj : e.stackEntries[j]? = some entry' := getElem?_of_prefix hgrows (hr' ▸ hentry')
      have hboth := StackKey.agrees_trans hsame (StackKey.agrees_symm hentryKey')
      rcases Nat.lt_trichotomy i j with hlt | heq | hlt
      · rw [Nat.min_eq_left (Nat.le_of_lt hlt)]
        exact .inr (he.isLastBound hlt hi hj hboth)
      · exact .inl heq
      · rw [Nat.min_eq_right (Nat.le_of_lt hlt)]
        exact .inr (he.isLastBound hlt hj hi (StackKey.agrees_symm hboth))

set_option synthInstance.maxSize 4096 in
/-- Where the pixel stage has bound it, the texture is sampled through another layer, and the same
stack is used. -/
theorem Graph.laidOut_stack_layered :
    ∃ o p q x r s t, run layeredMaterial (some layered.expressions) {} = .ok o p ∧ Reaches {} q ∧
      q.Reaches p ∧ q.layeredReader.laidOutOperands q = .ok x r ∧
      q.layeredReader.acquireLayer (laidOutRef 2) 1 (laidOut x) laidOutMip r =
        .ok (some (1, 1)) s ∧
      q.layeredReader.acquireLayer (laidOutRef 5) 1 (laidOut x) laidOutMip s =
        .ok (some (1, 1)) t ∧ SharesLayout 1 1 s t ∧ ¬s.IsLastBound 1 := by
  obtain ⟨o, p, h, q, hq, x, r, hr, key, r', hkey, found, s, hs, rfl, hkept, hvirtuals, key', s',
      hkey', hagrees, found', t, ht, rfl⟩ :
      ∃ o p, run layeredMaterial (some layered.expressions) {} = .ok o p ∧
        ∃ q, run layeredMaterial (some (layered.barred 1 .noSuchStage)) {} =
          .error .noSuchStage q ∧
        ∃ x r, q.layeredReader.laidOutOperands q = .ok x r ∧
        ∃ key r', q.layeredReader.stackKey
          (q.layeredReader.layoutLookup (laidOutRef 2) (laidOut x) laidOutMip) r = .ok key r' ∧
        ∃ found s, q.layeredReader.acquireLayer (laidOutRef 2) 1 (laidOut x) laidOutMip r =
            .ok found s ∧ found = some (1, 1) ∧ s.kept = p.kept ∧
          p.slots.texturesVirtual <+: s.slots.texturesVirtual ∧
        ∃ key' s', q.layeredReader.stackKey
          (q.layeredReader.layoutLookup (laidOutRef 5) (laidOut x) laidOutMip) s = .ok key' s' ∧
          key.agrees key' ∧
        ∃ found' t, q.layeredReader.acquireLayer (laidOutRef 5) 1 (laidOut x) laidOutMip s =
          .ok found' t ∧ found' = some (1, 1) := by
    decide +kernel
  obtain ⟨hreached, hrest⟩ := barred_waypoint h hq
  obtain ⟨hruns, hshares⟩ := laidOut_stack layered layeredMaterial
  have hstacked : s.Stacked layered.IndexesLayouts := (hruns o p h).2.of_eq hkept hvirtuals
  have hshared := hshares key key' 1 1 r s s t ⟨_, _, _, _, _, _, by decide, ⟨r', hkey⟩, hs⟩
    (.refl s) ⟨_, _, _, _, _, _, by decide, ⟨s', hkey'⟩, ht⟩ hagrees
  exact ⟨o, p, q, x, r, s, t, h, hreached, hrest, hr, hs, ht, hshared,
    (hshared.second _ hstacked).mp rfl⟩

/-- A texture that the renderer has laid out, sampled through its first layer and, before that,
through its last. -/
def lastFirst : Graph where
  nodes := [.virtualTextureSample { sampler := .virtualColor } 0 0,
    .virtualTextureSample { sampler := .virtualColor } 7 0]

/-- With its last layer bound, the stack counts as full, and there is another one for the same
texture at the same coordinates. -/
theorem Graph.run_lastFirst :
    ∃ o p, run layeredMaterial (some lastFirst.expressions) {} = .ok o p ∧ o.success = true ∧
      o.slots.layerStacks = [⟨[-1, -1, -1, -1, -1, -1, -1, 0], 8, 0⟩,
        ⟨[1, -1, -1, -1, -1, -1, -1, -1], 1, 0⟩] := by
  decide +kernel

end ShaderGraph
