import ShaderGraph.Pass.Casting

/-!
# Page table lookups

Samples of virtual textures at the same coordinates share a stack, and so one lookup in its page
table. A stack is found by its key among those with a free layer; if there is none, a stack is
added and its lookup emitted.
-/

namespace ShaderGraph.Context

/-- What a page table lookup is made with. -/
structure Lookup where
  mode : MipMode
  addressU : TextureAddress
  addressV : TextureAddress
  aspect : Single
  coordinate : Code
  mip : Code
  mipY : Code
  preallocated : Int

/-- Whether lookups of the current stage tell the renderer which pages are missing. -/
def givesFeedback (ctx : Context) : Bool := ctx.stage = .pixel

/-- The key of the stacks that a lookup can use. -/
def stackKey (ctx : Context) (l : Lookup) : PassM StackKey := do
  let coordinate ← ctx.digestOf l.coordinate
  let mip ← ctx.digestOf l.mip
  let mipY ← ctx.digestOf l.mipY
  return { scope := ctx.scope, coordinate, mip, mipY, mode := l.mode, addressU := l.addressU,
           addressV := l.addressV, aspect := l.aspect, preallocated := l.preallocated,
           feedback := ctx.givesFeedback }

/-- The arguments of a lookup in the page table of stack `i`, with what stands before and after
the coordinates. -/
def lookupArguments (i : Nat) (front uv : String) (rest : List String) : String :=
  s!"(VIRTUALTEXTURE_PAGETABLE_{i}, VTPageTableUniform_Unpack(" ++
    s!"Material.VTPackedPageTableUniform[{i}*2], Material.VTPackedPageTableUniform[{i}*2+1]), " ++
    s!"{front} {i} + LIGHTMAP_VT_ENABLED, " ++ ", ".intercalate (uv :: rest) ++ ")"

/-- What stands before the coordinates of a lookup that picks its level by the pixel. -/
def pixelFront : String := "Parameters.SvPosition.xy, Parameters.VirtualTextureFeedback,"

/-- Emits a lookup in the page table of stack `i`. -/
def emitLookup (ctx : Context) (i : Nat) (l : Lookup) : PassM Code := do
  let uv ← ctx.widened l.coordinate .float2
  let address := [l.addressU.pageTableName, l.addressV.pageTableName]
  match l.mode with
  | .automatic =>
    ctx.emitTemporary .pageTableResult
      ("TextureLoadVirtualPageTable" ++ lookupArguments i pixelFront uv address)
  | .bias =>
    let mip ← ctx.widened l.mip .float1
    ctx.emitTemporary .pageTableResult
      ("TextureLoadVirtualPageTableBias" ++ lookupArguments i pixelFront uv (address ++ [mip]))
  | .level =>
    let front := if ctx.givesFeedback then "Parameters.VirtualTextureFeedback," else ""
    let mip ← ctx.widened l.mip .float1
    ctx.emitTemporary .pageTableResult
      ("TextureLoadVirtualPageTableLevel" ++ lookupArguments i front uv (address ++ [mip]))
  | .derivative =>
    let mip ← ctx.widened l.mip .float2
    let mipY ← ctx.widened l.mipY .float2
    ctx.emitTemporary .pageTableResult
      ("TextureLoadVirtualPageTableGrad" ++
        lookupArguments i pixelFront uv (address ++ [mip, mipY]))
  | .other _ => throw .invalidMipMode

/-- Whether the stack at a place has a key and a free layer. -/
def isUsable (p : Pass) (key : StackKey) (i : Nat) : Bool :=
  (p.stackEntries.zip p.slots.layerStacks)[i]?.any fun (entry, stack) =>
    entry.key.agrees key && !stack.isFull

/-- The first stack with a key that has a free layer, of those that have the digest of the key. -/
def findStack? (p : Pass) (key : StackKey) : Option Nat :=
  (p.stackBuckets.places key.digest).find? (isUsable p key)

/-- Adds a stack at place `i` and emits its lookup. The stack can be found before its entry is
there. -/
def addStack (ctx : Context) (key : StackKey) (l : Lookup) (i : Nat) : PassM Nat := do
  modify fun p => { p with
    stackBuckets := p.stackBuckets.add key.digest i,
    slots := { p.slots with
      layerStacks := p.slots.layerStacks ++ [LayerStack.fresh l.preallocated] } }
  Pass.note .debug "allocated virtual texture stack"
    [("stack", toString i), ("mode", toString l.mode.code),
     ("preallocated", toString l.preallocated)]
  let pageTable ← ctx.emitLookup i l
  modify fun p => { p with stackEntries := p.stackEntries ++ [⟨key, pageTable⟩] }
  return i

/-- The stack that a lookup uses. -/
def acquireStack (ctx : Context) (l : Lookup) : PassM Nat := do
  let key ← ctx.stackKey l
  let p ← get
  match findStack? p key with
  | some i => return i
  | none => ctx.addStack key l p.stackEntries.length

/-- Changes a stack, with a result. -/
def changeStack {α : Type} (stack : Nat) (change : LayerStack → Except Fault (α × LayerStack)) :
    PassM α := do
  match ((← get).slots.layerStacks[stack]?).elim (.error .invalidLayer) change with
  | .error fault => throw fault
  | .ok (a, s) =>
    modify fun p => { p with slots := { p.slots with
      layerStacks := p.slots.layerStacks.set stack s } }
    return a

/-- Takes the next layer of a stack. -/
def takeLayer (stack : Nat) : PassM Nat := changeStack stack LayerStack.addLayer

/-- Binds a virtual texture to a layer of a stack. -/
def bindLayer (stack : Nat) (layer texture : Int) : PassM Unit :=
  changeStack stack fun s => (s.setLayer layer texture).map (Prod.mk ())

end ShaderGraph.Context
