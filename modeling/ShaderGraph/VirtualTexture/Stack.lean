import ShaderGraph.Fault

/-!
# Virtual texture stacks

A stack groups up to eight layers, each bound to a virtual texture, that are sampled at the same
coordinates and so share one page table lookup. The layers of most stacks are taken one after the
other; a stack laid out by the renderer has its layers bound at fixed places.
-/

namespace ShaderGraph

/-- The number of layers a stack holds. -/
def maxLayers : Nat := 8

/-- A group of layers with one page table lookup. -/
structure LayerStack where
  /-- The virtual texture of each layer, negative for a free one. -/
  layers : List Int
  /-- The number of layers in use. -/
  used : Nat
  /-- The texture whose layout the renderer fixed, negative for any other stack. -/
  preallocated : Int
deriving DecidableEq

namespace LayerStack

/-- The stack without layers. -/
def fresh (preallocated : Int) : LayerStack := ⟨List.replicate maxLayers (-1), 0, preallocated⟩

/-- Whether no further layer can be added. -/
def isFull (s : LayerStack) : Bool := s.used == maxLayers

/-- Takes the next layer; the stack with it in use, and its index. -/
def addLayer (s : LayerStack) : Except Fault (Nat × LayerStack) :=
  if s.isFull then .error .layersExhausted
  else .ok (s.used, { s with used := s.used + 1 })

/-- Binds a virtual texture to a layer. -/
def setLayer (s : LayerStack) (layer texture : Int) : Except Fault LayerStack :=
  if texture < 0 || layer < 0 || maxLayers ≤ layer then .error .invalidLayer
  else .ok { s with layers := s.layers.set layer.toNat texture,
                    used := max (layer.toNat + 1) s.used }

/-- The first layer in use that is bound to a virtual texture. -/
def findLayer? (s : LayerStack) (texture : Int) : Option Nat :=
  (s.layers.take s.used).findIdx? (· == texture)

/-- The number of page table textures the stack reads, one for every four layers. -/
def pageTables (s : LayerStack) : Nat := if 4 < s.used then 2 else 1

end LayerStack

end ShaderGraph
