/-!
# Connections

Nodes are numbered from one; the number zero means that nothing is connected.
-/

namespace ShaderGraph

/-- The number of a node. -/
abbrev NodeId := Nat

/-- A connection to an output of a node. -/
structure Input where
  node : NodeId := 0
  output : Int := 0
deriving DecidableEq, Inhabited

namespace Input

/-- The connection to nothing. -/
def none : Input := {}

/-- Whether something is connected. -/
def isConnected (i : Input) : Bool := i.node != 0

end Input

/-- Which of the four components are selected. -/
structure Mask where
  r : Bool
  g : Bool
  b : Bool
  a : Bool
deriving DecidableEq, Inhabited

namespace Mask

/-- The choices in order. -/
def toList (m : Mask) : List Bool := [m.r, m.g, m.b, m.a]

/-- The mask of the first choices of `l`; what `l` lacks is not selected. -/
def ofList (l : List Bool) : Mask :=
  ⟨l.getD 0 false, l.getD 1 false, l.getD 2 false, l.getD 3 false⟩

/-- The choices as digits. -/
def digits (m : Mask) : String := String.ofList (m.toList.map fun on => if on then '1' else '0')

/-- The selected components, counted from zero. -/
def selected (m : Mask) : List Nat :=
  (m.toList.zip [0, 1, 2, 3]).filterMap fun (on, i) => if on then some i else Option.none

end Mask

end ShaderGraph
