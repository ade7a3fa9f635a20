import ShaderGraph.Graph.Compile
import ShaderGraph.Outcome

/-!
# Materials over a graph

A material over a graph can have its properties connected to the nodes of the graph. It compiles
the interpolators and custom outputs of the graph, unless it lists its own.
-/

namespace ShaderGraph

/-- Why a material over a graph cannot be made the way it is asked for. -/
inductive MaterialError where
  | noGraph
  /-- A property that cannot be connected. -/
  | notConnectable (code : Nat)
  /-- A connection to a node that does not exist. -/
  | missingNode
deriving DecidableEq

/-- The wording of the reason. -/
def MaterialError.message : MaterialError → String
  | noGraph => "nil graph argument to NewMaterial"
  | notConnectable code => "cannot connect property " ++ Property.nameOfCode code
  | missingNode => "connection to node not in graph"

namespace Material

/-- A material over a graph: an opaque surface with the default shading model. -/
def onGraph (name : String) : Option Graph → Except MaterialError Material
  | some _ => .ok { name := name }
  | none => .error .noGraph

/-- Connects the property with the given number to a node of the graph. -/
def connect (m : Material) (g : Graph) (code : Nat) (input : Input) :
    Except MaterialError Material :=
  match Property.connectable[code]? with
  | none => .error (.notConnectable code)
  | some property =>
    if g.nodes.length < input.node then .error .missingNode
    else .ok { m with inputs := m.inputs.set property input }

/-- The material with the outputs and interpolators of a graph where it lists none. -/
def withOutputsOf (m : Material) (g : Graph) : Material :=
  { m with
    customOutputs := if m.customOutputs.isEmpty then g.customOutputs else m.customOutputs,
    interpolators := if m.interpolators.isEmpty then g.interpolators else m.interpolators }

/-- Compiles a material over a graph. -/
def compileOver (m : Material) (g : Graph) (options : Options) : Except Fault Outcome :=
  (m.withOutputsOf g).compile g.expressions options

end Material

end ShaderGraph
