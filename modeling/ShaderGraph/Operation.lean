import ShaderGraph.Value

/-!
# Operations on values

The operations of uniform expressions, with their meaning on values. An operation whose result
depends on a number of components carries that number.
-/

namespace ShaderGraph

/-! ### Operations of one operand -/

/-- An operation of one operand. -/
inductive UnaryOp where
  /-- The euclidean norm over the first components. -/
  | length (count : Nat)
  | saturate
  | abs
  | floor
  | ceil
  | frac
  | sqrt
  | log2
  | log10
  | sin
  | cos
  | tan
  | asin
  | acos
  | atan
deriving DecidableEq

/-- An operation of two operands. -/
inductive BinaryOp where
  | add
  | sub
  | mul
  | div
  | fmod
  | min
  | max
  | atan2
  /-- The inner product over the first components. -/
  | dot (count : Nat)
  | cross
  /-- The first components of one value, then those of another. -/
  | append (count : Nat)
deriving DecidableEq

/-- Which components of a value make up a new one: `count` of them, each read from a component of
the operand. -/
structure Swizzle where
  count : Nat
  first : UInt8
  second : UInt8
  third : UInt8
  fourth : UInt8
deriving DecidableEq

namespace Value

/-- The inner product over the first `count` components, summed from the first on. Any count but
one, two and three means all four. -/
def dot (count : Nat) (a b : Value) : Single :=
  let two := (a.x.mul b.x).add (a.y.mul b.y)
  let three := two.add (a.z.mul b.z)
  match count with
  | 1 => a.x.mul b.x
  | 2 => two
  | 3 => three
  | _ => three.add (a.w.mul b.w)

/-- The euclidean norm over the first `count` components. Any count but one, two and three means
all four. -/
def length (count : Nat) (a : Value) : Single :=
  match count with
  | 1 => a.x.abs
  | 2 => a.x.hypot a.y
  | 3 => a.x.hypot (a.y.hypot a.z)
  | _ => (dot 4 a a).sqrt

/-- The cross product of the first three components. -/
def cross (a b : Value) : Value :=
  ⟨(a.y.mul b.z).sub (a.z.mul b.y),
   (a.z.mul b.x).sub (a.x.mul b.z),
   (a.x.mul b.y).sub (a.y.mul b.x),
   Single.zero⟩

/-- The first `count` components of `a`, then those of `b`, as many as fit. -/
def append (count : Nat) (a b : Value) : Value := ofList (a.toList.take count ++ b.toList)

/-- Every component brought between those of `lo` and `hi`. -/
def clamp (a lo hi : Value) : Value :=
  ⟨a.x.clamp lo.x hi.x, a.y.clamp lo.y hi.y, a.z.clamp lo.z hi.z, a.w.clamp lo.w hi.w⟩

/-- The selected components, then zeros; a single one is replicated. -/
def swizzle (s : Swizzle) (a : Value) : Value :=
  if s.count = 1 then replicate (a.component s.first.toNat)
  else ofList <| ([s.first, s.second, s.third, s.fourth].take s.count).map fun i =>
    a.component i.toNat

end Value

/-- The result of an operation of one operand. -/
def UnaryOp.apply : UnaryOp → Value → Value
  | length count, a => Value.replicate (a.length count)
  | saturate, a => a.map fun x => x.clamp Single.zero Single.one
  | abs, a => a.map Single.abs
  | floor, a => a.map Single.floor
  | ceil, a => a.map Single.ceil
  | frac, a => a.map Single.frac
  | sqrt, a => a.map Single.sqrt
  | log2, a => a.map Single.log2
  | log10, a => a.map Single.log10
  | sin, a => a.map Single.sin
  | cos, a => a.map Single.cos
  | tan, a => a.map Single.tan
  | asin, a => a.map Single.asin
  | acos, a => a.map Single.acos
  | atan, a => a.map Single.atan

/-- The result of an operation of two operands. -/
def BinaryOp.apply : BinaryOp → Value → Value → Value
  | add, a, b => a.zipWith Single.add b
  | sub, a, b => a.zipWith Single.sub b
  | mul, a, b => a.zipWith Single.mul b
  | div, a, b => a.zipWith Single.div b
  | fmod, a, b => a.zipWith Single.fmod b
  | min, a, b => a.zipWith Single.min b
  | max, a, b => a.zipWith Single.max b
  | atan2, a, b => a.zipWith Single.atan2 b
  | dot count, a, b => Value.replicate (a.dot count b)
  | cross, a, b => a.cross b
  | append count, a, b => a.append count b

/-- Whether an operation can be carried out: a value has no more than four components to put in
front of another. -/
def BinaryOp.isDefined : BinaryOp → Bool
  | append count => count ≤ 4
  | _ => true

end ShaderGraph
