import ShaderGraph.Single.Decimal

/-!
# Four component values

A `Value` is what a uniform expression computes: four numbers. A scalar is kept replicated over
all four, so that a componentwise operation broadcasts it without asking for its width.
-/

namespace ShaderGraph

/-- Four components. -/
structure Value where
  x : Single
  y : Single
  z : Single
  w : Single
deriving DecidableEq, Inhabited

namespace Value

/-- The value with `a` in every component. -/
def replicate (a : Single) : Value := ⟨a, a, a, a⟩

/-- The value with zero in every component. -/
def zero : Value := replicate Single.zero

/-- The components in order. -/
def toList (v : Value) : List Single := [v.x, v.y, v.z, v.w]

/-- The value with the first components of `l`, zero where `l` has none. -/
def ofList (l : List Single) : Value :=
  ⟨l.getD 0 Single.zero, l.getD 1 Single.zero, l.getD 2 Single.zero, l.getD 3 Single.zero⟩

/-- The component at an index counted modulo four. -/
def component (v : Value) (i : Nat) : Single :=
  match i % 4 with
  | 0 => v.x
  | 1 => v.y
  | 2 => v.z
  | _ => v.w

/-- Applies `f` to every component. -/
def map (f : Single → Single) (v : Value) : Value := ⟨f v.x, f v.y, f v.z, f v.w⟩

/-- Applies `f` to the components of two values. -/
def zipWith (f : Single → Single → Single) (v w : Value) : Value :=
  ⟨f v.x w.x, f v.y w.y, f v.z w.z, f v.w w.w⟩

/-- Whether the first `n` components are equal as numbers. -/
def equalUpTo (n : Nat) (v w : Value) : Bool :=
  ((v.toList.zip w.toList).take n).all fun (a, b) => a.equal b

/-- Whether all components are equal as numbers. -/
def equal (v w : Value) : Bool := equalUpTo 4 v w

/-- Whether every component is the first one, bit for bit. -/
def IsScalar (v : Value) : Prop := v = replicate v.x

theorem replicate_isScalar (a : Single) : (replicate a).IsScalar := rfl

/-- The text of a value: its components in brackets. -/
def text (v : Value) : String :=
  "[" ++ " ".intercalate (v.toList.map Single.shortest) ++ "]"

end Value

end ShaderGraph
