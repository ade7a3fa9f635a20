import ShaderGraph.Operation
import ShaderGraph.Preshader.Opcode
import ShaderGraph.Texture
import ShaderGraph.Text.Quoted

/-!
# Uniform expressions

A uniform expression has one value for a whole draw: it is built from literals, named parameters
and texture references by the operations on values. Expressions of literals alone are folded into
shader literals; the others are computed outside of the shader.

## The model

`Uniform` is the tree of an expression; an operation has as many arguments as it takes. A node
keeps the type of the code it stands for, since two nodes of different types are different
expressions. `evaluate` is the meaning of an expression under overrides of its parameters, and
`identical` the comparison by which expressions are shared: numbers are compared as numbers, so a
NaN differs from itself and the two zeros are one.
-/

namespace ShaderGraph

/-- How a texture is bound. -/
inductive TextureKind where
  | asset
  | parameter
  | external
deriving DecidableEq

/-- The number of a texture kind among the kinds of uniforms. -/
def TextureKind.code : TextureKind → Nat
  | asset => 3
  | parameter => 4
  | external => 5

/-- A reference to a texture of the material. -/
structure TextureRef where
  kind : TextureKind
  /-- The name by which a parameter can be replaced. -/
  name : String
  /-- The index of the asset. -/
  index : Int
  sampler : SamplerType
  /-- The layer in a stack laid out by the renderer, negative for any other texture. -/
  layer : Int := -1
  /-- The page table layer in such a stack. -/
  pageTableLayer : Int := -1
deriving DecidableEq

/-- A uniform expression. -/
inductive Uniform where
  | constant (value : Value) (type : ValueType)
  | scalarParameter (name : String) (default : Single)
  | vectorParameter (name : String) (default : Value)
  | texture (ref : TextureRef)
  | unary (op : UnaryOp) (type : ValueType) (a : Uniform)
  | binary (op : BinaryOp) (type : ValueType) (a b : Uniform)
  | clamp (type : ValueType) (a lo hi : Uniform)
  | swizzle (pattern : Swizzle) (a : Uniform)
deriving DecidableEq

/-- Values that replace the defaults of parameters, by name. -/
abbrev Overrides := List (String × Value)

namespace Uniform

/-! ### Shape -/

/-- Whether the expression is a texture reference. -/
def isTexture : Uniform → Bool
  | texture _ => true
  | _ => false

/-- Whether the expression is built from literals alone. -/
def isConstant : Uniform → Bool
  | constant _ _ => true
  | unary _ _ a => a.isConstant
  | binary _ _ a b => a.isConstant && b.isConstant
  | clamp _ a lo hi => a.isConstant && lo.isConstant && hi.isConstant
  | swizzle _ a => a.isConstant
  | _ => false

/-- Whether no texture occurs in the expression. -/
def isTextureFree : Uniform → Bool
  | texture _ => false
  | unary _ _ a => a.isTextureFree
  | binary _ _ a b => a.isTextureFree && b.isTextureFree
  | clamp _ a lo hi => a.isTextureFree && lo.isTextureFree && hi.isTextureFree
  | swizzle _ a => a.isTextureFree
  | _ => true

/-! ### Identity -/

/-- Whether two expressions agree but for their arguments. -/
def sameRoot : Uniform → Uniform → Bool
  | constant v s, constant w t => v.equal w && s == t
  | scalarParameter m x, scalarParameter n y => m == n && x.equal y
  | vectorParameter m v, vectorParameter n w => m == n && v.equal w
  | texture r, texture s => r == s
  | unary p s _, unary q t _ => p == q && s == t
  | binary p s _ _, binary q t _ _ => p == q && s == t
  | clamp s _ _ _, clamp t _ _ _ => s == t
  | swizzle p _, swizzle q _ => p == q
  | _, _ => false

/-- Whether two expressions agree throughout. -/
def identical : Uniform → Uniform → Bool
  | unary p s a, unary q t b => p == q && s == t && a.identical b
  | binary p s a b, binary q t c d => p == q && s == t && a.identical c && b.identical d
  | clamp s a b c, clamp t d e f => s == t && a.identical d && b.identical e && c.identical f
  | swizzle p a, swizzle q b => p == q && a.identical b
  | u, v => u.sameRoot v

/-! ### Meaning -/

/-- The value of an expression. A parameter without an override has its default, and a texture is
zero. -/
def evaluate (overrides : Overrides) : Uniform → Value
  | constant v _ => v
  | scalarParameter name default => (overrides.lookup name).getD (Value.replicate default)
  | vectorParameter name default => (overrides.lookup name).getD default
  | texture _ => Value.zero
  | unary op _ a => op.apply (a.evaluate overrides)
  | binary op _ a b => op.apply (a.evaluate overrides) (b.evaluate overrides)
  | clamp _ a lo hi =>
    (a.evaluate overrides).clamp (lo.evaluate overrides) (hi.evaluate overrides)
  | swizzle pattern a => (a.evaluate overrides).swizzle pattern

/-! ### Text -/

/-- The text of an expression. -/
def text : Uniform → String
  | constant v _ => "const" ++ v.text
  | scalarParameter name _ => "param(" ++ name ++ ")"
  | vectorParameter name _ => "param(" ++ name ++ ")"
  | texture ref => s!"texture({ref.index}," ++ Text.quote ref.name ++ ")"
  | unary op _ a => op.opcode.name ++ "(" ++ a.text ++ ")"
  | binary op _ a b => op.opcode.name ++ "(" ++ a.text ++ "," ++ b.text ++ ")"
  | clamp _ a lo hi => "clamp(" ++ a.text ++ "," ++ lo.text ++ "," ++ hi.text ++ ")"
  | swizzle _ a => "swizzle(" ++ a.text ++ ")"

end Uniform

end ShaderGraph
