/-!
# Types of generated code

The type of a piece of code is a set of bits. Two types are compatible when they share a bit: the
scalar type `float` has the bits of all four vector widths, so it goes with each of them. Sets that
name no single type can be written down too, and have no components and no name.
-/

namespace ShaderGraph

/-- The type of a piece of code, as a set of bits. -/
structure ValueType where
  bits : UInt32
deriving DecidableEq, Inhabited

namespace ValueType

/-! ### The named types -/

def float1 : ValueType := ⟨1⟩
def float2 : ValueType := ⟨2⟩
def float3 : ValueType := ⟨4⟩
def float4 : ValueType := ⟨8⟩
def texture2D : ValueType := ⟨16⟩
def textureCube : ValueType := ⟨32⟩
def texture2DArray : ValueType := ⟨64⟩
def volumeTexture : ValueType := ⟨128⟩
def staticBool : ValueType := ⟨256⟩
/-- The type of code that could not be typed. -/
def unknown : ValueType := ⟨512⟩
def materialAttributes : ValueType := ⟨1024⟩
def textureExternal : ValueType := ⟨2048⟩
def textureVirtual : ValueType := ⟨4096⟩
def pageTableResult : ValueType := ⟨8192⟩
def shadingModel : ValueType := ⟨16384⟩
/-- A scalar compatible with every vector width. -/
def float : ValueType := ⟨15⟩
/-- The kinds of textures together. -/
def texture : ValueType := ⟨16 + 32 + 64 + 128 + 2048 + 4096⟩

/-! ### Tests -/

/-- Whether two types are compatible. -/
def shares (s t : ValueType) : Bool := s.bits &&& t.bits != 0

/-- Whether the type is a float type of some width. -/
def isFloat (t : ValueType) : Bool := t.shares float

/-- Whether the type is a texture of some kind. -/
def isTexture (t : ValueType) : Bool := t.shares texture

/-- The order of types by their highest bits: wider float types come later. -/
def atLeast (t bound : ValueType) : Bool := bound.bits ≤ t.bits

/-- The float bits of a type. -/
def floatPart (t : ValueType) : ValueType := ⟨t.bits &&& float.bits⟩

/-- The number of float components, zero for what is no single float type. -/
def components (t : ValueType) : Nat :=
  match t.bits with
  | 1 | 15 => 1
  | 2 => 2
  | 4 => 3
  | 8 => 4
  | _ => 0

/-- The float type with `n` components. One component is the scalar of any width. -/
def ofComponents (n : Nat) : ValueType :=
  match n with
  | 1 => float
  | 2 => float2
  | 3 => float3
  | 4 => float4
  | _ => unknown

/-! ### Names -/

/-- The name of a type in messages. -/
def name (t : ValueType) : String :=
  match t.bits with
  | 1 | 15 => "float"
  | 2 => "float2"
  | 4 => "float3"
  | 8 => "float4"
  | 16 => "texture2D"
  | 32 => "textureCube"
  | 64 => "texture2DArray"
  | 128 => "volumeTexture"
  | 256 => "static bool"
  | 1024 => "MaterialAttributes"
  | 2048 => "TextureExternal"
  | 4096 => "TextureVirtual"
  | 8192 => "VTPageTableResult"
  | 16384 => "ShadingModel"
  | _ => "unknown"

/-- The name of a type in shader source. -/
def sourceName (t : ValueType) : String :=
  match t.bits with
  | 1 | 15 => "MaterialFloat"
  | 2 => "MaterialFloat2"
  | 4 => "MaterialFloat3"
  | 8 => "MaterialFloat4"
  | 1024 => "FMaterialAttributes"
  | 16384 => "uint"
  | _ => t.name

end ValueType

end ShaderGraph
