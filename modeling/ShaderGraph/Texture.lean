import ShaderGraph.ValueType

/-!
# Textures and how they are sampled

The choices of a texture sample are small numbers too; one without a meaning is kept as `other`.
-/

namespace ShaderGraph

/-! ### Address modes -/

/-- How a coordinate outside of the texture is mapped back into it. -/
inductive TextureAddress where
  | wrap
  | clamp
  | mirror
  | other (code : UInt8)
deriving DecidableEq, Inhabited

namespace TextureAddress

/-- The address mode with the given number. -/
def ofCode (code : UInt8) : TextureAddress := [wrap, clamp, mirror].getD code.toNat (other code)

/-- The number of an address mode. -/
def code : TextureAddress → Nat
  | wrap => 0
  | clamp => 1
  | mirror => 2
  | other code => code.toNat

/-- The name of an address mode in a page table lookup. -/
def pageTableName : TextureAddress → String
  | clamp => "VTADDRESSMODE_CLAMP"
  | mirror => "VTADDRESSMODE_MIRROR"
  | wrap | other _ => "VTADDRESSMODE_WRAP"

end TextureAddress

/-! ### Mip levels -/

/-- How a sample picks its mip level. -/
inductive MipMode where
  | automatic
  | level
  | bias
  | derivative
  | other (code : UInt8)
deriving DecidableEq, Inhabited

namespace MipMode

/-- The mode with the given number. -/
def ofCode (code : UInt8) : MipMode :=
  [automatic, level, bias, derivative].getD code.toNat (other code)

/-- The number of a mode. -/
def code : MipMode → Nat
  | automatic => 0
  | level => 1
  | bias => 2
  | derivative => 3
  | other code => code.toNat

end MipMode

/-! ### Samplers -/

/-- How a sampled value is decoded. The types for virtual textures come last, and a number beyond
them counts as one of them. -/
inductive SamplerType where
  | color
  | grayscale
  | alpha
  | normal
  | masks
  | distanceFieldFont
  | linearColor
  | linearGrayscale
  | data
  | external
  | virtualColor
  | virtualGrayscale
  | virtualAlpha
  | virtualNormal
  | virtualMasks
  | virtualLinearColor
  | virtualLinearGrayscale
  | other (code : UInt8)
deriving DecidableEq, Inhabited

namespace SamplerType

/-- The sampler types in the order of their numbers. -/
def listed : List SamplerType :=
  [color, grayscale, alpha, normal, masks, distanceFieldFont, linearColor, linearGrayscale, data,
   external, virtualColor, virtualGrayscale, virtualAlpha, virtualNormal, virtualMasks,
   virtualLinearColor, virtualLinearGrayscale]

/-- The sampler type with the given number. -/
def ofCode (code : UInt8) : SamplerType := listed.getD code.toNat (other code)

/-- The number of a sampler type. -/
def code : SamplerType → Nat
  | other code => code.toNat
  | t => listed.idxOf t

/-- Whether the type is one for virtual textures. -/
def isVirtual : SamplerType → Bool
  | color | grayscale | alpha | normal | masks | distanceFieldFont | linearColor
  | linearGrayscale | data | external => false
  | _ => true

/-- The sample wrapped in the decoding of its type. -/
def decode (t : SamplerType) (sample : String) : String :=
  match t with
  | external => "ProcessMaterialExternalTextureLookup(" ++ sample ++ ")"
  | color | virtualColor => "ProcessMaterialColorTextureLookup(" ++ sample ++ ")"
  | linearColor | virtualLinearColor => "ProcessMaterialLinearColorTextureLookup(" ++ sample ++ ")"
  | alpha | virtualAlpha | distanceFieldFont => "(" ++ sample ++ ").rrrr"
  | grayscale | virtualGrayscale =>
    "ProcessMaterialGreyscaleTextureLookup((" ++ sample ++ ").r).rrrr"
  | linearGrayscale | virtualLinearGrayscale =>
    "ProcessMaterialLinearGreyscaleTextureLookup((" ++ sample ++ ").r).rrrr"
  | normal | virtualNormal => "UnpackNormalMap(" ++ sample ++ ")"
  | masks | data | virtualMasks | other _ => sample

end SamplerType

/-- Where a sample takes its sampler state from. -/
inductive SamplerSource where
  | asset
  | sharedWrap
  | sharedClamp
  | other (code : UInt8)
deriving DecidableEq, Inhabited

/-- The sampler source with the given number. -/
def SamplerSource.ofCode (code : UInt8) : SamplerSource :=
  [asset, sharedWrap, sharedClamp].getD code.toNat (other code)

/-! ### Coordinates -/

/-- The unmirroring applied to a texture coordinate. -/
inductive Mirror where
  | none
  | u
  | v
  | uv
  | other (code : UInt8)
deriving DecidableEq, Inhabited

namespace Mirror

/-- The unmirroring with the given number. -/
def ofCode (code : UInt8) : Mirror := [none, u, v, uv].getD code.toNat (other code)

/-- The shader function that undoes the mirroring. -/
def function? : Mirror → Option String
  | u => some "UnMirrorU"
  | v => some "UnMirrorV"
  | uv => some "UnMirrorUV"
  | none | other _ => Option.none

end Mirror

/-- Which offsets a world position includes. -/
inductive WorldPosition where
  | plain
  | withoutOffsets
  | cameraRelative
  | cameraRelativeWithoutOffsets
  | other (code : UInt8)
deriving DecidableEq, Inhabited

/-- The world position with the given number. -/
def WorldPosition.ofCode (code : UInt8) : WorldPosition :=
  [plain, withoutOffsets, cameraRelative, cameraRelativeWithoutOffsets].getD code.toNat (other code)

/-! ### Assets -/

/-- A texture asset of a material. -/
structure TextureAsset where
  name : String := ""
  /-- The shader type of the texture. -/
  type : ValueType := ⟨0⟩
  addressX : TextureAddress := .wrap
  addressY : TextureAddress := .wrap
  sizeX : Int := 0
  sizeY : Int := 0
  /-- The number of tiles of a virtual texture. -/
  blocks : Int := 0
deriving Inhabited

end ShaderGraph
