/-!
# Binary32 numbers

A `Single` is the 32 bit pattern of a floating point number: a sign, eight exponent bits and
twenty three fraction bits. Keeping the pattern, and not a decoded number, keeps the payload of a
NaN, which literals and programs write out.

## The model

Every finite number is a whole multiple of the smallest positive one, `2 ^ (-149)`. `units` gives
that multiple, so arithmetic on finite numbers is arithmetic on natural numbers, exact until one
rounding at the end (`ShaderGraph.Single.Arithmetic`). The pattern without its sign, `code`, grows
with the magnitude, so comparing numbers is comparing codes.
-/

namespace ShaderGraph

/-- A binary32 number, as its bit pattern. -/
structure Single where
  bits : UInt32
deriving DecidableEq, Inhabited

namespace Single

/-! ### Fields of the pattern -/

/-- The weight of the sign bit. -/
def signPlace : Nat := Nat.pow 2 31

/-- The number of fractions that share one exponent. -/
def fractionCount : Nat := Nat.pow 2 23

/-- The code of infinity: larger codes are NaN, smaller ones are finite. -/
def infinityCode : Nat := 255 * fractionCount

/-- Whether the sign bit is set. -/
def negative (x : Single) : Bool := signPlace ≤ x.bits.toNat

/-- The pattern without its sign. -/
def code (x : Single) : Nat := x.bits.toNat % signPlace

/-- The number with the given sign and code. -/
def ofCode (negative : Bool) (code : Nat) : Single :=
  ⟨(code + if negative then signPlace else 0).toUInt32⟩

/-- Whether `x` is not a number. -/
def isNaN (x : Single) : Bool := infinityCode < x.code

/-- Whether `x` is one of the two infinities. -/
def isInfinite (x : Single) : Bool := x.code == infinityCode

/-- Whether `x` is a finite number. -/
def isFinite (x : Single) : Bool := x.code < infinityCode

/-- Whether `x` is one of the two zeros. -/
def isZero (x : Single) : Bool := x.code == 0

/-- The magnitude of a finite number as a multiple of `2 ^ (-149)`. -/
def units (x : Single) : Nat :=
  let exponent := x.code / fractionCount
  let fraction := x.code % fractionCount
  if exponent = 0 then fraction else (fractionCount + fraction) * Nat.pow 2 (exponent - 1)

/-- The number of units in one. -/
def unitsPerOne : Nat := Nat.pow 2 149

/-! ### Named numbers -/

/-- Positive zero. -/
def zero : Single := ⟨0⟩

/-- One. -/
def one : Single := ⟨0x3f800000⟩

/-- Two. -/
def two : Single := ⟨0x40000000⟩

/-- One half. -/
def half : Single := ⟨0x3f000000⟩

/-- A tenth, rounded. -/
def tenth : Single := ⟨0x3dcccccd⟩

/-- A third, rounded. -/
def third : Single := ⟨0x3eaaaaab⟩

/-- A thousand. -/
def thousand : Single := ⟨0x447a0000⟩

/-- The NaN that arithmetic produces. -/
def nan : Single := ⟨0x7fc00000⟩

/-- Infinity of the given sign. -/
def infinity (negative : Bool) : Single := ofCode negative infinityCode

/-- Zero of the given sign. -/
def signedZero (negative : Bool) : Single := ofCode negative 0

/-! ### Comparison -/

/-- The rank of a number that is not NaN: it orders numbers by value, and the two zeros share
one. -/
def rank (x : Single) : Int := if x.negative then -(x.code : Int) else x.code

/-- Equality of values: a NaN equals nothing, and the two zeros are equal. -/
def equal (x y : Single) : Bool := !x.isNaN && !y.isNaN && x.rank == y.rank

/-- The order of values; false if either is NaN. -/
def less (x y : Single) : Bool := !x.isNaN && !y.isNaN && x.rank < y.rank

/-! ### Sign operations -/

/-- The number without its sign. -/
def abs (x : Single) : Single := ofCode false x.code

/-- The number with its sign flipped. -/
def neg (x : Single) : Single := ofCode (!x.negative) x.code

end Single

end ShaderGraph
