import ShaderGraph.Single.Arithmetic

/-!
# Binary32 numbers read from text

A number in a file is written in decimal. It is kept in double precision before it becomes single,
so it is rounded twice, each time to the nearest number with ties to the even one.

## The model

A `Numeral` is the decimal as it is written. A finite `Double` is a whole multiple of the smallest
positive one, `2 ^ (-1074)`, in the same way in which a `Single` is one of `2 ^ (-149)`; so both
roundings are of a ratio of whole numbers.
-/

namespace ShaderGraph

/-! ### Decimal numerals -/

/-- A number as it is written: `digits * 10 ^ exponent`, with a sign. -/
structure Numeral where
  negative : Bool
  digits : Nat
  exponent : Int
deriving DecidableEq

namespace Numeral

/-- The number that a run of decimal digits stands for. -/
def ofDigits (digits : List Char) : Nat :=
  digits.foldl (fun n c => 10 * n + (c.toNat - '0'.toNat)) 0

/-- Whether a text begins with a minus sign, and what follows its sign if it has one. -/
def takeSign : List Char → Bool × List Char
  | '-' :: rest => (true, rest)
  | '+' :: rest => (false, rest)
  | rest => (false, rest)

/-- The exponent that ends a numeral: nothing, or a letter, a sign if there is one, and digits. -/
def exponent? : List Char → Option Int
  | [] => some 0
  | mark :: rest =>
    let (negative, digits) := takeSign rest
    if (mark = 'e' || mark = 'E') && !digits.isEmpty && digits.all Char.isDigit then
      some (if negative then -(ofDigits digits : Int) else ofDigits digits)
    else none

/-- Reads a sign if there is one, digits with at most one point before, between or after them, and
an exponent if there is one. -/
def read? (text : List Char) : Option Numeral :=
  let (negative, body) := takeSign text
  let whole := body.takeWhile Char.isDigit
  let (fraction, rest) := match body.dropWhile Char.isDigit with
    | '.' :: rest => (rest.takeWhile Char.isDigit, rest.dropWhile Char.isDigit)
    | rest => ([], rest)
  if whole.isEmpty && fraction.isEmpty then none
  else
    (exponent? rest).map fun exponent =>
      ⟨negative, ofDigits (whole ++ fraction), exponent - fraction.length⟩

/-- The exponent of the place in front of the first digit. -/
def magnitude (n : Numeral) : Int := (Nat.toDigits 10 n.digits).length + n.exponent

end Numeral

/-! ### Double precision -/

/-- A double precision number. The units of a finite one are multiples of `2 ^ (-1074)`. -/
inductive Double where
  | finite (negative : Bool) (units : Nat)
  | infinite (negative : Bool)
  | nan
deriving DecidableEq

namespace Double

/-- The number of units in one. -/
def unitsPerOne : Nat := Nat.pow 2 1074

/-- The first number of units beyond the finite numbers. -/
def unitLimit : Nat := Nat.pow 2 2098

/-- The units of the number nearest to `n / d` units: the fifty three leading digits are kept. -/
def nearestUnits (n d : Nat) : Nat :=
  let step := Nat.pow 2 (Nat.log2 (n / d) - 52)
  Single.roundDiv n (d * step) * step

/-- The decimal exponent beyond which a number is too large, and below whose negation it is
nothing. -/
def exponentBound : Int := 400

/-- The number nearest to a numeral; none if it is too large to be finite. -/
def ofNumeral? (n : Numeral) : Option Double :=
  if n.digits = 0 || n.magnitude < -exponentBound then some (finite n.negative 0)
  else if exponentBound < n.magnitude then none
  else
    let units := nearestUnits (n.digits * unitsPerOne * Nat.pow 10 n.exponent.toNat)
      (Nat.pow 10 (-n.exponent).toNat)
    if units < unitLimit then some (finite n.negative units) else none

/-- The number nearest to a whole number. -/
def ofInt (i : Int) : Double := finite (i < 0) (nearestUnits (i.natAbs * unitsPerOne) 1)

/-- The single precision number nearest to a number; infinite if it is too large. -/
def toSingle : Double → Single
  | finite negative units => Single.nearest negative units (Nat.pow 2 (1074 - 149))
  | infinite negative => Single.infinity negative
  | nan => Single.nan

/-- Whether a number is larger than every finite single precision number. -/
def exceedsSingle : Double → Bool
  | finite negative units =>
    !negative && (Nat.pow 2 24 - 1) * Nat.pow 2 104 * unitsPerOne < units
  | infinite negative => !negative
  | nan => false

end Double

end ShaderGraph
