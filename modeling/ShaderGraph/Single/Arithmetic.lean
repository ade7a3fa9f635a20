import ShaderGraph.Single.Basic

/-!
# Arithmetic on binary32 numbers

The operations compute the exact result of finite operands as a ratio of whole numbers of units
and round it once, to the nearest number with ties to the even code. Zeros keep the sign rules of
the format, and an operation without a defined result gives NaN.

Trigonometric functions and logarithms are those of double precision, rounded to single.
-/

namespace ShaderGraph

namespace Single

/-! ### Rounding -/

/-- `n / d` rounded to the nearest natural number, a tie going to the even one. -/
def roundDiv (n d : Nat) : Nat :=
  let q := n / d
  let r := n % d
  if 2 * r < d then q
  else if d < 2 * r then q + 1
  else q + q % 2

/-- The code of the number nearest to `n / d` units. Codes of one binade are evenly spaced, so the
step is the power of two that leaves twenty four digits; a carry into the next binade is the
successor code. -/
def nearestCode (n d : Nat) : Nat :=
  let step := Nat.log2 (n / d) - 23
  min infinityCode (step * fractionCount + roundDiv n (d * Nat.pow 2 step))

/-- The number of the given sign nearest to `n / d` units. -/
def nearest (negative : Bool) (n d : Nat) : Single := ofCode negative (nearestCode n d)

/-- The signed number of units of a finite number. -/
def signedUnits (x : Single) : Int := if x.negative then -(x.units : Int) else x.units

/-- The whole part of a finite number, modulo `2 ^ 64`. -/
def wholePart (x : Single) : UInt64 := UInt64.ofInt (x.signedUnits.tdiv unitsPerOne)

/-- The integer nearest to the format: `i` rounded to single. -/
def ofInt (i : Int) : Single := nearest (i < 0) (i.natAbs * unitsPerOne) 1

/-! ### The four operations and the square root -/

/-- The sum. A sum of zeros of one sign keeps it; any other exact zero is positive. -/
def add (x y : Single) : Single :=
  if x.isNaN || y.isNaN then nan
  else if x.isInfinite then
    if y.isInfinite && x.negative != y.negative then nan else x
  else if y.isInfinite then y
  else if x.isZero && y.isZero then signedZero (x.negative && y.negative)
  else
    let sum := x.signedUnits + y.signedUnits
    nearest (sum < 0) sum.natAbs 1

/-- The difference. -/
def sub (x y : Single) : Single := if y.isNaN then nan else add x y.neg

/-- The product. -/
def mul (x y : Single) : Single :=
  let negative := x.negative != y.negative
  if x.isNaN || y.isNaN then nan
  else if x.isInfinite || y.isInfinite then
    if x.isZero || y.isZero then nan else infinity negative
  else nearest negative (x.units * y.units) unitsPerOne

/-- The quotient. -/
def div (x y : Single) : Single :=
  let negative := x.negative != y.negative
  if x.isNaN || y.isNaN then nan
  else if x.isInfinite then
    if y.isInfinite then nan else infinity negative
  else if y.isInfinite then signedZero negative
  else if y.isZero then
    if x.isZero then nan else infinity negative
  else nearest negative (x.units * unitsPerOne) y.units

/-- One step of Newton's method for the whole square root of `n`, repeated while it decreases. -/
def squareRootFrom (n : Nat) : Nat → Nat → Nat
  | 0, r => r
  | fuel + 1, r =>
    let next := (r + n / r) / 2
    if next < r then squareRootFrom n fuel next else r

/-- The largest natural number whose square is at most `n`. -/
def wholeSquareRoot (n : Nat) : Nat :=
  if n = 0 then 0 else squareRootFrom n (n.log2 + 1) (Nat.pow 2 (n.log2 / 2 + 1))

/-- The square root. The whole root is taken far below the last digit that counts, and an inexact
one is moved off the grid by half a step, so that it rounds as the exact root does. -/
def sqrt (x : Single) : Single :=
  if x.isNaN then nan
  else if x.isZero then x
  else if x.negative then nan
  else if x.isInfinite then x
  else
    let scale := Nat.pow 2 64
    let n := x.units * unitsPerOne * (scale * scale)
    let root := wholeSquareRoot n
    if root * root = n then nearest false root scale
    else nearest false (2 * root + 1) (2 * scale)

/-! ### Whole parts and remainders -/

/-- The largest whole number not above `x`. -/
def floor (x : Single) : Single :=
  if x.isZero || !x.isFinite then x
  else
    let whole := x.units / unitsPerOne
    if x.negative then
      nearest true ((if x.units % unitsPerOne = 0 then whole else whole + 1) * unitsPerOne) 1
    else nearest false (whole * unitsPerOne) 1

/-- The smallest whole number not below `x`. -/
def ceil (x : Single) : Single := x.neg.floor.neg

/-- The part of `x` above its floor. -/
def frac (x : Single) : Single := x.sub x.floor

/-- The remainder of the division toward zero, with the sign of `x`. -/
def fmod (x y : Single) : Single :=
  if y.isZero || x.isInfinite || x.isNaN || y.isNaN then nan
  else if y.isInfinite then x
  else nearest x.negative (x.units % y.units) 1

/-! ### Extremes and ranges -/

/-- The smaller number. Negative infinity wins over NaN, NaN over the rest, and of two zeros a
negative first operand. -/
def min (x y : Single) : Single :=
  if (x.isInfinite && x.negative) || (y.isInfinite && y.negative) then infinity true
  else if x.isNaN || y.isNaN then nan
  else if x.isZero && y.isZero then
    if x.negative then x else y
  else if x.less y then x else y

/-- The larger number. Positive infinity wins over NaN, NaN over the rest, and of two zeros a
positive first operand. -/
def max (x y : Single) : Single :=
  if (x.isInfinite && !x.negative) || (y.isInfinite && !y.negative) then infinity false
  else if x.isNaN || y.isNaN then nan
  else if x.isZero && y.isZero then
    if x.negative then y else x
  else if y.less x then x else y

/-- The number brought between `lo` and `hi`; the upper bound wins. -/
def clamp (x lo hi : Single) : Single := hi.min (x.max lo)

/-- The length of the vector with the two coordinates, without overflow of the squares. -/
def hypot (x y : Single) : Single :=
  if x.isInfinite || y.isInfinite then infinity false
  else if x.isNaN || y.isNaN then nan
  else
    let long := if x.abs.less y.abs then y.abs else x.abs
    let short := if x.abs.less y.abs then x.abs else y.abs
    if long.isZero then zero
    else
      let ratio := short.div long
      long.mul (one.add (ratio.mul ratio)).sqrt

/-! ### Functions of double precision -/

/-- The number in double precision. -/
def toDouble (x : Single) : Float := (Float32.ofBits x.bits).toFloat

/-- The single nearest to a double. -/
def ofDouble (x : Float) : Single := ⟨x.toFloat32.toBits⟩

/-- The sine of an angle. -/
def sin (x : Single) : Single := ofDouble x.toDouble.sin

/-- The cosine of an angle. -/
def cos (x : Single) : Single := ofDouble x.toDouble.cos

/-- The tangent of an angle. -/
def tan (x : Single) : Single := ofDouble x.toDouble.tan

/-- The angle with the given sine. -/
def asin (x : Single) : Single := ofDouble x.toDouble.asin

/-- The angle with the given cosine. -/
def acos (x : Single) : Single := ofDouble x.toDouble.acos

/-- The angle with the given tangent. -/
def atan (x : Single) : Single := ofDouble x.toDouble.atan

/-- The angle of the vector `(x, y)`. -/
def atan2 (y x : Single) : Single := ofDouble (Float.atan2 y.toDouble x.toDouble)

/-- The logarithm to base two. -/
def log2 (x : Single) : Single := ofDouble x.toDouble.log2

/-- The logarithm to base ten. -/
def log10 (x : Single) : Single := ofDouble x.toDouble.log10

end Single

end ShaderGraph
