import ShaderGraph.Single.Arithmetic

/-!
# Decimal text of binary32 numbers

Three texts are written. `fixed` rounds the exact value to a number of places, a half going to the
even neighbour. `literal` is the shader literal: eight places with the zeros at its end taken off
down to one place, and a bit cast for what has no literal. `shortest` is the text of listings and
messages: the fewest digits that read back as the same number, positional for moderate exponents.
-/

namespace ShaderGraph

namespace Single

/-! ### Fixed places -/

/-- The decimal digits of `n`, with zeros in front up to `width`. -/
def paddedDigits (width n : Nat) : List Char :=
  let digits := Nat.toDigits 10 n
  List.replicate (width - digits.length) '0' ++ digits

/-- The magnitude of a finite number in units of `10 ^ (-places)`, rounded half to even. -/
def decimalUnits (places : Nat) (x : Single) : Nat :=
  roundDiv (x.units * Nat.pow 10 places) unitsPerOne

/-- The whole digits and the `places` fraction digits of a finite number. -/
def fixedDigits (places : Nat) (x : Single) : List Char × List Char :=
  let n := x.decimalUnits places
  (Nat.toDigits 10 (n / Nat.pow 10 places), paddedDigits places (n % Nat.pow 10 places))

/-- The text with the given number of places; a number that is not finite has a name. -/
def fixed (places : Nat) (x : Single) : String :=
  if x.isNaN then "NaN"
  else if x.isInfinite then if x.negative then "-Inf" else "+Inf"
  else
    let (whole, fraction) := x.fixedDigits places
    String.ofList ((if x.negative then ['-'] else []) ++ whole ++ '.' :: fraction)

/-- Takes zeros off the end of `digits`, but keeps the first digit. -/
def trimZeros : List Char → List Char
  | [] => []
  | c :: rest => c :: (rest.reverse.dropWhile (· == '0')).reverse

/-! ### Literals -/

/-- The places of a shader literal. -/
def literalPlaces : Nat := 8

/-- The end of a buffer without the zeros before its end, but not before `stop`. -/
def trimmedEnd (b : List Char) (stop : Nat) : Nat → Nat
  | 0 => 0
  | i + 1 => if stop < i ∧ b[i]? = some '0' then trimmedEnd b stop i else i + 1

/-- Appends the literal of a number to a buffer, with the given minus sign and decimal point. The
language has no literal for NaN and the infinities, which are written as a cast of their bits. -/
def appendLiteral (b : List Char) (minus point : Char) (x : Single) : List Char :=
  if x.isFinite then
    let start := b.length
    let b := b ++ (x.fixed literalPlaces).toList
    match (b.drop start).findIdx? (· == '.') with
    | none => if b[start]? = some '-' then b.set start minus else b
    | some index =>
      let b := b.set (start + index) point
      let b := if b[start]? = some '-' then b.set start minus else b
      b.take (trimmedEnd b (start + index + 1) b.length)
  else b ++ "asfloat(0x".toList ++ Nat.toDigits 16 x.bits.toNat ++ [')']

/-- The shader literal of a number. -/
def literal (x : Single) : String := String.ofList (x.appendLiteral [] '-' '.')

/-! ### Shortest digits -/

/-- The reals that round to a finite number, in quarter units: the lower and the upper end. The
codes below a power of two are twice as dense. -/
def roundingEnds (x : Single) : Nat × Nat :=
  let exponent := x.code / fractionCount
  let step := if exponent = 0 then 1 else Nat.pow 2 (exponent - 1)
  let below := if x.code % fractionCount = 0 && 1 < exponent then step else 2 * step
  (4 * x.units - below, 4 * x.units + 2 * step)

/-- Whether the decimal `d * 10 ^ k` rounds to `x`. The ends round to the even code. -/
def readsBack (x : Single) (d : Nat) (k : Int) : Bool :=
  let (low, high) := x.roundingEnds
  let value := d * (4 * unitsPerOne) * Nat.pow 10 k.toNat
  let scale := Nat.pow 10 (-k).toNat
  if x.code % 2 = 0 then low * scale ≤ value && value ≤ high * scale
  else low * scale < value && value < high * scale

/-- The decimal exponent of a positive number: that of its first digit. -/
def decimalExponent (x : Single) : Int :=
  let whole := x.units / unitsPerOne
  if 0 < whole then ((Nat.toDigits 10 whole).length : Int) - 1
  else
    match (List.range 60).find? fun k => unitsPerOne ≤ x.units * Nat.pow 10 k with
    | some k => -(k : Int)
    | none => -60

/-- The neighbour of `x` on the grid of multiples of `10 ^ k` that rounds to it, the nearer one if
both do, an even one in a tie. -/
def gridPoint? (x : Single) (k : Int) : Option Nat :=
  let n := x.units * Nat.pow 10 (-k).toNat
  let d := unitsPerOne * Nat.pow 10 k.toNat
  let low := n / d
  match x.readsBack low k, x.readsBack (low + 1) k with
  | true, true => some (roundDiv n d)
  | true, false => some low
  | false, true => some (low + 1)
  | false, false => none

/-- The first grid, from the coarsest on, with a decimal that reads back, and that decimal: its
digits, without zeros at the end, and the exponent of its first digit. Nine digits always do. -/
def shortestDigits (x : Single) : List Char × Int :=
  let exponent := x.decimalExponent
  let found := (List.range 9).findSome? fun (i : Nat) =>
    let k := exponent - (i : Int)
    (x.gridPoint? k).map fun d => (d, k)
  let (d, k) := found.getD (0, 0)
  let digits := Nat.toDigits 10 d
  (trimZeros digits, k + (digits.length : Int) - 1)

/-- Exponents from `lowest` to below `limit` are written positionally. -/
structure Layout where
  lowest : Int
  limit : Int

/-- Positional notation from `0.0001` to below a million. -/
def listingLayout : Layout := ⟨-4, 6⟩

/-- Digits in the given layout: positional, or with an exponent of at least two digits. -/
def layOut (style : Layout) (digits : List Char) (exponent : Int) : List Char :=
  if exponent < style.lowest || style.limit ≤ exponent then
    let mantissa := match digits with
      | [] => ['0']
      | [c] => [c]
      | c :: rest => c :: '.' :: rest
    mantissa ++ 'e' :: (if exponent < 0 then '-' else '+') :: paddedDigits 2 exponent.natAbs
  else if exponent < 0 then
    '0' :: '.' :: List.replicate (exponent.natAbs - 1) '0' ++ digits
  else
    let width := exponent.toNat + 1
    let whole := digits.take width
    let fraction := digits.drop width
    whole ++ List.replicate (width - whole.length) '0' ++
      (if fraction.isEmpty then [] else '.' :: fraction)

/-- The text with the fewest digits that reads back as `x`. -/
def shortest (x : Single) : String :=
  if x.isNaN then "NaN"
  else if x.isInfinite then if x.negative then "-Inf" else "+Inf"
  else
    let magnitude :=
      if x.isZero then ['0']
      else
        let (digits, exponent) := x.shortestDigits
        layOut listingLayout digits exponent
    String.ofList ((if x.negative then ['-'] else []) ++ magnitude)

end Single

end ShaderGraph
