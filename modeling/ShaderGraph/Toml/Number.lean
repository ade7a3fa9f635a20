import ShaderGraph.Single.Reading

/-!
# Numbers of TOML

Underscores may stand between digits, a point has a digit on each side, and no zero stands in front
of another digit. A number that is too large for double precision is none.
-/

namespace ShaderGraph

namespace Toml

/-- The characters of a number without its underscores. An underscore follows a digit, and neither a
point nor an exponent is next to it. -/
def withoutUnderscores? : (afterDigit : Bool) → List Char → Option (List Char)
  | _, [] => some []
  | afterDigit, '_' :: rest =>
    match rest with
    | [] => none
    | c :: _ =>
      if !afterDigit || c = 'e' || c = 'E' || c = '.' then none
      else withoutUnderscores? false rest
  | afterDigit, c :: rest =>
    if (c = 'e' || c = 'E' || c = '.') && rest.head? = some '_' then none
    else
      let afterDigit :=
        if c = '+' || c = '-' then false
        else if c = 'e' || c = 'E' || c = '.' then afterDigit
        else true
      (withoutUnderscores? afterDigit rest).map (c :: ·)

/-- Whether the points of a number stand between digits, given the character in front. -/
def pointsBetweenDigits : (before : Option Char) → List Char → Bool
  | _, [] => true
  | before, '.' :: rest =>
    (before.map Char.isDigit).getD false && (rest.head?.map Char.isDigit).getD false &&
      pointsBetweenDigits (some '.') rest
  | _, c :: rest => pointsBetweenDigits (some c) rest

/-- Whether a number has a zero in front of another digit. -/
def hasLeadingZero : List Char → Bool
  | '0' :: c :: _ => c.isDigit
  | _ => false

/-- The number that a text stands for. -/
def double? (written : List Char) : Option Double := do
  let cleaned ← withoutUnderscores? false written
  let (negative, body) := Numeral.takeSign cleaned
  if body = ['n', 'a', 'n'] then some .nan
  else if body = ['i', 'n', 'f'] then some (.infinite negative)
  else if !pointsBetweenDigits none cleaned || hasLeadingZero body then none
  else (Numeral.read? cleaned).bind Double.ofNumeral?

end Toml

end ShaderGraph
