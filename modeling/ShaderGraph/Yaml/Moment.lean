import ShaderGraph.Calendar
import ShaderGraph.Single.Reading

/-!
# Moments of YAML

Whether a text names a moment: a day, perhaps with a time after a space, or with a time and a zone
after a letter. All numbers but the year may be written with one digit or two.
-/

namespace ShaderGraph

namespace Yaml

/-- A number of one digit or two, and the text after it. -/
def field? : List Char → Option (Nat × List Char)
  | c :: d :: rest =>
    if !c.isDigit then none
    else if d.isDigit then some (Numeral.ofDigits [c, d], rest)
    else some (Numeral.ofDigits [c], d :: rest)
  | [c] => if c.isDigit then some (Numeral.ofDigits [c], []) else none
  | [] => none

/-- The text after a character. -/
def after? (x : Char) : List Char → Option (List Char)
  | c :: rest => if c = x then some rest else none
  | [] => none

/-- The text after a day. -/
def date? (s : List Char) : Option (List Char) := do
  let year := s.takeWhile Char.isDigit
  if year.length ≠ 4 then none
  let (month, s) ← field? (← after? '-' (s.drop 4))
  let (day, s) ← field? (← after? '-' s)
  if Calendar.isDate (Numeral.ofDigits year) month day then some s else none

/-- The text after the fraction of a second, if there is one. -/
def skipFraction : List Char → List Char
  | mark :: digit :: rest =>
    if (mark = '.' || mark = ',') && digit.isDigit then rest.dropWhile Char.isDigit
    else mark :: digit :: rest
  | s => s

/-- The text after a time. -/
def time? (s : List Char) : Option (List Char) := do
  let (hour, s) ← field? s
  let (minute, s) ← field? (← after? ':' s)
  let (second, s) ← field? (← after? ':' s)
  if hour < 24 && minute < 60 && second < 60 then some (skipFraction s) else none

/-- Whether a text is a zone: a letter, or a sign, hours and minutes. -/
def isZone : List Char → Bool
  | ['Z'] => true
  | [sign, h, i, ':', m, n] =>
    (sign = '+' || sign = '-') && [h, i, m, n].all Char.isDigit &&
      Numeral.ofDigits [h, i] ≤ 24 && Numeral.ofDigits [m, n] ≤ 60
  | _ => false

/-- Whether a text names a moment. -/
def isMoment (s : List Char) : Bool :=
  match date? s with
  | some [] => true
  | some (' ' :: rest) => time? rest == some []
  | some (mark :: rest) => (mark = 'T' || mark = 't') && (time? rest).elim false isZone
  | none => false

end Yaml

end ShaderGraph
