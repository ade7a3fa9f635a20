import ShaderGraph.Calendar
import ShaderGraph.Single.Reading
import ShaderGraph.Toml.Document

/-!
# Moments of TOML

Whether the text of a moment names one: fields of fixed width with fixed characters between them,
each in its range, and a day that the calendar has.
-/

namespace ShaderGraph

namespace Toml

/-- The number that a field of digits stands for. -/
def field? (digits : List Char) : Option Nat :=
  if digits.all Char.isDigit then some (Numeral.ofDigits digits) else none

/-- The text after a date. -/
def date? (s : List Char) : Option (List Char) := do
  if s.length < 10 || s[4]? != some '-' || s[7]? != some '-' then none
  let year ← field? (s.take 4)
  let month ← field? ((s.drop 5).take 2)
  let day ← field? ((s.drop 8).take 2)
  if Calendar.isDate year month day then some (s.drop 10) else none

/-- The text after a time. A fraction of a second has at least one digit. -/
def time? (s : List Char) : Option (List Char) := do
  if s.length < 8 || s[2]? != some ':' || s[5]? != some ':' then none
  let hour ← field? (s.take 2)
  let minute ← field? ((s.drop 3).take 2)
  let second ← field? ((s.drop 6).take 2)
  if 23 < hour || 59 < minute || 59 < second then none
  match s.drop 8 with
  | '.' :: rest =>
    if (rest.head?.map Char.isDigit).getD false then some (rest.dropWhile Char.isDigit) else none
  | rest => some rest

/-- The text after a date and a time. -/
def dateTime? (s : List Char) : Option (List Char) := do
  match ← date? s with
  | separator :: rest =>
    if separator = 'T' || separator = 't' || separator = ' ' then time? rest else none
  | [] => none

/-- Whether a text is a zone: a letter, or a sign, hours and minutes. -/
def isZone : List Char → Bool
  | ['Z'] | ['z'] => true
  | [sign, h, i, ':', m, n] =>
    (sign = '+' || sign = '-') &&
      ((field? [h, i]).elim false fun hours => hours ≤ 23) &&
      ((field? [m, n]).elim false fun minutes => minutes ≤ 59)
  | _ => false

/-- Whether a text of the given kind names a moment. -/
def isMoment (kind : MomentKind) (written : List Char) : Bool :=
  match kind with
  | .date => date? written == some []
  | .time => time? written == some []
  | .dateTime => dateTime? written == some []
  | .offsetDateTime => (dateTime? written).elim false isZone

end Toml

end ShaderGraph
