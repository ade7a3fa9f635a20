/-!
# The calendar
-/

namespace ShaderGraph

namespace Calendar

/-- Whether a year has a leap day. -/
def isLeap (year : Nat) : Bool := year % 4 == 0 && (year % 100 != 0 || year % 400 == 0)

/-- The number of days of a month, none for a month that there is not. -/
def daysIn (year month : Nat) : Nat :=
  if month = 2 then if isLeap year then 29 else 28
  else if month = 4 || month = 6 || month = 9 || month = 11 then 30
  else if 1 ≤ month && month ≤ 12 then 31
  else 0

/-- Whether there is such a day. -/
def isDate (year month day : Nat) : Bool := 1 ≤ day && day ≤ daysIn year month

end Calendar

end ShaderGraph
