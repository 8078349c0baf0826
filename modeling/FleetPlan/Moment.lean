/-
Moments in time, as reports write them.

A moment is counted in milliseconds from the beginning of 1970.  Years are counted
from the first of March here, so that the day that a leap year adds is the last
of its year and the lengths of the months before it follow one rule.
-/

namespace FleetPlan

structure Moment where
  milliseconds : Nat
  deriving DecidableEq, Repr

namespace Moment

/-- The days in four hundred years, after which the calendar repeats. -/
def daysInEra : Nat := 146097

/-- Year, month and day of a day counted from the beginning of 1970. -/
def date (day : Nat) : Nat × Nat × Nat :=
  let shifted := day + 719468
  let dayOfEra := shifted % daysInEra
  let yearOfEra :=
    (dayOfEra - dayOfEra / 1460 + dayOfEra / 36524 - dayOfEra / 146096) / 365
  let dayOfYear := dayOfEra - (365 * yearOfEra + yearOfEra / 4 - yearOfEra / 100)
  let march := (5 * dayOfYear + 2) / 153
  let month := if march < 10 then march + 3 else march - 9
  let year := yearOfEra + 400 * (shifted / daysInEra)
  (if month ≤ 2 then year + 1 else year, month, dayOfYear - (153 * march + 2) / 5 + 1)

def padded (width n : Nat) : String :=
  let digits := toString n
  String.ofList (List.replicate (width - digits.length) '0') ++ digits

/-- The moment with its date and time of day, to the millisecond. -/
def text (t : Moment) : String :=
  let (year, month, day) := date (t.milliseconds / 86400000)
  let ofDay := t.milliseconds % 86400000
  padded 4 year ++ "-" ++ padded 2 month ++ "-" ++ padded 2 day ++ "T" ++
    padded 2 (ofDay / 3600000) ++ ":" ++ padded 2 (ofDay / 60000 % 60) ++ ":" ++
    padded 2 (ofDay / 1000 % 60) ++ "." ++ padded 3 (ofDay % 1000) ++ "Z"

end Moment

end FleetPlan
