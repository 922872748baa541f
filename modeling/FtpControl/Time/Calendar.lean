/-!
# The Gregorian calendar

Days are counted from 1 January 1970, and the calendar is extended without end in both directions.
For the conversion a year begins in March, so that a leap day is the last day of its year, and
years are grouped in cycles of four hundred, which all have the same number of days.
-/

namespace FtpControl

/-- A calendar date. -/
structure CivilDate where
  year : Int
  month : Int
  day : Int
  deriving DecidableEq, Repr

namespace CivilDate

/-- Days in a cycle of four hundred years. -/
def cycleDays : Int := 146097

/-- The number of days from 1 March of the year 0 to 1 January 1970. -/
def epochOffset : Int := 719468

/-- Days of a year, begun in March, before its `m`th month. -/
def daysBeforeMonth (m : Int) : Int := (153 * m + 2) / 5

/-- Days of a cycle before its `y`th year. -/
def daysBeforeYear (y : Int) : Int := 365 * y + y / 4 - y / 100

def ofDays (days : Int) : CivilDate :=
  let shifted := days + epochOffset
  let cycle := shifted / cycleDays
  let dayOfCycle := shifted % cycleDays
  let yearOfCycle :=
    (dayOfCycle - dayOfCycle / 1460 + dayOfCycle / 36524 - dayOfCycle / 146096) / 365
  let dayOfYear := dayOfCycle - daysBeforeYear yearOfCycle
  let m := (5 * dayOfYear + 2) / 153
  let month := if m < 10 then m + 3 else m - 9
  { year := yearOfCycle + cycle * 400 + (if month ≤ 2 then 1 else 0)
    month := month
    day := dayOfYear - daysBeforeMonth m + 1 }

def toDays (d : CivilDate) : Int :=
  let year := if d.month ≤ 2 then d.year - 1 else d.year
  let m := if d.month ≤ 2 then d.month + 9 else d.month - 3
  let yearOfCycle := year % 400
  year / 400 * cycleDays + daysBeforeYear yearOfCycle + daysBeforeMonth m + (d.day - 1) -
    epochOffset

/-- Whether a date is in the calendar: it is the date of its own day. -/
def isValid (d : CivilDate) : Bool :=
  decide (1 ≤ d.month ∧ d.month ≤ 12 ∧ 1 ≤ d.day ∧ d.day ≤ 31) && ofDays d.toDays == d

end CivilDate

end FtpControl
