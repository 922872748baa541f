import FtpControl.Numeral
import FtpControl.Time.Calendar

/-!
# Points in time

A timestamp counts seconds from 1970 in UTC. Within a second it counts nanoseconds; a count of
a whole second or more stands for the leap second after it.
-/

namespace FtpControl

/-- A point in time. -/
structure Timestamp where
  seconds : Int
  nanos : Nat := 0
  deriving DecidableEq, Repr

namespace Timestamp

def date (t : Timestamp) : CivilDate := .ofDays (t.seconds / 86400)

def secondOfDay (t : Timestamp) : Nat := (t.seconds % 86400).toNat

def hour (t : Timestamp) : Nat := t.secondOfDay / 3600
def minute (t : Timestamp) : Nat := t.secondOfDay % 3600 / 60

/-- The second of the minute, 60 in a leap second. -/
def second (t : Timestamp) : Nat := t.secondOfDay % 60 + t.nanos / 1000000000

def fraction (t : Timestamp) : Nat := t.nanos % 1000000000

/-- A year: four digits, and a sign outside the years 0 to 9999. -/
def yearText (year : Int) : String :=
  if year < 0 then "-" ++ Numeral.decimal 4 year.natAbs
  else if 9999 < year then "+" ++ Numeral.decimal 4 year.natAbs
  else Numeral.decimal 4 year.natAbs

def two (n : Nat) : String := Numeral.decimal 2 n

/-- Date and time as digits only, as file facts give them. -/
def compact (t : Timestamp) : String :=
  yearText t.date.year ++ two t.date.month.toNat ++ two t.date.day.toNat ++ two t.hour ++
    two t.minute ++ two t.second

/-- The fraction of a second with as many digits as it needs: none, three, six or nine. -/
def fractionText (nanos : Nat) : String :=
  if nanos = 0 then ""
  else if nanos % 1000000 = 0 then "." ++ Numeral.decimal 3 (nanos / 1000000)
  else if nanos % 1000 = 0 then "." ++ Numeral.decimal 6 (nanos / 1000)
  else "." ++ Numeral.decimal 9 nanos

/-- Date and time as in RFC 3339, in UTC. -/
def rfc3339 (t : Timestamp) : String :=
  yearText t.date.year ++ "-" ++ two t.date.month.toNat ++ "-" ++ two t.date.day.toNat ++ "T" ++
    two t.hour ++ ":" ++ two t.minute ++ ":" ++ two t.second ++ fractionText t.fraction ++ "Z"

end Timestamp

end FtpControl
