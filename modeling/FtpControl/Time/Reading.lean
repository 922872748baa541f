import FtpControl.Text.Blank
import FtpControl.Time.Timestamp

/-!
# Reading timestamps

Dates and times in the manner of RFC 3339, read leniently: numbers may have fewer digits, white
space may stand around the separators, and the offset may be written in several ways. The date must
be in the calendar, and the result in the range of years that is kept.
-/

namespace FtpControl.Timestamp

def yearInRange (year : Int) : Bool := decide (-262143 ≤ year ∧ year ≤ 262142)

def digitValue (c : Char) : Nat := c.toNat - '0'.toNat

/-- Reads at least one and at most `most` digits. -/
def readNumber? (most : Nat) (s : List Char) : Option (Nat × List Char) :=
  match (s.take most).takeWhile Char.isDigit with
  | [] => none
  | digits =>
      some (digits.foldl (fun n c => 10 * n + digitValue c) 0, s.drop digits.length)

/-- Reads a number of one or two digits, up to a greatest value, after white space. -/
def readField? (greatest : Nat) (s : List Char) : Option (Nat × List Char) := do
  let (n, rest) ← readNumber? 2 (Text.skipBlanks s)
  if n ≤ greatest then some (n, rest) else none

/-- Reads a year: up to four digits, or a sign and any number of digits. -/
def readYear? (s : List Char) : Option (Int × List Char) :=
  match Text.skipBlanks s with
  | '-' :: rest => (readNumber? rest.length rest).map fun (n, r) => (-(n : Int), r)
  | '+' :: rest => (readNumber? rest.length rest).map fun (n, r) => ((n : Int), r)
  | rest => (readNumber? 4 rest).map fun (n, r) => ((n : Int), r)

def readMark? (mark : Char) (s : List Char) : Option (List Char) :=
  match Text.skipBlanks s with
  | c :: rest => if c = mark then some rest else none
  | [] => none

/-- Reads the letter or space between date and time. -/
def readDivider? : List Char → Option (List Char)
  | c :: rest => if c = 't' ∨ c = 'T' ∨ c = ' ' then some rest else none
  | [] => none

/-- Reads a fraction of a second, if there is one, as nanoseconds; further digits are dropped. -/
def readFraction? : List Char → Option (Nat × List Char)
  | '.' :: rest =>
      match rest.takeWhile Char.isDigit with
      | [] => none
      | digits =>
          let kept := (digits.take 9).rightpad 9 '0'
          some (kept.foldl (fun n c => 10 * n + digitValue c) 0, rest.drop digits.length)
  | s => some (0, s)

def readPair? : List Char → Option (Nat × List Char)
  | a :: b :: rest =>
      if a.isDigit ∧ b.isDigit then some (10 * digitValue a + digitValue b, rest) else none
  | _ => none

/-- Reads hours, colons or white space, and minutes below sixty, as minutes. -/
def readClock? (s : List Char) : Option (Nat × List Char) := do
  let (hours, rest) ← readPair? s
  let (minutes, rest) ← readPair? (rest.dropWhile fun c => c = ':' || Text.isBlank c)
  if minutes < 60 then some (60 * hours + minutes, rest) else none

/-- Reads an offset from UTC in minutes: a name of UTC, or a signed clock. -/
def readOffset? : List Char → Option (Int × List Char)
  | 'Z' :: rest => some (0, rest)
  | 'z' :: rest => some (0, rest)
  | '+' :: rest => (readClock? rest).map fun (n, r) => ((n : Int), r)
  | '-' :: rest => (readClock? rest).map fun (n, r) => (-(n : Int), r)
  | '−' :: rest => (readClock? rest).map fun (n, r) => (-(n : Int), r)
  | a :: b :: c :: rest =>
      if [a, b, c].map Char.toUpper = ['U', 'T', 'C'] then some (0, rest) else none
  | _ => none

/-- Reads a date, in the calendar and in the range that is kept. -/
def readDate? (s : List Char) : Option (CivilDate × List Char) := do
  let (year, s) ← readYear? s
  let s ← readMark? '-' s
  let (month, s) ← readField? 12 s
  let s ← readMark? '-' s
  let (day, s) ← readField? 31 s
  let date : CivilDate := ⟨year, month, day⟩
  if yearInRange year && date.isValid then some (date, s) else none

/-- Reads a time of day as seconds and nanoseconds. The sixtieth second is the fifty-ninth with a
second's worth of nanoseconds more. -/
def readTime? (s : List Char) : Option ((Nat × Nat) × List Char) := do
  let (hour, s) ← readField? 23 s
  let s ← readMark? ':' s
  let (minute, s) ← readField? 59 s
  let s ← readMark? ':' s
  let (second, s) ← readField? 60 s
  let (nanos, s) ← readFraction? s
  let whole := 3600 * hour + 60 * minute
  if second = 60 then some ((whole + 59, nanos + 1000000000), s)
  else some ((whole + second, nanos), s)

/-- Reads date, time and offset, with nothing but white space after them. -/
def readChars? (s : List Char) : Option Timestamp := do
  let (date, s) ← readDate? s
  let s ← readDivider? s
  let ((second, nanos), s) ← readTime? s
  let (offset, s) ← readOffset? (Text.skipBlanks s)
  let t : Timestamp := ⟨date.toDays * 86400 + second - offset * 60, nanos⟩
  if (Text.skipBlanks s).isEmpty && offset.natAbs < 1440 && yearInRange t.date.year then some t
  else none

def read? (s : String) : Option Timestamp := readChars? s.toList

end FtpControl.Timestamp
