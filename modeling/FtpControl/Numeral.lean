/-!
# Unsigned numerals

Reading a numeral of a given radix below a given bound. A numeral is an optional `+` and at least
one digit; leading zeros are allowed. Characters are judged from left to right, so a numeral that
already exceeds its bound is too large whatever follows.
-/

namespace FtpControl

/-- Why a text is no numeral. -/
inductive NumeralError where
  | empty
  | invalidDigit
  | tooLarge
  deriving DecidableEq, Repr

namespace NumeralError

def message : NumeralError → String
  | empty => "cannot parse integer from empty string"
  | invalidDigit => "invalid digit found in string"
  | tooLarge => "number too large to fit in target type"

end NumeralError

namespace Numeral

/-- The value of a digit of the given radix, for radices up to ten. -/
def digit? (radix : Nat) (c : Char) : Option Nat :=
  if c.isDigit ∧ c.toNat - '0'.toNat < radix then some (c.toNat - '0'.toNat) else none

/-- Reads digits onto a value read so far. -/
def readDigits (radix bound : Nat) : Nat → List Char → Except NumeralError Nat
  | value, [] => .ok value
  | value, c :: cs =>
      match digit? radix c with
      | none => .error .invalidDigit
      | some d =>
          if value * radix + d < bound then readDigits radix bound (value * radix + d) cs
          else .error .tooLarge

def readChars (radix bound : Nat) : List Char → Except NumeralError Nat
  | [] => .error .empty
  | ['+'] => .error .invalidDigit
  | '+' :: cs => readDigits radix bound 0 cs
  | cs => readDigits radix bound 0 cs

/-- Reads a numeral of the given radix that denotes a number below `bound`. -/
def read (radix bound : Nat) (s : String) : Except NumeralError Nat :=
  readChars radix bound s.toList

/-- A decimal numeral below 2^64, as offsets and sizes are written. -/
def readOffset (s : String) : Except NumeralError Nat := read 10 UInt64.size s

/-- A decimal numeral below 2^32, as user and group numbers are written. -/
def readId (s : String) : Except NumeralError Nat := read 10 UInt32.size s

/-- An octal numeral below 2^32, as permission bits are written. -/
def readMode (s : String) : Except NumeralError Nat := read 8 UInt32.size s

end Numeral

/-! ## Writing numbers -/

namespace Numeral

/-- Zeros in front until the text has at least `width` characters. -/
def padZeros (width : Nat) (s : String) : String :=
  .ofList (List.replicate (width - s.toList.length) '0' ++ s.toList)

/-- A number in decimal, with at least `width` digits. -/
def decimal (width n : Nat) : String := padZeros width (.ofList (Nat.toDigits 10 n))

/-- A number in octal, with at least `width` digits. -/
def octal (width n : Nat) : String := padZeros width (.ofList (Nat.toDigits 8 n))

/-- The lowercase hexadecimal digit of a number below sixteen. -/
def hexDigit (n : Nat) : Char := Nat.digitChar (n % 16)

def hexBytes (bytes : List UInt8) : String :=
  .ofList (bytes.flatMap fun b => [hexDigit (b.toNat / 16), hexDigit b.toNat])

end Numeral

end FtpControl
