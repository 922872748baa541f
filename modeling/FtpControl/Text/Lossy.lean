/-!
# Reading bytes as text

Well-formed UTF-8 is decoded. Where a sequence breaks off, the longest part of it that could
still have been completed is replaced by one U+FFFD, and decoding goes on at the byte that broke
it; a byte that can start no sequence is replaced alone.
-/

namespace FtpControl.Text

/-- The character that stands for bytes that are no text. -/
def replacement : Char := '\uFFFD'

/-- Whether `b` continues a sequence, between the bounds that its lead byte sets. -/
def within (low high b : UInt8) : Bool := low ≤ b && b ≤ high

def isTail (b : UInt8) : Bool := within 0x80 0xBF b

def tailBits (b : UInt8) : Nat := b.toNat % 64

/-- The bounds on the byte after the lead byte of a three-byte sequence: no overlong forms, no
surrogates. -/
def secondOfThree (lead b : UInt8) : Bool :=
  if lead = 0xE0 then within 0xA0 0xBF b
  else if lead = 0xED then within 0x80 0x9F b
  else isTail b

/-- The bounds on the byte after the lead byte of a four-byte sequence: no overlong forms,
nothing above U+10FFFF. -/
def secondOfFour (lead b : UInt8) : Bool :=
  if lead = 0xF0 then within 0x90 0xBF b
  else if lead = 0xF4 then within 0x80 0x8F b
  else isTail b

def decodeChars : List UInt8 → List Char
  | [] => []
  | a :: rest =>
      if a < 0x80 then Char.ofNat a.toNat :: decodeChars rest
      else if within 0xC2 0xDF a then
        match rest with
        | [] => [replacement]
        | b :: rest' =>
            if isTail b then
              Char.ofNat (a.toNat % 32 * 64 + tailBits b) :: decodeChars rest'
            else replacement :: decodeChars (b :: rest')
      else if within 0xE0 0xEF a then
        match rest with
        | [] => [replacement]
        | [b] =>
            if secondOfThree a b then [replacement] else replacement :: decodeChars [b]
        | b :: c :: rest' =>
            if !secondOfThree a b then replacement :: decodeChars (b :: c :: rest')
            else if isTail c then
              Char.ofNat ((a.toNat % 16 * 64 + tailBits b) * 64 + tailBits c) ::
                decodeChars rest'
            else replacement :: decodeChars (c :: rest')
      else if within 0xF0 0xF4 a then
        match rest with
        | [] => [replacement]
        | [b] =>
            if secondOfFour a b then [replacement] else replacement :: decodeChars [b]
        | [b, c] =>
            if !secondOfFour a b then replacement :: decodeChars [b, c]
            else if isTail c then [replacement]
            else replacement :: decodeChars [c]
        | b :: c :: d :: rest' =>
            if !secondOfFour a b then replacement :: decodeChars (b :: c :: d :: rest')
            else if !isTail c then replacement :: decodeChars (c :: d :: rest')
            else if isTail d then
              Char.ofNat (((a.toNat % 8 * 64 + tailBits b) * 64 + tailBits c) * 64 +
                tailBits d) :: decodeChars rest'
            else replacement :: decodeChars (d :: rest')
      else replacement :: decodeChars rest

/-- The text that bytes spell, with replacements where they spell none. -/
def ofBytesLossy (bytes : List UInt8) : String := .ofList (decodeChars bytes)

@[simp] theorem decodeChars_nil : decodeChars [] = [] := by simp [decodeChars]

/-- An ASCII byte is its own character, whatever follows. -/
theorem decodeChars_ascii {a : UInt8} (h : a < 0x80) (rest : List UInt8) :
    decodeChars (a :: rest) = Char.ofNat a.toNat :: decodeChars rest := by
  rw [decodeChars.eq_def]
  simp [h]

end FtpControl.Text
