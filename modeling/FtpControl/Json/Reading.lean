import FtpControl.Json.Value

/-! # Reading JSON documents -/

namespace FtpControl.Json

def isSpace (c : Char) : Bool := c = ' ' || c = '\t' || c = '\n' || c = '\r'

def skipSpace (s : List Char) : List Char := s.dropWhile isSpace

/-! ## Numbers -/

def spanDigits (s : List Char) : List Char × List Char := s.span Char.isDigit

/-- Reads an integer without a sign: a zero alone, or digits that start with another digit. -/
def readInteger? (s : List Char) : Option (List Char × List Char) :=
  match spanDigits s with
  | ([], _) => none
  | ('0' :: _ :: _, _) => none
  | (digits, rest) => some (digits, rest)

def readFraction? : List Char → Option (List Char × List Char)
  | '.' :: s =>
      match spanDigits s with
      | ([], _) => none
      | (digits, rest) => some ('.' :: digits, rest)
  | s => some ([], s)

/-- Reads the sign of an exponent, if there is one. -/
def spanSign : List Char → List Char × List Char
  | '+' :: s => (['+'], s)
  | '-' :: s => (['-'], s)
  | s => ([], s)

def readExponent? : List Char → Option (List Char × List Char)
  | [] => some ([], [])
  | c :: s =>
      if c = 'e' ∨ c = 'E' then
        let (sign, s) := spanSign s
        match spanDigits s with
        | ([], _) => none
        | (digits, rest) => some (c :: (sign ++ digits), rest)
      else some ([], c :: s)

def readNumber? (s : List Char) : Option (Value × List Char) := do
  let (sign, s) := match s with
    | '-' :: s => (['-'], s)
    | s => ([], s)
  let (whole, s) ← readInteger? s
  let (fraction, s) ← readFraction? s
  let (exponent, s) ← readExponent? s
  some (.number (.ofList (sign ++ whole ++ fraction ++ exponent)), s)

/-! ## Strings -/

def hexValue? (c : Char) : Option Nat :=
  if c.isDigit then some (c.toNat - '0'.toNat)
  else if 'a' ≤ c ∧ c ≤ 'f' then some (c.toNat - 'a'.toNat + 10)
  else if 'A' ≤ c ∧ c ≤ 'F' then some (c.toNat - 'A'.toNat + 10)
  else none

/-- The code point that the letter of a short escape stands for. -/
def shortEscape? : Char → Option Nat
  | '"' => some 0x22
  | '\\' => some 0x5C
  | '/' => some 0x2F
  | 'b' => some 0x08
  | 'f' => some 0x0C
  | 'n' => some 0x0A
  | 'r' => some 0x0D
  | 't' => some 0x09
  | _ => none

/-- Reads the rest of a string after its opening quote: code points and, for escapes, units of
UTF-16. -/
def readUnits? : List Char → Option (List Nat × List Char)
  | [] => none
  | '"' :: s => some ([], s)
  | '\\' :: 'u' :: a :: b :: c :: d :: s => do
      let a ← hexValue? a
      let b ← hexValue? b
      let c ← hexValue? c
      let d ← hexValue? d
      let (units, rest) ← readUnits? s
      some ((((a * 16 + b) * 16 + c) * 16 + d) :: units, rest)
  | '\\' :: e :: s => do
      let unit ← shortEscape? e
      let (units, rest) ← readUnits? s
      some (unit :: units, rest)
  | c :: s =>
      if c.toNat < 0x20 ∨ c = '\\' then none
      else (readUnits? s).map fun (units, rest) => (c.toNat :: units, rest)

def isHighSurrogate (n : Nat) : Bool := 0xD800 ≤ n && n ≤ 0xDBFF
def isLowSurrogate (n : Nat) : Bool := 0xDC00 ≤ n && n ≤ 0xDFFF

/-- Puts surrogate pairs together; `none` when half of a pair stands alone. -/
def joinUnits? : List Nat → Option (List Char)
  | [] => some []
  | [n] => if isHighSurrogate n || isLowSurrogate n then none else some [Char.ofNat n]
  | n :: m :: rest =>
      if isHighSurrogate n then
        if isLowSurrogate m then
          (joinUnits? rest).map
            (Char.ofNat (0x10000 + (n - 0xD800) * 0x400 + (m - 0xDC00)) :: ·)
        else none
      else if isLowSurrogate n then none
      else (joinUnits? (m :: rest)).map (Char.ofNat n :: ·)

/-- Reads the rest of a string after its opening quote. -/
def readString? (s : List Char) : Option (Option String × List Char) :=
  (readUnits? s).map fun (units, rest) => ((joinUnits? units).map .ofList, rest)

/-! ## Values -/

/-- Reads a word that stands for a value. -/
def readWord? (word : String) (value : Value) (s : List Char) : Option (Value × List Char) :=
  if s.take word.toList.length = word.toList then some (value, s.drop word.toList.length)
  else none

mutual

/-- Reads a value. The first argument bounds the depth of the recursion. -/
def readValue? : Nat → List Char → Option (Value × List Char)
  | 0, _ => none
  | fuel + 1, s =>
      match skipSpace s with
      | 'n' :: s => readWord? "null" .null ('n' :: s)
      | 't' :: s => readWord? "true" (.bool true) ('t' :: s)
      | 'f' :: s => readWord? "false" (.bool false) ('f' :: s)
      | '"' :: s => (readString? s).map fun (text, rest) => (.string text, rest)
      | '[' :: s =>
          match skipSpace s with
          | ']' :: rest => some (.array [], rest)
          | s => (readItems? fuel s).map fun (items, rest) => (.array items, rest)
      | '{' :: s =>
          match skipSpace s with
          | '}' :: rest => some (.object [], rest)
          | s => (readMembers? fuel s).map fun (members, rest) => (.object members, rest)
      | s => readNumber? s

/-- Reads the items of an array and its end. -/
def readItems? : Nat → List Char → Option (List Value × List Char)
  | 0, _ => none
  | fuel + 1, s => do
      let (item, s) ← readValue? fuel s
      match skipSpace s with
      | ',' :: s =>
          let (items, s) ← readItems? fuel s
          some (item :: items, s)
      | ']' :: s => some ([item], s)
      | _ => none

/-- Reads the members of an object and its end. -/
def readMembers? : Nat → List Char → Option (List (Option String × Value) × List Char)
  | 0, _ => none
  | fuel + 1, s =>
      match skipSpace s with
      | '"' :: s => do
          let (name, s) ← readString? s
          match skipSpace s with
          | ':' :: s =>
              let (value, s) ← readValue? fuel s
              match skipSpace s with
              | ',' :: s =>
                  let (members, s) ← readMembers? fuel s
                  some ((name, value) :: members, s)
              | '}' :: s => some ([(name, value)], s)
              | _ => none
          | _ => none
      | _ => none

end

/-- Reads a document: one value with nothing but white space around it. -/
def readDocument? (s : String) : Option Value :=
  match readValue? (s.toList.length + 1) s.toList with
  | some (value, rest) => if (skipSpace rest).isEmpty then some value else none
  | none => none

end FtpControl.Json
