import FtpControl.Digest.Block

/-! # SHA-256 -/

namespace FtpControl.Digest.Sha256

/-- The eight words of the chaining value. -/
structure State where
  a : UInt32
  b : UInt32
  c : UInt32
  d : UInt32
  e : UInt32
  f : UInt32
  g : UInt32
  h : UInt32
  deriving DecidableEq, Repr

/-- The chaining value before any block: fractions of the square roots of the first primes. -/
def start : State :=
  ⟨0x6a09e667, 0xbb67ae85, 0x3c6ef372, 0xa54ff53a,
   0x510e527f, 0x9b05688c, 0x1f83d9ab, 0x5be0cd19⟩

/-- The constant of each round: fractions of the cube roots of the first primes. -/
def constants : List UInt32 :=
  [0x428a2f98, 0x71374491, 0xb5c0fbcf, 0xe9b5dba5, 0x3956c25b, 0x59f111f1,
   0x923f82a4, 0xab1c5ed5, 0xd807aa98, 0x12835b01, 0x243185be, 0x550c7dc3,
   0x72be5d74, 0x80deb1fe, 0x9bdc06a7, 0xc19bf174, 0xe49b69c1, 0xefbe4786,
   0x0fc19dc6, 0x240ca1cc, 0x2de92c6f, 0x4a7484aa, 0x5cb0a9dc, 0x76f988da,
   0x983e5152, 0xa831c66d, 0xb00327c8, 0xbf597fc7, 0xc6e00bf3, 0xd5a79147,
   0x06ca6351, 0x14292967, 0x27b70a85, 0x2e1b2138, 0x4d2c6dfc, 0x53380d13,
   0x650a7354, 0x766a0abb, 0x81c2c92e, 0x92722c85, 0xa2bfe8a1, 0xa81a664b,
   0xc24b8b70, 0xc76c51a3, 0xd192e819, 0xd6990624, 0xf40e3585, 0x106aa070,
   0x19a4c116, 0x1e376c08, 0x2748774c, 0x34b0bcb5, 0x391c0cb3, 0x4ed8aa4a,
   0x5b9cca4f, 0x682e6ff3, 0x748f82ee, 0x78a5636f, 0x84c87814, 0x8cc70208,
   0x90befffa, 0xa4506ceb, 0xbef9a3f7, 0xc67178f2]

/-- The small mixing of an early schedule word. -/
def sigma0 (x : UInt32) : UInt32 := rotateRight32 x 7 ^^^ rotateRight32 x 18 ^^^ (x >>> 3)

/-- The small mixing of a late schedule word. -/
def sigma1 (x : UInt32) : UInt32 := rotateRight32 x 17 ^^^ rotateRight32 x 19 ^^^ (x >>> 10)

def sum0 (x : UInt32) : UInt32 := rotateRight32 x 2 ^^^ rotateRight32 x 13 ^^^ rotateRight32 x 22

def sum1 (x : UInt32) : UInt32 := rotateRight32 x 6 ^^^ rotateRight32 x 11 ^^^ rotateRight32 x 25

def extend (w : Array UInt32) (i : Nat) : Array UInt32 :=
  w.push (sigma1 (w.getD (i + 14) 0) + w.getD (i + 9) 0 + sigma0 (w.getD (i + 1) 0) + w.getD i 0)

/-- The words of a block's schedule, one for each round. -/
def schedule (block : List UInt8) : Array UInt32 :=
  (List.range 48).foldl extend (words32 block).toArray

def round (s : State) : UInt32 × UInt32 → State
  | (k, w) =>
      let choice := (s.e &&& s.f) ^^^ (~~~s.e &&& s.g)
      let majority := (s.a &&& s.b) ^^^ (s.a &&& s.c) ^^^ (s.b &&& s.c)
      let t := s.h + sum1 s.e + choice + k + w
      ⟨t + sum0 s.a + majority, s.a, s.b, s.c, s.d + t, s.e, s.f, s.g⟩

def compress (s : State) (block : List UInt8) : State :=
  let t := (constants.zip (schedule block).toList).foldl round s
  ⟨s.a + t.a, s.b + t.b, s.c + t.c, s.d + t.d, s.e + t.e, s.f + t.f, s.g + t.g, s.h + t.h⟩

/-- The digest that a chaining value stands for. -/
def result (s : State) : List UInt8 :=
  [s.a, s.b, s.c, s.d, s.e, s.f, s.g, s.h].flatMap fun w => bigEndian 4 w.toNat

def hash : BlockHash State := ⟨64, 8, start, compress, bigEndian 8, result⟩

end FtpControl.Digest.Sha256
