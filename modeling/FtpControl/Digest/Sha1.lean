import FtpControl.Digest.Block

/-! # SHA-1 -/

namespace FtpControl.Digest.Sha1

/-- The five words of the chaining value. -/
structure State where
  a : UInt32
  b : UInt32
  c : UInt32
  d : UInt32
  e : UInt32
  deriving DecidableEq, Repr

def start : State := ⟨0x67452301, 0xEFCDAB89, 0x98BADCFE, 0x10325476, 0xC3D2E1F0⟩

def extend (w : Array UInt32) (i : Nat) : Array UInt32 :=
  w.push (rotateLeft32
    (w.getD (i + 13) 0 ^^^ w.getD (i + 8) 0 ^^^ w.getD (i + 2) 0 ^^^ w.getD i 0) 1)

def schedule (block : List UInt8) : Array UInt32 :=
  (List.range 64).foldl extend (words32 block).toArray

/-- The mixing function and the constant of a round. -/
def mix (i : Nat) (s : State) : UInt32 × UInt32 :=
  if i < 20 then ((s.b &&& s.c) ||| (~~~s.b &&& s.d), 0x5A827999)
  else if i < 40 then (s.b ^^^ s.c ^^^ s.d, 0x6ED9EBA1)
  else if i < 60 then ((s.b &&& s.c) ||| (s.b &&& s.d) ||| (s.c &&& s.d), 0x8F1BBCDC)
  else (s.b ^^^ s.c ^^^ s.d, 0xCA62C1D6)

def round (s : State) : UInt32 × Nat → State
  | (w, i) =>
      let (f, k) := mix i s
      ⟨rotateLeft32 s.a 5 + f + s.e + k + w, s.a, rotateLeft32 s.b 30, s.c, s.d⟩

def compress (s : State) (block : List UInt8) : State :=
  let t := (schedule block).toList.zipIdx.foldl round s
  ⟨s.a + t.a, s.b + t.b, s.c + t.c, s.d + t.d, s.e + t.e⟩

/-- The digest that a chaining value stands for. -/
def result (s : State) : List UInt8 :=
  [s.a, s.b, s.c, s.d, s.e].flatMap fun w => bigEndian 4 w.toNat

def hash : BlockHash State := ⟨64, 8, start, compress, bigEndian 8, result⟩

end FtpControl.Digest.Sha1
