/-!
# Digests that work block by block

MD5 and the SHA family cut the message into blocks, pad the last one with a one bit, zeros and the
length of the message, and chain a compression function over the blocks. A `BlockHash` states what
a family member fixes; an `Absorber` holds a message half read.
-/

namespace FtpControl.Digest

/-- What one block digest fixes. -/
structure BlockHash (S : Type) where
  blockSize : Nat
  /-- Bytes at the end of the last block that hold the length. -/
  lengthSize : Nat
  /-- The chaining value before any block. -/
  start : S
  /-- One block into the chaining value. -/
  compress : S → List UInt8 → S
  /-- The length field for a message of so many bits. -/
  lengthField : Nat → List UInt8
  /-- The digest that a chaining value stands for. -/
  result : S → List UInt8

/-- A message half read: the chaining value of its whole blocks, the bytes after them, and the
number of bytes so far. -/
structure Absorber (S : Type) where
  chain : S
  pending : Array UInt8
  length : Nat

namespace BlockHash

variable {S : Type} (h : BlockHash S)

def fresh : Absorber S := ⟨h.start, #[], 0⟩

/-- One byte more; a block that is full goes into the chaining value. -/
def step (a : Absorber S) (b : UInt8) : Absorber S :=
  let pending := a.pending.push b
  if pending.size < h.blockSize then ⟨a.chain, pending, a.length + 1⟩
  else ⟨h.compress a.chain pending.toList, #[], a.length + 1⟩

def absorb (a : Absorber S) (bytes : List UInt8) : Absorber S := bytes.foldl h.step a

/-- The bytes that complete a message of the given length: a one bit, the fewest zeros that fill
the block up to the length field, and the length in bits. -/
def padding (length : Nat) : List UInt8 :=
  let used := (length + 1 + h.lengthSize) % h.blockSize
  0x80 :: List.replicate ((h.blockSize - used) % h.blockSize) 0 ++ h.lengthField (8 * length)

def finish (a : Absorber S) : List UInt8 := h.result (h.absorb a (h.padding a.length)).chain

@[simp] theorem absorb_nil (a : Absorber S) : h.absorb a [] = a := rfl

/-- Reading two parts is reading them as one. -/
theorem absorb_append (a : Absorber S) (xs ys : List UInt8) :
    h.absorb a (xs ++ ys) = h.absorb (h.absorb a xs) ys :=
  List.foldl_append

end BlockHash

/-! ## Words and bytes -/

/-- A number in `n` bytes, the most significant first, wrapping. -/
def bigEndian (n value : Nat) : List UInt8 :=
  (List.range n).map fun i => UInt8.ofNat (value >>> (8 * (n - 1 - i)))

/-- A number in `n` bytes, the least significant first, wrapping. -/
def littleEndian (n value : Nat) : List UInt8 :=
  (List.range n).map fun i => UInt8.ofNat (value >>> (8 * i))

/-- The 32-bit words of a block whose bytes come most significant first. -/
def words32 : List UInt8 → List UInt32
  | a :: b :: c :: d :: rest =>
      ((a.toUInt32 <<< 24) ||| (b.toUInt32 <<< 16) ||| (c.toUInt32 <<< 8) ||| d.toUInt32) ::
        words32 rest
  | _ => []

/-- The 32-bit words of a block whose bytes come least significant first. -/
def words32Reversed : List UInt8 → List UInt32
  | a :: b :: c :: d :: rest =>
      ((d.toUInt32 <<< 24) ||| (c.toUInt32 <<< 16) ||| (b.toUInt32 <<< 8) ||| a.toUInt32) ::
        words32Reversed rest
  | _ => []

/-- The 64-bit words of a block whose bytes come most significant first. -/
def words64 : List UInt8 → List UInt64
  | a :: b :: c :: d :: e :: f :: g :: h :: rest =>
      ((a.toUInt64 <<< 56) ||| (b.toUInt64 <<< 48) ||| (c.toUInt64 <<< 40) |||
        (d.toUInt64 <<< 32) ||| (e.toUInt64 <<< 24) ||| (f.toUInt64 <<< 16) |||
        (g.toUInt64 <<< 8) ||| h.toUInt64) :: words64 rest
  | _ => []

/-- Rotation of a 32-bit word to the left, by less than 32 places. -/
def rotateLeft32 (x n : UInt32) : UInt32 := (x <<< n) ||| (x >>> (32 - n))

/-- Rotation of a 32-bit word to the right, by less than 32 places. -/
def rotateRight32 (x n : UInt32) : UInt32 := (x >>> n) ||| (x <<< (32 - n))

/-- Rotation of a 64-bit word to the right, by less than 64 places. -/
def rotateRight64 (x n : UInt64) : UInt64 := (x >>> n) ||| (x <<< (64 - n))

end FtpControl.Digest
