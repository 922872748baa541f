import FtpControl.Digest.Algorithm
import FtpControl.Digest.Crc32
import FtpControl.Digest.Md5
import FtpControl.Digest.Sha1
import FtpControl.Digest.Sha256
import FtpControl.Digest.Sha512
import FtpControl.Numeral

/-! # Digests of a message that arrives in parts -/

namespace FtpControl

/-- A digest half computed, by algorithm. -/
inductive DigestEngine where
  | crc32 (register : UInt32)
  | md5 (read : Digest.Absorber Digest.Md5.State)
  | sha1 (read : Digest.Absorber Digest.Sha1.State)
  | sha256 (read : Digest.Absorber Digest.Sha256.State)
  | sha512 (read : Digest.Absorber Digest.Sha512.State)

namespace DigestEngine

def start : HashAlgorithm → DigestEngine
  | .crc32 => crc32 Digest.Crc32.start
  | .md5 => md5 Digest.Md5.hash.fresh
  | .sha1 => sha1 Digest.Sha1.hash.fresh
  | .sha256 => sha256 Digest.Sha256.hash.fresh
  | .sha512 => sha512 Digest.Sha512.hash.fresh

def update (engine : DigestEngine) (bytes : List UInt8) : DigestEngine :=
  match engine with
  | crc32 c => crc32 (Digest.Crc32.absorb c bytes)
  | md5 a => md5 (Digest.Md5.hash.absorb a bytes)
  | sha1 a => sha1 (Digest.Sha1.hash.absorb a bytes)
  | sha256 a => sha256 (Digest.Sha256.hash.absorb a bytes)
  | sha512 a => sha512 (Digest.Sha512.hash.absorb a bytes)

def digest : DigestEngine → List UInt8
  | crc32 c => Digest.Crc32.finish c
  | md5 a => Digest.Md5.hash.finish a
  | sha1 a => Digest.Sha1.hash.finish a
  | sha256 a => Digest.Sha256.hash.finish a
  | sha512 a => Digest.Sha512.hash.finish a

def hex (engine : DigestEngine) : String := Numeral.hexBytes engine.digest

@[simp] theorem update_nil (engine : DigestEngine) : engine.update [] = engine := by
  cases engine <;> rfl

/-- Two parts one after the other are the same as both at once. -/
theorem update_append (engine : DigestEngine) (xs ys : List UInt8) :
    engine.update (xs ++ ys) = (engine.update xs).update ys := by
  cases engine <;>
    simp [update, Digest.BlockHash.absorb_append, Digest.Crc32.absorb, List.foldl_append]

end DigestEngine

namespace HashAlgorithm

/-- The digest of some bytes, in lowercase hexadecimal. -/
def hashBytes (a : HashAlgorithm) (bytes : List UInt8) : String :=
  ((DigestEngine.start a).update bytes).hex

/-- The digest of parts given one after the other. -/
def hashParts (a : HashAlgorithm) (parts : List (List UInt8)) : String :=
  (parts.foldl DigestEngine.update (DigestEngine.start a)).hex

end HashAlgorithm

end FtpControl
