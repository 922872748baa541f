/-!
# CRC-32

The cyclic redundancy check with the reflected polynomial `EDB88320`, register and result
complemented.
-/

namespace FtpControl.Digest.Crc32

def shift (c : UInt32) : UInt32 :=
  if c &&& 1 = 1 then (c >>> 1) ^^^ 0xEDB88320 else c >>> 1

def shiftByte (c : UInt32) : UInt32 :=
  shift (shift (shift (shift (shift (shift (shift (shift c)))))))

def start : UInt32 := 0xFFFFFFFF

def step (c : UInt32) (b : UInt8) : UInt32 := shiftByte ((c ^^^ b.toUInt32) &&& 0xFF) ^^^ (c >>> 8)

def absorb (c : UInt32) (bytes : List UInt8) : UInt32 := bytes.foldl step c

def finish (c : UInt32) : List UInt8 :=
  let r := c ^^^ 0xFFFFFFFF
  [(r >>> 24).toUInt8, (r >>> 16).toUInt8, (r >>> 8).toUInt8, r.toUInt8]

end FtpControl.Digest.Crc32
