import Keyring.Bytes
/-!
This module contains the checksums of compressed data: CRC-32, the remainder of the reflected
polynomial `0xedb88320`, and Adler-32, a pair of sums modulo 65521.
-/

namespace Keyring.Digest

namespace Crc32

/-- Divides one bit out of the register. -/
def shift (r : UInt32) : UInt32 :=
  if r &&& 1 = 1 then (r >>> 1) ^^^ 0xedb88320 else r >>> 1

def step (r : UInt32) (b : UInt8) : UInt32 :=
  Nat.repeat shift 8 (r ^^^ b.toUInt32)

def checksum (bs : Bytes) : UInt32 :=
  bs.foldl step 0xffffffff ^^^ 0xffffffff

end Crc32

namespace Adler32

def modulus : Nat := 65521

def step (s : Nat × Nat) (b : UInt8) : Nat × Nat :=
  let low := (s.1 + b.toNat) % modulus
  (low, (s.2 + low) % modulus)

/-- The sum of the running sums above the sum of the bytes. -/
def checksum (bs : Bytes) : UInt32 :=
  let (low, high) := bs.foldl step (1, 0)
  UInt32.ofNat (high * 65536 + low)

end Adler32

end Keyring.Digest
