/-!
This module contains byte strings and the numbers that they spell: big-endian, in the least or in a
fixed number of bytes, and little-endian in a fixed number of bytes.
-/

namespace Keyring

/-- A byte string, first byte first. -/
abbrev Bytes := List UInt8

namespace Bytes

/-- The number that a byte string spells, most significant byte first. -/
def toNat (bs : Bytes) : Nat :=
  bs.foldl (fun n b => n * 256 + b.toNat) 0

/-- The first `width` bytes of the little-endian form of a number. -/
def littleEndian : Nat → Nat → Bytes
  | 0, _ => []
  | width + 1, n => UInt8.ofNat n :: littleEndian width (n / 256)

/-- The last `width` bytes of the big-endian form of a number. -/
def bigEndian (width n : Nat) : Bytes :=
  (littleEndian width n).reverse

/-- The number that a byte string spells, least significant byte first. -/
def toNatLE : Bytes → Nat
  | [] => 0
  | b :: bs => b.toNat + 256 * toNatLE bs

/-- How many bytes a number needs. Zero needs none. -/
def byteLength (n : Nat) : Nat :=
  if n = 0 then 0 else n.log2 / 8 + 1

/-- The big-endian form of a number without leading zero bytes. -/
def ofNat (n : Nat) : Bytes :=
  bigEndian (byteLength n) n

/-- What is left of a big-endian number without its leading zero bytes. -/
def stripZeros (bs : Bytes) : Bytes :=
  bs.dropWhile (· == 0)

/-- A field, which is a byte string after its length. -/
def field (bs : Bytes) : Bytes :=
  bigEndian 4 bs.length ++ bs

/-- The bytewise exclusive or, as long as the shorter argument. -/
def xor (a b : Bytes) : Bytes :=
  List.zipWith (· ^^^ ·) a b

/-- The bytes cut into blocks of a positive `size`, the last of which may be shorter. -/
def blocks (size : Nat) : Bytes → List Bytes
  | [] => []
  | b :: bs => (b :: bs.take (size - 1)) :: blocks size (bs.drop (size - 1))
termination_by bs => bs.length
decreasing_by
  simp only [List.length_drop, List.length_cons]
  omega

@[simp]
theorem length_littleEndian (width n : Nat) : (littleEndian width n).length = width := by
  induction width generalizing n with
  | zero => rfl
  | succ width ih => simp [littleEndian, ih]

@[simp]
theorem length_bigEndian (width n : Nat) : (bigEndian width n).length = width := by
  simp [bigEndian]

end Bytes

end Keyring
