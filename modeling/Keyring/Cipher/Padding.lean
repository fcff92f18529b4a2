import Keyring.Bytes
/-!
This module contains the padding of messages to whole blocks: as many bytes as are missing, at least
one, each of which tells how many they are.
-/

namespace Keyring.Cipher.Padding

def pad (blockSize : Nat) (bs : Bytes) : Bytes :=
  let n := blockSize - bs.length % blockSize
  bs ++ List.replicate n (UInt8.ofNat n)

/-- Strips the padding off a last block, if it is well formed. -/
def unpad? (blockSize : Nat) (block : Bytes) : Option Bytes :=
  let n := (block.getLastD 0).toNat
  if 0 < n ∧ n ≤ blockSize ∧ n ≤ block.length ∧
      (block.drop (block.length - n)).all (· == UInt8.ofNat n) then
    some (block.take (block.length - n))
  else
    none

end Keyring.Cipher.Padding
