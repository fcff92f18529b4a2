import Keyring.Rsa.Key
/-!
This module contains RSA signatures over SHA-1 digests, under the padding PKCS#1 v1.5.
-/

namespace Keyring.Rsa.Signature

open Digest

/-- What names SHA-1 in front of a digest. -/
def digestInfo : Bytes :=
  [0x30, 0x21, 0x30, 0x09, 0x06, 0x05, 0x2b, 0x0e, 0x03, 0x02, 0x1a, 0x05, 0x00, 0x04, 0x14]

/-- The least size of a modulus that has room for a padded digest. -/
def minSize : Nat := 46

/-- The block of `size` bytes that is signed for a message. -/
def encode (size : Nat) (message : Bytes) : Bytes :=
  0 :: 1 :: List.replicate (size - 38) 0xff ++ 0 :: digestInfo ++ Sha1.digest message

def sign? (k : RsaPrivateKey) (message : Bytes) : Option Bytes := do
  let size := k.publicKey.size
  if minSize ≤ size then
    return Bytes.bigEndian size (← k.power? (Bytes.toNat (encode size message)))
  else
    none

def sign (k : RsaPrivateKey) (message : Bytes) : Except Error Bytes :=
  match sign? k message with
  | some trailer => .ok trailer
  | none => .error (.cryptoOperationFailed "RSA")

def verify (k : RsaPublicKey) (message trailer : Bytes) : Bool :=
  let s := Bytes.toNat trailer
  trailer.length = k.size ∧ s < k.modulus ∧ minSize ≤ k.size ∧
    Bytes.bigEndian k.size (k.power s) = encode k.size message

end Keyring.Rsa.Signature
