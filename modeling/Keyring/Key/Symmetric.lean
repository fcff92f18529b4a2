import Keyring.Error
/-!
This module contains the secret keys that both sides share: keys that sign with HMAC-SHA1, and AES
keys together with the key that authenticates their ciphertexts.
-/

namespace Keyring

/-- A symmetric signing key, no shorter than the digest that it keys. -/
structure HmacKey where
  bytes : Bytes
  size_le : 20 ≤ bytes.length
deriving DecidableEq

namespace HmacKey

def minSize : Nat := 20

def ofBytes (bs : Bytes) : Except Error HmacKey :=
  if h : 20 ≤ bs.length then
    .ok ⟨bs, h⟩
  else
    .error (.badLength "get HMAC key" minSize bs.length)

def hash (k : HmacKey) : KeyHash :=
  .ofFields [k.bytes]

def bits (k : HmacKey) : Nat :=
  8 * k.bytes.length

end HmacKey

/-- A symmetric encryption key and its integrity key. -/
structure AesKey where
  bytes : Bytes
  hmac : HmacKey
  size_mem : bytes.length = 16 ∨ bytes.length = 24 ∨ bytes.length = 32
deriving DecidableEq

namespace AesKey

def ofBytes (bs : Bytes) (hmac : HmacKey) : Except Error AesKey :=
  if h : bs.length = 16 ∨ bs.length = 24 ∨ bs.length = 32 then
    .ok ⟨bs, hmac, h⟩
  else
    .error (.badLength "get AES key" 16 bs.length)

def hash (k : AesKey) : KeyHash :=
  .ofFields [k.bytes, k.hmac.bytes]

def bits (k : AesKey) : Nat :=
  8 * k.bytes.length

/-- The size of a ciphertext with its initial block and its trailer. -/
def outputSize (inputSize : Nat) : Nat :=
  16 + (inputSize / 16 + 1) * 16 + 20

end AesKey

end Keyring
