import Keyring.Rsa.Key
import Keyring.Random
/-!
This module contains RSA encryption of short messages under the padding OAEP, with SHA-1 as its
digest and an empty label.
-/

namespace Keyring.Rsa.Oaep

open Digest

/-- What the padding takes away from the size of the modulus. -/
def overhead : Nat := 2 * Sha1.size + 2

/-- The digest of the empty label. -/
def labelHash : Bytes :=
  Sha1.digest []

/-- The first `n` bytes of the digests of a seed and a counter. -/
def mask (seed : Bytes) (n : Nat) : Bytes :=
  ((List.range ((n + 19) / 20)).flatMap fun i =>
    Sha1.digest (seed ++ Bytes.bigEndian 4 i)).take n

/-- The block of `size` bytes that hides a message, which is short enough, behind a seed. -/
def encode (size : Nat) (seed message : Bytes) : Bytes :=
  let zeros := List.replicate (size - message.length - overhead) 0
  let data := labelHash ++ zeros ++ 1 :: message
  let data := Bytes.xor data (mask seed data.length)
  let seed := Bytes.xor seed (mask data seed.length)
  0 :: seed ++ data

def decode? (block : Bytes) : Option Bytes :=
  match block with
  | 0 :: rest =>
    let data := rest.drop Sha1.size
    let seed := Bytes.xor (rest.take Sha1.size) (mask data Sha1.size)
    let data := Bytes.xor data (mask seed data.length)
    if data.take Sha1.size = labelHash then
      match (data.drop Sha1.size).dropWhile (· == 0) with
      | 1 :: message => some message
      | _ => none
    else
      none
  | _ => none

def maxMessageSize (k : RsaPublicKey) : Nat :=
  k.size - overhead

def encryptWith (k : RsaPublicKey) (seed message : Bytes) : Bytes :=
  Bytes.bigEndian k.size (k.power (Bytes.toNat (encode k.size seed message)))

/-- Draws a seed and encrypts a message, unless it is too long or the key too short. -/
def encrypt (k : RsaPublicKey) (message : Bytes) : Drawing Bytes := do
  if message.length > maxMessageSize k then
    throw (.cryptoOperationFailed "message too long for RSA-OAEP")
  if k.size < overhead then
    throw (.cryptoOperationFailed "RSA")
  return encryptWith k (← Drawing.bytes Sha1.size) message

def decrypt? (k : RsaPrivateKey) (ciphertext : Bytes) : Option Bytes := do
  let size := k.publicKey.size
  let c := Bytes.toNat ciphertext
  if ciphertext.length = size ∧ c < k.publicKey.modulus ∧ overhead ≤ size then
    decode? (Bytes.bigEndian size (← k.power? c))
  else
    none

def decrypt (k : RsaPrivateKey) (ciphertext : Bytes) : Except Error Bytes :=
  match decrypt? k ciphertext with
  | some message => .ok message
  | none => .error (.cryptoOperationFailed "RSA")

end Keyring.Rsa.Oaep
