import Keyring.Config
import Keyring.Key.Basic
import Keyring.Number.Prime
/-!
This module contains the generation of keys. The size of a key is checked before anything is drawn
for it.
-/

namespace Keyring

/-- How many candidates a search for a prime looks at. -/
def maxPrimeCandidates : Nat := 65536

namespace Drawing

/-- Draws a number of exactly `bits` bits, the two highest of which are set. -/
def largeNumber (bits : Nat) : Drawing Nat := do
  let n := Bytes.toNat (← bytes ((bits + 7) / 8))
  return n % (1 <<< (bits - 2)) + (3 <<< (bits - 2))

end Drawing

namespace HmacKey

def generate (bits : Nat) : Drawing HmacKey := do
  if bits % 8 ≠ 0 ∨ bits / 8 < minSize then
    throw (.unsupportedKeySize "HMAC-SHA1" bits)
  MonadExcept.ofExcept (ofBytes (← Drawing.bytes (bits / 8)))

end HmacKey

namespace AesKey

def generate (bits hmacBits : Nat) : Drawing AesKey := do
  if bits ∉ [128, 192, 256] then
    throw (.unsupportedKeySize "AES" bits)
  let key ← Drawing.bytes (bits / 8)
  let hmac ← HmacKey.generate hmacBits
  MonadExcept.ofExcept (ofBytes key hmac)

end AesKey

namespace RsaPrivateKey

def newExponent : Nat := 65537

/-- Draws a prime of some size that suits the public exponent. -/
def generatePrime (bits : Nat) : Drawing Nat := do
  let start ← Drawing.largeNumber bits
  let test p := Number.isProbablePrime p && (p - 1) % newExponent ≠ 0
  match Number.search? test 2 maxPrimeCandidates (start / 2 * 2 + 1) with
  | some p => return p
  | none => throw (.algorithmUnavailable "RSA key generation")

def generate (bits : Nat) : Drawing RsaPrivateKey := do
  if bits ∉ [1024, 2048, 4096] then
    throw (.unsupportedKeySize "RSA" bits)
  let p ← generatePrime (bits / 2)
  let q ← generatePrime (bits / 2)
  if p = q then
    throw (.algorithmUnavailable "RSA key generation")
  let some d := Number.inverseMod? newExponent ((p - 1) * (q - 1))
    | throw (.algorithmUnavailable "RSA key generation")
  MonadExcept.ofExcept (ofNumbers (p * q) newExponent d p q)

end RsaPrivateKey

namespace DsaPrivateKey

/-- The size of the order that goes with the size of the modulus. -/
def orderBits? (bits : Nat) : Option Nat :=
  if bits = 1024 then some 160
  else if bits = 2048 ∨ bits = 3072 then some 256
  else none

/-- Draws an order and a modulus, which is one more than a multiple of the order. -/
def generateDomain (bits orderBits : Nat) : Drawing (Nat × Nat) := do
  let start ← Drawing.largeNumber orderBits
  let some q := Number.search? Number.isProbablePrime 2 maxPrimeCandidates (start / 2 * 2 + 1)
    | throw (.algorithmUnavailable "DSA key generation")
  let start ← Drawing.largeNumber bits
  let some p := Number.search? Number.isProbablePrime (2 * q) maxPrimeCandidates
      (start / (2 * q) * (2 * q) + 1)
    | throw (.algorithmUnavailable "DSA key generation")
  return (p, q)

/-- A number of order `q` modulo `p`. -/
def generator? (p q : Nat) : Option Nat :=
  ((List.range 64).map fun i => Number.powMod (i + 2) ((p - 1) / q) p).find? (1 < ·)

def generate (bits : Nat) : Drawing DsaPrivateKey := do
  let some orderBits := orderBits? bits | throw (.unsupportedKeySize "DSA" bits)
  let (p, q) ← generateDomain bits orderBits
  let some g := generator? p q | throw (.algorithmUnavailable "DSA key generation")
  let x := (← Drawing.largeNumber orderBits) % (q - 1) + 1
  let publicKey ← MonadExcept.ofExcept (DsaPublicKey.ofNumbers p q g (Number.powMod g x p))
  MonadExcept.ofExcept (ofPublic publicKey x)

end DsaPrivateKey

namespace Key

/-- Draws a key of a type with the size that the settings give for it. Public types have no keys of
their own. -/
def generate (type : KeyType) (config : Config) : Drawing Key := do
  let bits := (config.keyBits type).toNat
  match type with
  | .aes => return .aes (← AesKey.generate bits config.hmacKeyBits.toNat)
  | .hmac => return .hmac (← HmacKey.generate bits)
  | .rsaPrivate => return .rsaPrivate (← RsaPrivateKey.generate bits)
  | .dsaPrivate => return .dsaPrivate (← DsaPrivateKey.generate bits)
  | .rsaPublic | .dsaPublic => throw (.unsupportedType type.tag)

end Key

end Keyring
