import Keyring.Error
import Keyring.Number.Modular
/-!
This module contains RSA keys and the two operations on numbers that they perform.
-/

namespace Keyring

structure RsaPublicKey where
  modulus : Nat
  exponent : Nat
  valid : modulus % 2 = 1 ∧ exponent % 2 = 1 ∧ 2 ≤ exponent ∧ exponent < 0x200000000 ∧
    exponent < modulus
deriving DecidableEq

namespace RsaPublicKey

/-- The largest modulus that is accepted for a public key on its own, in bits. -/
def maxBits : Nat := 4096

def ofComponents (n e : Bytes) : Except Error RsaPublicKey :=
  let n := Bytes.toNat n
  let e := Bytes.toNat e
  if h : n % 2 = 1 ∧ e % 2 = 1 ∧ 2 ≤ e ∧ e < 0x200000000 ∧ e < n then
    if n.log2 < maxBits then .ok ⟨n, e, h⟩ else .error .badKey
  else
    .error .badKey

/-- The size of signatures and ciphertexts in bytes, which is the size of the modulus. -/
def size (k : RsaPublicKey) : Nat :=
  Bytes.byteLength k.modulus

def bits (k : RsaPublicKey) : Nat :=
  8 * k.size

def hash (k : RsaPublicKey) : KeyHash :=
  .ofFields [Bytes.ofNat k.modulus, Bytes.ofNat k.exponent]

/-- The public operation on a number below the modulus. -/
def power (k : RsaPublicKey) (m : Nat) : Nat :=
  Number.powMod m k.exponent k.modulus

end RsaPublicKey

/-- An RSA key with its private exponent and two factors of its modulus. That the factors are prime
is not part of it. -/
structure RsaPrivateKey where
  publicKey : RsaPublicKey
  exponent : Nat
  p : Nat
  q : Nat
  valid : 1 < p ∧ 1 < q ∧ p * q = publicKey.modulus ∧
    exponent * publicKey.exponent % (p - 1) = 1 ∧ exponent * publicKey.exponent % (q - 1) = 1
deriving DecidableEq

namespace RsaPrivateKey

def ofNumbers (n e d p q : Nat) : Except Error RsaPrivateKey :=
  if h : n % 2 = 1 ∧ e % 2 = 1 ∧ 2 ≤ e ∧ e < 0x200000000 ∧ e < n then
    if h' : 1 < p ∧ 1 < q ∧ p * q = n ∧ d * e % (p - 1) = 1 ∧ d * e % (q - 1) = 1 then
      .ok ⟨⟨n, e, h⟩, d, p, q, h'⟩
    else
      .error .badKey
  else
    .error .badKey

def ofComponents (n e d p q : Bytes) : Except Error RsaPrivateKey :=
  ofNumbers (Bytes.toNat n) (Bytes.toNat e) (Bytes.toNat d) (Bytes.toNat p) (Bytes.toNat q)

def hash (k : RsaPrivateKey) : KeyHash :=
  k.publicKey.hash

/-- The number that leaves `m₁` modulo `p` and `m₂` modulo `q`, where `qInverse` is the inverse of
`q` modulo `p`. -/
def combine (p q qInverse m₁ m₂ : Nat) : Nat :=
  (m₁ + (p - m₂ % p)) * qInverse % p * q + m₂

/-- The power of the private exponent, taken modulo each factor where these have no divisor in
common. -/
def rawPower (k : RsaPrivateKey) (c : Nat) : Nat :=
  match Number.inverseMod? k.q k.p with
  | some qInverse =>
    combine k.p k.q qInverse (Number.powMod c (k.exponent % (k.p - 1)) k.p)
      (Number.powMod c (k.exponent % (k.q - 1)) k.q)
  | none => Number.powMod c k.exponent k.publicKey.modulus

/-- The private operation on a number below the modulus. It fails where the public operation does
not lead back, which only factors that are not prime can bring about. -/
def power? (k : RsaPrivateKey) (c : Nat) : Option Nat :=
  let m := k.rawPower c
  if k.publicKey.power m = c then some m else none

end RsaPrivateKey

end Keyring
