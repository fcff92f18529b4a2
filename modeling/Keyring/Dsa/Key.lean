import Keyring.Error
import Keyring.Number.Modular
/-!
This module contains DSA keys.
-/

namespace Keyring

structure DsaPublicKey where
  p : Nat
  q : Nat
  g : Nat
  y : Nat
  valid : 2 ≤ p ∧ 2 ≤ q ∧ 0 < g ∧ g ≤ p ∧ 2 ≤ y ∧ Number.powMod y q p = 1
deriving DecidableEq

namespace DsaPublicKey

def ofNumbers (p q g y : Nat) : Except Error DsaPublicKey :=
  if h : 2 ≤ p ∧ 2 ≤ q ∧ 0 < g ∧ g ≤ p ∧ 2 ≤ y ∧ Number.powMod y q p = 1 then
    .ok ⟨p, q, g, y, h⟩
  else
    .error .badKey

def ofComponents (p q g y : Bytes) : Except Error DsaPublicKey :=
  ofNumbers (Bytes.toNat p) (Bytes.toNat q) (Bytes.toNat g) (Bytes.toNat y)

def halfSize (k : DsaPublicKey) : Nat :=
  Bytes.byteLength k.q

def signatureSize (k : DsaPublicKey) : Nat :=
  2 * k.halfSize

def bits (k : DsaPublicKey) : Nat :=
  8 * Bytes.byteLength k.p

def hash (k : DsaPublicKey) : KeyHash :=
  .ofFields [Bytes.ofNat k.p, Bytes.ofNat k.q, Bytes.ofNat k.g, Bytes.ofNat k.y]

end DsaPublicKey

/-- A DSA key with its private value. That the private value belongs to the public value is not part
of it. -/
structure DsaPrivateKey where
  publicKey : DsaPublicKey
  x : Nat
  valid : 0 < x ∧ x ≤ publicKey.q
deriving DecidableEq

namespace DsaPrivateKey

def ofPublic (publicKey : DsaPublicKey) (x : Nat) : Except Error DsaPrivateKey :=
  if h : 0 < x ∧ x ≤ publicKey.q then .ok ⟨publicKey, x, h⟩ else .error .badKey

def ofComponents (p q g y x : Bytes) : Except Error DsaPrivateKey := do
  ofPublic (← DsaPublicKey.ofComponents p q g y) (Bytes.toNat x)

def hash (k : DsaPrivateKey) : KeyHash :=
  k.publicKey.hash

end DsaPrivateKey

end Keyring
