import Keyring.Dsa.Key
import Keyring.Dsa.Nonce
/-!
This module contains DSA signatures over SHA-1 digests. A signature is a pair of numbers below the
order `q`, each written in as many bytes as `q` has.
-/

namespace Keyring.Dsa.Signature

open Digest

/-- The number of whole bytes within the bits of `q`. Digests are cut to it, and nonces have it. -/
def width (q : Nat) : Nat :=
  (q.log2 + 1) / 8

def digestNumber (q : Nat) (message : Bytes) : Nat :=
  Bytes.toNat ((Sha1.digest message).take (width q))

/-- How many nonces are tried. Nearly every one is usable unless `q` is tiny. -/
def maxAttempts : Nat := 1024

/-- The nonce for a number that is to be signed, with its inverse. -/
def nonce? (k : DsaPrivateKey) (z : Nat) : Option (Nat × Nat) :=
  let q := k.publicKey.q
  let material := Bytes.ofNat k.x ++ Bytes.bigEndian (max 1 (width q)) (z % q)
  (NonceGenerator.start material).nonce? q (width q) maxAttempts

/-- The two numbers of a signature. -/
def numbers? (k : DsaPrivateKey) (message : Bytes) : Option (Nat × Nat) := do
  let pub := k.publicKey
  let z := digestNumber pub.q message
  let (nonce, inverse) ← nonce? k z
  let r := Number.powMod pub.g nonce pub.p % pub.q
  let s := inverse * (z + k.x * r) % pub.q
  if r = 0 ∨ s = 0 then
    none
  else
    return (r, s)

/-- A big-endian number behind as many zero bytes as make up its width. -/
def padInteger (digits : Bytes) (width : Nat) : Except Error Bytes :=
  let digits := Bytes.stripZeros digits
  if width < digits.length then
    .error (.badLength "pad integer" width digits.length)
  else
    .ok (List.replicate (width - digits.length) 0 ++ digits)

def sign (k : DsaPrivateKey) (message : Bytes) : Except Error Bytes :=
  match numbers? k message with
  | some (r, s) => do
    let first ← padInteger (Bytes.ofNat r) k.publicKey.halfSize
    let second ← padInteger (Bytes.ofNat s) k.publicKey.halfSize
    return first ++ second
  | none => .error (.cryptoOperationFailed "DSA signing")

def verifyNumbers (k : DsaPublicKey) (z r s : Nat) : Bool :=
  match Number.inverseMod? s k.q with
  | some w =>
    let u₁ := z * w % k.q
    let u₂ := r * w % k.q
    Number.powMod k.g u₁ k.p * Number.powMod k.y u₂ k.p % k.p % k.q = r
  | none => false

def verify (k : DsaPublicKey) (message trailer : Bytes) : Bool :=
  let r := Bytes.toNat (trailer.take k.halfSize)
  let s := Bytes.toNat (trailer.drop k.halfSize)
  trailer.length = k.signatureSize ∧ 0 < r ∧ r < k.q ∧ 0 < s ∧ s < k.q ∧
    verifyNumbers k (digestNumber k.q message) r s

end Keyring.Dsa.Signature
