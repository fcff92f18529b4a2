import Keyring.Proofs.Bytes
import Keyring.Proofs.Rsa.Key
import Keyring.Rsa.Signature
/-!
This module contains the proof that the signatures of an RSA key verify. They exist for every
message as soon as the modulus has room for a padded digest.
-/

namespace Keyring.Rsa.Signature

open Digest

/-- What signing makes of a message, if the modulus has room for it. -/
def trailer (k : RsaPrivateKey) (message : Bytes) : Bytes :=
  Bytes.bigEndian k.publicKey.size
    (k.rawPower (Bytes.toNat (encode k.publicKey.size message)))

theorem length_trailer (k : RsaPrivateKey) (message : Bytes) :
    (trailer k message).length = k.publicKey.size := by
  exact Bytes.length_bigEndian _ _

theorem length_of_sign_eq_ok {k : RsaPrivateKey} {message t : Bytes} (h : sign k message = .ok t) :
    t.length = k.publicKey.size := by
  unfold sign at h
  split at h
  . next t' ht =>
    cases h
    unfold sign? at ht
    dsimp only at ht
    split at ht
    . rcases Option.bind_eq_some_iff.mp ht with ⟨c, _, hc⟩
      cases hc
      exact Bytes.length_bigEndian _ _
    . cases ht
  . cases h

theorem length_encode {size : Nat} (h : minSize ≤ size) (message : Bytes) :
    (encode size message).length = size := by
  have hinfo : digestInfo.length = 15 := rfl
  unfold minSize at h
  unfold encode
  simp only [List.length_append, List.length_cons, List.length_replicate, Sha1.length_digest, hinfo]
  unfold Sha1.size
  omega

theorem toNat_encode_lt {k : RsaPublicKey} (h : minSize ≤ k.size) (message : Bytes) :
    Bytes.toNat (encode k.size message) < k.modulus :=
  Bytes.toNat_zero_cons_lt k.modulus_ne_zero (length_encode h message)

variable {k : RsaPrivateKey}

theorem sign?_eq (hk : k.HasPrimeFactors) (message : Bytes) :
    sign? k message = if minSize ≤ k.publicKey.size then some (trailer k message) else none := by
  unfold sign?
  dsimp only
  split
  . next hroom =>
    rw [hk.power?_eq_some (toNat_encode_lt hroom message)]
    rfl
  . rfl

theorem sign_eq_ok_iff (hk : k.HasPrimeFactors) {message t : Bytes} :
    sign k message = .ok t ↔ minSize ≤ k.publicKey.size ∧ t = trailer k message := by
  unfold sign
  rw [sign?_eq hk]
  by_cases hroom : minSize ≤ k.publicKey.size
  . simp [hroom, eq_comm]
  . simp [hroom]

theorem verify_trailer (hk : k.HasPrimeFactors) (hroom : minSize ≤ k.publicKey.size)
    (message : Bytes) : verify k.publicKey message (trailer k message) = true := by
  have hblock := length_encode hroom message
  have hlt := toNat_encode_lt hroom message
  have hraw := k.rawPower_lt (Bytes.toNat (encode k.publicKey.size message))
  have hnumber : Bytes.toNat (trailer k message) =
      k.rawPower (Bytes.toNat (encode k.publicKey.size message)) :=
    Bytes.toNat_bigEndian_of_lt (hraw.trans (Bytes.lt_pow_byteLength _))
  have hsame := Bytes.bigEndian_toNat (encode k.publicKey.size message)
  rw [hblock] at hsame
  unfold verify
  dsimp only
  rw [hnumber, hk.power_rawPower hlt, decide_eq_true_iff]
  exact ⟨length_trailer k message, hraw, hroom, hsame⟩

end Keyring.Rsa.Signature
