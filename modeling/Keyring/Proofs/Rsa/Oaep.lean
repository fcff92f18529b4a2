import Keyring.Proofs.Bytes
import Keyring.Proofs.Outcome
import Keyring.Proofs.Rsa.Key
import Keyring.Rsa.Oaep
/-!
This module contains the proof that decryption returns every message that encryption takes, behind
any seed. Masks are as long as what they hide, so they come off again in the opposite order.
-/

namespace Keyring.Rsa.Oaep

open Digest

theorem length_mask (seed : Bytes) (n : Nat) : (mask seed n).length = n := by
  have hblocks : ∀ block ∈ (List.range ((n + 19) / 20)).map fun i =>
      Sha1.digest (seed ++ Bytes.bigEndian 4 i), block.length = 20 := by
    intro block hblock
    rcases List.mem_map.mp hblock with ⟨i, _, rfl⟩
    exact Sha1.length_digest _
  unfold mask
  rw [List.length_take, List.flatMap_def, Bytes.length_flatten_of_length_eq hblocks, List.length_map,
    List.length_range]
  omega

/-- What encoding hides: the digest of the label, zeros, and the message behind a one. -/
def padded (size : Nat) (message : Bytes) : Bytes :=
  labelHash ++ List.replicate (size - message.length - overhead) 0 ++ 1 :: message

/-- The data under its mask. -/
def maskedData (size : Nat) (seed message : Bytes) : Bytes :=
  Bytes.xor (padded size message) (mask seed (padded size message).length)

theorem encode_eq (size : Nat) (seed message : Bytes) :
    encode size seed message =
      0 :: (Bytes.xor seed (mask (maskedData size seed message) seed.length) ++
        maskedData size seed message) := by
  rfl

variable {size : Nat} {seed message : Bytes}

theorem length_padded (h : message.length + overhead ≤ size) :
    (padded size message).length = size - 21 := by
  unfold overhead Sha1.size at h
  unfold padded labelHash overhead
  simp only [List.length_append, List.length_cons, List.length_replicate, Sha1.length_digest]
  unfold Sha1.size
  omega

theorem length_maskedData (size : Nat) (seed message : Bytes) :
    (maskedData size seed message).length = (padded size message).length := by
  unfold maskedData
  rw [Bytes.length_xor, length_mask, Nat.min_self]

theorem length_encode (hseed : seed.length = Sha1.size) (h : message.length + overhead ≤ size) :
    (encode size seed message).length = size := by
  rw [encode_eq, List.length_cons, List.length_append, Bytes.length_xor, length_mask, Nat.min_self,
    length_maskedData, length_padded h, hseed]
  unfold overhead at h
  unfold Sha1.size at h ⊢
  omega

theorem take_padded (size : Nat) (message : Bytes) :
    (padded size message).take Sha1.size = labelHash := by
  have hlabel : labelHash.length = Sha1.size := Sha1.length_digest []
  unfold padded
  rw [List.append_assoc, List.take_left' hlabel]

theorem dropWhile_padded (size : Nat) (message : Bytes) :
    ((padded size message).drop Sha1.size).dropWhile (· == 0) = 1 :: message := by
  have hlabel : labelHash.length = Sha1.size := Sha1.length_digest []
  unfold padded
  rw [List.append_assoc, List.drop_left' hlabel, List.dropWhile_append_of_pos]
  . rfl
  . intro b hb
    rw [List.eq_of_mem_replicate hb]
    rfl

theorem decode?_eq_some {maskedSeed data : Bytes} (hlength : maskedSeed.length = Sha1.size)
    (hseed : Bytes.xor maskedSeed (mask data Sha1.size) = seed)
    (hdata : Bytes.xor data (mask seed data.length) = padded size message) :
    decode? (0 :: (maskedSeed ++ data)) = some message := by
  simp only [decode?, List.take_left' hlength, List.drop_left' hlength, hseed, hdata, take_padded,
    dropWhile_padded, ↓reduceIte]

theorem decode?_encode (hseed : seed.length = Sha1.size) :
    decode? (encode size seed message) = some message := by
  rw [encode_eq, hseed]
  apply decode?_eq_some
  . rw [Bytes.length_xor, length_mask, hseed, Nat.min_self]
  . apply Bytes.xor_xor_cancel
    rw [length_mask, hseed]
  . rw [length_maskedData]
    apply Bytes.xor_xor_cancel
    rw [length_mask]

theorem run_encrypt (k : RsaPublicKey) (message : Bytes) (source : RandomSource) :
    (encrypt k message).run source =
      if k.size - 42 < message.length then
        .error (.cryptoOperationFailed "message too long for RSA-OAEP") source
      else if k.size < 42 then
        .error (.cryptoOperationFailed "RSA") source
      else
        .ok (encryptWith k (source.draw 20).1 message) (source.draw 20).2 := by
  have hmax : maxMessageSize k = k.size - 42 := rfl
  have hoverhead : overhead = 42 := rfl
  unfold encrypt
  rw [hmax, hoverhead]
  by_cases hlong : k.size - 42 < message.length
  . rw [if_pos hlong, if_pos hlong]
    rfl
  . rw [if_neg hlong, if_neg hlong]
    by_cases hsmall : k.size < 42
    . rw [if_pos hsmall, if_pos hsmall]
      rfl
    . rw [if_neg hsmall, if_neg hsmall]
      rfl

theorem run_encrypt_of_le {k : RsaPublicKey} (h : message.length + 42 ≤ k.size)
    (source : RandomSource) :
    (encrypt k message).run source =
      .ok (encryptWith k (source.draw 20).1 message) (source.draw 20).2 := by
  have hlong : ¬k.size - 42 < message.length := by omega
  have hsmall : ¬k.size < 42 := by omega
  rw [run_encrypt, if_neg hlong, if_neg hsmall]

theorem exists_run_encrypt_iff (k : RsaPublicKey) (message : Bytes) (source : RandomSource) :
    (∃ c rest, (encrypt k message).run source = .ok c rest) ↔ message.length + 42 ≤ k.size := by
  constructor
  . rintro ⟨c, rest, h⟩
    rw [run_encrypt] at h
    split at h
    . cases h
    . split at h
      . cases h
      . omega
  . intro h
    exact ⟨_, _, run_encrypt_of_le h source⟩

theorem length_encryptWith (k : RsaPublicKey) (seed message : Bytes) :
    (encryptWith k seed message).length = k.size := by
  exact Bytes.length_bigEndian _ _

theorem length_of_run_encrypt_eq_ok {k : RsaPublicKey} {c : Bytes} {source rest : RandomSource}
    (h : (encrypt k message).run source = .ok c rest) : c.length = k.size := by
  rw [run_encrypt_of_le ((exists_run_encrypt_iff k message source).mp ⟨c, rest, h⟩)] at h
  cases h
  exact length_encryptWith _ _ _

theorem decrypt_encryptWith {k : RsaPrivateKey} (hk : k.HasPrimeFactors)
    (hseed : seed.length = Sha1.size) (h : message.length + overhead ≤ k.publicKey.size) :
    decrypt k (encryptWith k.publicKey seed message) = .ok message := by
  let block := encode k.publicKey.size seed message
  have hblock : block.length = k.publicKey.size := length_encode hseed h
  -- The block starts with a zero byte, so it is below the modulus.
  have hlt : Bytes.toNat block < k.publicKey.modulus :=
    Bytes.toNat_zero_cons_lt k.publicKey.modulus_ne_zero hblock
  have hpower := k.publicKey.power_lt (Bytes.toNat block)
  have hnumber : Bytes.toNat (encryptWith k.publicKey seed message) =
      k.publicKey.power (Bytes.toNat block) :=
    Bytes.toNat_bigEndian_of_lt (hpower.trans (Bytes.lt_pow_byteLength _))
  have hsame : Bytes.bigEndian k.publicKey.size (Bytes.toNat block) = block := by
    rw [← hblock, Bytes.bigEndian_toNat]
  have hdecrypt : decrypt? k (encryptWith k.publicKey seed message) = some message := by
    unfold decrypt?
    dsimp only
    rw [hnumber, if_pos ⟨length_encryptWith _ _ _, hpower, by omega⟩, hk.power?_power hlt]
    rw [Option.bind_eq_bind, Option.bind_some, hsame, decode?_encode hseed]
  unfold decrypt
  rw [hdecrypt]

end Keyring.Rsa.Oaep
