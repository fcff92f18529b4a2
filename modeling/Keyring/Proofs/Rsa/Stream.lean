import Keyring.Proofs.Envelope.Refusal
import Keyring.Proofs.Rsa.Oaep
import Keyring.Proofs.Rsa.Signature
import Mathlib.NumberTheory.LucasLehmer
/-!
This module contains the proof that the streams of an RSA key and of its public half undo each
other: what one encrypts the other decrypts, and what one signs the other verifies.
-/

namespace Keyring

namespace Key

/-- What the stream of a key makes of a message. -/
def encryptBody (k : Key) (message : Bytes) : Drawing Bytes := do
  let stream ← k.encryptStream
  let (stream, start) := stream.init
  let (stream, body) := stream.update message
  return start ++ body ++ (← stream.finish)

theorem encryptBody_rsaPublic (k : RsaPublicKey) (message : Bytes) :
    (rsaPublic k).encryptBody message = Rsa.Oaep.encrypt k message := by
  have hbody : (rsaPublic k).encryptBody message = Rsa.Oaep.encrypt k message >>= pure := rfl
  rw [hbody, bind_pure]

theorem decryptBody_rsaPrivate (k : RsaPrivateKey) (body : Bytes) :
    (rsaPrivate k).decryptBody body = Rsa.Oaep.decrypt k body := by
  have hbody : (rsaPrivate k).decryptBody body = Rsa.Oaep.decrypt k body >>= pure := rfl
  rw [hbody, bind_pure]

theorem rsa_streams_invert {k : RsaPrivateKey} (hk : k.HasPrimeFactors) :
    (rsaPrivate k).publicHalf = .ok (rsaPublic k.publicKey) ∧
    (∀ message source,
      ((∃ c rest, ((rsaPublic k.publicKey).encryptBody message).run source = .ok c rest) ↔
        message.length + 42 ≤ k.publicKey.size) ∧
      ∀ c rest, ((rsaPublic k.publicKey).encryptBody message).run source = .ok c rest →
        c = Rsa.Oaep.encryptWith k.publicKey (source.draw 20).1 message) ∧
    (∀ message seed, message.length + 42 ≤ k.publicKey.size → seed.length = 20 →
      (Rsa.Oaep.encryptWith k.publicKey seed message).length = k.publicKey.size ∧
      (rsaPrivate k).decryptBody (Rsa.Oaep.encryptWith k.publicKey seed message) = .ok message) ∧
    ∃ signing verifying, (rsaPrivate k).signStream = .ok signing ∧
      (rsaPublic k.publicKey).verifyStream = .ok verifying ∧ ∀ message,
        ((∃ t, (signing.update message).sign = .ok t) ↔ 46 ≤ k.publicKey.size) ∧
        ∀ t, (signing.update message).sign = .ok t → t.length = k.publicKey.size ∧
          (verifying.update message).verify t = true := by
  refine ⟨rfl, ?_, ?_, .rsa k [], .rsa k.publicKey [], rfl, rfl, ?_⟩
  . intro message source
    rw [encryptBody_rsaPublic]
    refine ⟨Rsa.Oaep.exists_run_encrypt_iff _ _ _, ?_⟩
    intro c rest hc
    have hroom := (Rsa.Oaep.exists_run_encrypt_iff _ _ _).mp ⟨c, rest, hc⟩
    rw [Rsa.Oaep.run_encrypt_of_le hroom] at hc
    cases hc
    rfl
  . intro message seed hroom hseed
    rw [decryptBody_rsaPrivate]
    exact ⟨Rsa.Oaep.length_encryptWith _ _ _, Rsa.Oaep.decrypt_encryptWith hk hseed hroom⟩
  . intro message
    have hsign : ∀ t, ((SignStream.rsa k []).update message).sign = .ok t ↔
        46 ≤ k.publicKey.size ∧ t = Rsa.Signature.trailer k message := by
      intro t
      exact Rsa.Signature.sign_eq_ok_iff hk
    simp only [hsign]
    refine ⟨by simp, ?_⟩
    rintro t ⟨hroom, rfl⟩
    exact ⟨Rsa.Signature.length_trailer k message, Rsa.Signature.verify_trailer hk hroom message⟩

/-- A key whose factors are two Mersenne primes. -/
def mersenneKey : RsaPrivateKey where
  publicKey := {
    modulus := (2 ^ 127 - 1) * (2 ^ 521 - 1)
    exponent := 65537
    valid := by decide +kernel }
  exponent := (10880 * ((2 ^ 127 - 2) * (2 ^ 521 - 2)) + 1) / 65537
  p := 2 ^ 127 - 1
  q := 2 ^ 521 - 1
  valid := by decide +kernel

theorem hasPrimeFactors_mersenneKey : mersenneKey.HasPrimeFactors where
  prime_p := lucas_lehmer_sufficiency 127 (by norm_num) (by norm_num)
  prime_q := lucas_lehmer_sufficiency 521 (by norm_num) (by norm_num)
  ne := by decide +kernel

theorem size_mersenneKey : mersenneKey.publicKey.size = 81 := by
  decide +kernel

theorem rsa_streams_invert_mersenneKey :
    mersenneKey.HasPrimeFactors ∧
    (∀ source, ∃ c rest,
      ((rsaPublic mersenneKey.publicKey).encryptBody [1, 2, 3]).run source = .ok c rest) ∧
    (∀ seed, seed.length = 20 → (rsaPrivate mersenneKey).decryptBody
      (Rsa.Oaep.encryptWith mersenneKey.publicKey seed [1, 2, 3]) = .ok [1, 2, 3]) ∧
    ∃ signing verifying, (rsaPrivate mersenneKey).signStream = .ok signing ∧
      (rsaPublic mersenneKey.publicKey).verifyStream = .ok verifying ∧
      ∃ t, (signing.update [1, 2, 3]).sign = .ok t ∧ t.length = 81 ∧
        (verifying.update [1, 2, 3]).verify t = true := by
  have hk := hasPrimeFactors_mersenneKey
  have hsize := size_mersenneKey
  rcases rsa_streams_invert hk with
    ⟨_, hencrypt, hdecrypt, signing, verifying, hsigning, hverifying, hsign⟩
  have hroom : 3 + 42 ≤ mersenneKey.publicKey.size := by
    rw [hsize]
    decide
  refine ⟨hk, ?_, ?_, signing, verifying, hsigning, hverifying, ?_⟩
  . intro source
    exact (hencrypt [1, 2, 3] source).1.mpr hroom
  . intro seed hseed
    exact (hdecrypt [1, 2, 3] seed hroom hseed).2
  . rcases (hsign [1, 2, 3]).1.mpr (by rw [hsize]; decide) with ⟨t, ht⟩
    have hverify := (hsign [1, 2, 3]).2 t ht
    rw [hsize] at hverify
    exact ⟨t, ht, hverify⟩

end Key

end Keyring
