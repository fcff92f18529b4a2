import Keyring.Proofs.Cipher.Cbc
import Keyring.Stream
/-!
This module contains which streams a key gets. A stream that the type of a key has is never refused:
HMAC takes keys of every size, and the cipher gets one of the three sizes that AES keys have together
with a whole initial block.
-/

namespace Keyring

open Cipher Digest

theorem DecryptStream.update_aes (cipher : Cbc.Decryptor) (data : Bytes) :
    (aes cipher).update data =
      cipher.update data >>= fun (cipher, out) => .ok (.aes cipher, out) := by
  rfl

namespace AesKey

variable (k : AesKey)

theorem isSchedule : Aes.IsSchedule (Aes.roundKeys k.bytes) :=
  Aes.isSchedule_roundKeys k.size_mem

theorem start_eq_ok {iv : Bytes} (hiv : iv.length = Aes.blockSize) :
    Cbc.Encryptor.start k.bytes iv = .ok ⟨Aes.roundKeys k.bytes, iv, []⟩ :=
  Cbc.Encryptor.start_eq_ok_iff.mpr ⟨k.size_mem, hiv, rfl⟩

end AesKey

namespace Key

variable {k : Key}

/-- The check that a key starts with. -/
def verification : Key → VerifyStream
  | .aes k => .hmac ⟨Hmac.blockKey k.hmac.bytes, []⟩
  | .hmac k => .hmac ⟨Hmac.blockKey k.bytes, []⟩
  | .rsaPrivate k => .rsa k.publicKey []
  | .rsaPublic k => .rsa k []
  | .dsaPrivate k => .dsa k.publicKey []
  | .dsaPublic k => .dsa k []

/-- Every key has a stream that verifies. -/
theorem verifyStream_eq_ok (k : Key) : k.verifyStream = .ok k.verification := by
  cases k with
  | aes _ | hmac _ | rsaPrivate _ | rsaPublic _ | dsaPrivate _ | dsaPublic _ => rfl

theorem exists_signStream_iff : (∃ stream, k.signStream = .ok stream) ↔ k.capabilities.sign := by
  cases k with
  | aes _ | hmac _ | rsaPrivate _ | dsaPrivate _ => exact ⟨fun _ => rfl, fun _ => ⟨_, rfl⟩⟩
  | rsaPublic _ | dsaPublic _ => simp [signStream, capabilities]

theorem run_encryptStream_aes (k : AesKey) {source rest : RandomSource} {iv : Bytes}
    (h : source.draw 16 = (iv, rest)) :
    (Key.aes k).encryptStream.run source =
      .ok (.aes iv false ⟨Aes.roundKeys k.bytes, iv, []⟩) rest := by
  have hdraw : (Drawing.bytes Aes.blockSize).run source = .ok iv rest := by
    change EStateM.Result.ok (source.draw 16).1 (source.draw 16).2 = _
    rw [h]
  have hiv : iv.length = Aes.blockSize := by
    have hlength := source.length_draw 16
    rw [h] at hlength
    exact hlength
  unfold encryptStream
  rw [run_bind_of_ok hdraw, k.start_eq_ok hiv, run_bind_of_ok (run_ofExcept_ok _ _)]
  rfl

theorem exists_run_encryptStream_iff (source : RandomSource) :
    (∃ stream rest, k.encryptStream.run source = .ok stream rest) ↔ k.capabilities.encrypt := by
  cases k with
  | aes k => exact ⟨fun _ => rfl, fun _ => ⟨_, _, run_encryptStream_aes k rfl⟩⟩
  | rsaPrivate _ | rsaPublic _ => exact ⟨fun _ => rfl, fun _ => ⟨_, _, rfl⟩⟩
  | hmac _ | dsaPrivate _ | dsaPublic _ => simp [encryptStream, capabilities]

theorem exists_decryptStream_iff :
    (∃ stream, k.decryptStream = .ok stream) ↔ k.capabilities.decrypt := by
  cases k with
  | aes _ | rsaPrivate _ => exact ⟨fun _ => rfl, fun _ => ⟨_, rfl⟩⟩
  | hmac _ | rsaPublic _ | dsaPrivate _ | dsaPublic _ => simp [decryptStream, capabilities]

/-- The initial block ends at the sixteenth byte that is fed in, so the cipher is set up with a whole
one. -/
theorem exists_update_of_decryptStream {stream : DecryptStream} (h : k.decryptStream = .ok stream)
    (data : Bytes) : ∃ next out, stream.update data = .ok (next, out) := by
  cases k with
  | aes k =>
    cases h
    rcases Cbc.Decryptor.exists_update_start k.size_mem data with ⟨cipher, out, hcipher⟩
    refine ⟨.aes cipher, out, ?_⟩
    rw [DecryptStream.update_aes, hcipher, ok_bind]
  | rsaPrivate k =>
    cases h
    exact ⟨_, _, rfl⟩
  | hmac _ | rsaPublic _ | dsaPrivate _ | dsaPublic _ => cases h

end Key

end Keyring
