import Keyring.Proofs.Dsa.Signature
import Keyring.Proofs.Envelope.Capability
import Keyring.Proofs.Envelope.Signature
import Keyring.Proofs.Rsa.Signature
/-!
This module contains the sizes of signatures and ciphertexts, which are those that their keys
declare for every family of keys, and the proof that the primary key makes all of them.
-/

namespace Keyring

namespace SignStream

/-- The size of the trailers that a stream makes. -/
def trailerSize : SignStream → Nat
  | .hmac _ => Digest.Sha1.size
  | .rsa key _ => key.publicKey.size
  | .dsa key _ => key.publicKey.signatureSize

theorem trailerSize_update (v : SignStream) (data : Bytes) :
    (v.update data).trailerSize = v.trailerSize := by
  cases v with
  | hmac _ | rsa _ _ | dsa _ _ => rfl

theorem length_of_sign_eq_ok {v : SignStream} {trailer : Bytes} (h : v.sign = .ok trailer) :
    trailer.length = v.trailerSize := by
  cases v with
  | hmac digest =>
    cases h
    exact digest.length_finish
  | rsa key fed => exact Rsa.Signature.length_of_sign_eq_ok h
  | dsa key fed => exact Dsa.Signature.length_of_sign_eq_ok h

end SignStream

namespace Key

theorem trailerSize_of_signStream_eq_ok {k : Key} {stream : SignStream}
    (h : k.signStream = .ok stream) : stream.trailerSize = k.digestSize := by
  cases k with
  | aes _ | hmac _ | rsaPrivate _ | dsaPrivate _ =>
    cases h
    rfl
  | rsaPublic _ | dsaPublic _ => cases h

theorem signStream_ne_noPrimaryKey (k : Key) : k.signStream ≠ .error .noPrimaryKey := by
  intro h
  cases k with
  | aes _ | hmac _ | rsaPrivate _ | rsaPublic _ | dsaPrivate _ | dsaPublic _ => cases h

end Key

theorem AesKey.length_ciphertext_eq (k : AesKey) {iv : Bytes} (hiv : iv.length = 16)
    (message : Bytes) :
    (k.ciphertext iv message).length = 5 + AesKey.outputSize message.length := by
  have hbody : (Cipher.Cbc.encrypt k.bytes iv message).length = (message.length / 16 + 1) * 16 := by
    rw [Cipher.Cbc.length_encrypt k.isSchedule hiv]
    exact Cipher.Padding.length_pad (by decide) message
  have hheader : (Header.mk k.hash).encode.length = 5 := Header.length_encode ⟨k.hash⟩
  rw [length_ciphertext, covered_eq, List.length_append, List.length_append, hheader, hiv, hbody]
  unfold outputSize
  omega

theorem Error.OfStream.ne_noPrimaryKey {e : Error} (h : e.OfStream) : e ≠ .noPrimaryKey := by
  cases h with
  | short => simp
  | failed operation => simp

namespace KeySet

variable {s : KeySet} {key : Key} {message packed : Bytes}

theorem sign_of_primaryKey (h : s.primaryKey = .ok key) :
    s.sign message = key.signStream >>= fun stream =>
      ((stream.update (Header.mk key.hash).encode).update message).sign >>= fun trailer =>
        .ok ((Header.mk key.hash).encode ++ trailer) := by
  unfold sign
  rw [h]
  rfl

theorem sign_ne_noPrimaryKey (h : s.primaryKey = .ok key) :
    s.sign message ≠ .error .noPrimaryKey := by
  intro herror
  rw [sign_of_primaryKey h] at herror
  rcases bind_eq_error_iff.mp herror with hstream | ⟨stream, _, hsign⟩
  . exact key.signStream_ne_noPrimaryKey hstream
  . rcases bind_eq_error_iff.mp hsign with htrailer | ⟨_, _, hok⟩
    . exact (SignStream.ofStream_of_sign_eq_error htrailer).ne_noPrimaryKey rfl
    . cases hok

theorem exists_of_sign_eq_ok (h : s.primaryKey = .ok key) {signature : Bytes}
    (hsign : s.sign message = .ok signature) : ∃ trailer,
      signature = (Header.mk key.hash).encode ++ trailer ∧ trailer.length = key.digestSize := by
  rw [sign_of_primaryKey h] at hsign
  rcases bind_eq_ok_iff.mp hsign with ⟨stream, hstream, hsign⟩
  rcases bind_eq_ok_iff.mp hsign with ⟨trailer, htrailer, hsignature⟩
  cases hsignature
  refine ⟨trailer, rfl, ?_⟩
  rw [SignStream.length_of_sign_eq_ok htrailer, SignStream.trailerSize_update,
    SignStream.trailerSize_update, Key.trailerSize_of_signStream_eq_ok hstream]

theorem run_encrypt_of_rsa {k : RsaPublicKey} (h : s.primaryKey = .ok key)
    (hpacked : s.config.compression.compress message = .ok packed)
    (hstream : key.encryptStream = pure (.rsa k [])) (hnone : key.ciphertextDigestSize = 0)
    (source : RandomSource) :
    (s.encrypt message).run source =
      match (Rsa.Oaep.encrypt k packed).run source with
      | .ok body rest => .ok ((Header.mk key.hash).encode ++ body) rest
      | .error e rest => .error e rest := by
  unfold encrypt
  rw [h, run_bind_of_ok (run_ofExcept_ok key source), hpacked,
    run_bind_of_ok (run_ofExcept_ok packed source)]
  dsimp only
  rw [hstream, pure_bind, EStateM.run_bind]
  simp only [hnone, EncryptStream.init, EncryptStream.update, EncryptStream.finish, List.nil_append]
  cases (Rsa.Oaep.encrypt k packed).run source with
  | error e rest => rfl
  | ok body rest =>
    dsimp only
    rw [if_neg (Nat.lt_irrefl 0), List.append_nil, List.append_nil]
    rfl

theorem run_encrypt_of_not_encrypt (h : s.primaryKey = .ok key)
    (hpacked : s.config.compression.compress message = .ok packed)
    (hnone : key.capabilities.encrypt = false) (source : RandomSource) :
    (s.encrypt message).run source =
      .error (.algorithmUnavailable "key cannot encrypt") source := by
  unfold encrypt
  rw [h, hpacked]
  cases key with
  | aes _ | rsaPrivate _ | rsaPublic _ => cases hnone
  | hmac _ | dsaPrivate _ | dsaPublic _ => rfl

section

variable {source rest : RandomSource}

theorem run_encrypt_of_rsa_ne_noPrimaryKey {k : RsaPublicKey} (h : s.primaryKey = .ok key)
    (hpacked : s.config.compression.compress message = .ok packed)
    (hstream : key.encryptStream = pure (.rsa k [])) (hnone : key.ciphertextDigestSize = 0) :
    (s.encrypt message).run source ≠ .error .noPrimaryKey rest := by
  intro herror
  rw [run_encrypt_of_rsa h hpacked hstream hnone] at herror
  split at herror
  . cases herror
  . next hbody =>
    cases herror
    exact (Rsa.Oaep.ofStream_of_run_encrypt_eq_error hbody).ne_noPrimaryKey rfl

theorem run_encrypt_ne_noPrimaryKey (h : s.primaryKey = .ok key) :
    (s.encrypt message).run source ≠ .error .noPrimaryKey rest := by
  rcases s.config.compression.exists_compress message with ⟨packed, hpacked, _⟩
  cases key with
  | aes k => simp [run_encrypt_eq_ok h hpacked]
  | rsaPrivate _ | rsaPublic _ => exact run_encrypt_of_rsa_ne_noPrimaryKey h hpacked rfl rfl
  | hmac _ | dsaPrivate _ | dsaPublic _ => simp [run_encrypt_of_not_encrypt h hpacked rfl]

theorem exists_of_run_encrypt_rsa_eq_ok {k : RsaPublicKey} (h : s.primaryKey = .ok key)
    (hpacked : s.config.compression.compress message = .ok packed)
    (hstream : key.encryptStream = pure (.rsa k [])) (hnone : key.ciphertextDigestSize = 0)
    {c : Bytes} (hrun : (s.encrypt message).run source = .ok c rest) :
    ∃ body, c = (Header.mk key.hash).encode ++ body ∧ body.length = k.size := by
  rw [run_encrypt_of_rsa h hpacked hstream hnone] at hrun
  split at hrun
  . next body _ hbody =>
    cases hrun
    exact ⟨body, rfl, Rsa.Oaep.length_of_run_encrypt_eq_ok hbody⟩
  . cases hrun

theorem exists_of_run_encrypt_eq_ok (h : s.primaryKey = .ok key)
    (hpacked : s.config.compression.compress message = .ok packed) {c : Bytes}
    (hrun : (s.encrypt message).run source = .ok c rest) :
    ∃ body, c = (Header.mk key.hash).encode ++ body ∧
      body.length = key.maxOutputSize packed.length := by
  cases key with
  | aes k =>
    have hlength := k.length_ciphertext_eq (source.length_draw 16) packed
    rw [run_encrypt_eq_ok h hpacked] at hrun
    cases hrun
    rw [AesKey.ciphertext, AesKey.covered_eq, List.append_assoc] at hlength ⊢
    refine ⟨_, rfl, ?_⟩
    rw [List.length_append, Header.length_encode] at hlength
    exact Nat.add_left_cancel hlength
  | rsaPrivate _ | rsaPublic _ => exact exists_of_run_encrypt_rsa_eq_ok h hpacked rfl rfl hrun
  | hmac _ | dsaPrivate _ | dsaPublic _ =>
    rw [run_encrypt_of_not_encrypt h hpacked rfl] at hrun
    cases hrun

end

namespace Consistent

theorem exists_primaryKey (h : s.Consistent) {v : KeyVersion} (hv : v ∈ s.versions)
    (hstatus : v.status = .primary) :
    ∃ key, s.keyByVersion? v.version = some key ∧ s.primaryKey = .ok key := by
  have hprimary := (h.primary_eq_iff hv).mpr hstatus
  rcases h.exists_key_of_primary hprimary with ⟨key, hkey⟩
  exact ⟨key, h.keyByVersion?_eq_some_iff.mpr hkey, h.primaryKey_eq_ok hprimary hkey⟩

theorem primaryKey_eq_error (h : s.Consistent) (hnone : ∀ v ∈ s.versions, v.status ≠ .primary) :
    s.primaryKey = .error .noPrimaryKey := by
  have hprimary : s.primary = none := by
    rw [Option.eq_none_iff_forall_not_mem]
    intro version hversion
    rcases (h.holds.primary_iff version).mp hversion with ⟨v, hv, _, hstatus⟩
    exact hnone v hv hstatus
  unfold primaryKey
  rw [hprimary]
  rfl

theorem sign_eq_noPrimaryKey_iff (h : s.Consistent) :
    s.sign message = .error .noPrimaryKey ↔ ∀ v ∈ s.versions, v.status ≠ .primary := by
  constructor
  . intro herror v hv hstatus
    rcases h.exists_primaryKey hv hstatus with ⟨key, _, hkey⟩
    exact sign_ne_noPrimaryKey hkey herror
  . intro hnone
    unfold sign
    rw [h.primaryKey_eq_error hnone, error_bind]

theorem run_encrypt_eq_noPrimaryKey_iff (h : s.Consistent) {source : RandomSource} :
    (∃ rest, (s.encrypt message).run source = .error .noPrimaryKey rest) ↔
      ∀ v ∈ s.versions, v.status ≠ .primary := by
  constructor
  . rintro ⟨rest, herror⟩ v hv hstatus
    rcases h.exists_primaryKey hv hstatus with ⟨key, _, hkey⟩
    exact run_encrypt_ne_noPrimaryKey hkey herror
  . intro hnone
    unfold encrypt
    rw [h.primaryKey_eq_error hnone]
    exact ⟨source, rfl⟩

end Consistent

theorem begins_and_length {output body : Bytes} {size : Nat}
    (h : output = (Header.mk key.hash).encode ++ body) (hbody : body.length = size) :
    (0 :: key.hash.bytes) <+: output ∧ output.length = 5 + size := by
  rw [h, List.length_append, Header.length_encode, hbody]
  exact ⟨List.prefix_append _ _, rfl⟩

theorem Reachable.primary_outputs (h : s.Reachable) (message : Bytes) (source : RandomSource) :
    (s.sign message = .error .noPrimaryKey ↔ ∀ v ∈ s.versions, v.status ≠ .primary) ∧
    ((∃ rest, (s.encrypt message).run source = .error .noPrimaryKey rest) ↔
      ∀ v ∈ s.versions, v.status ≠ .primary) ∧
    (∀ v ∈ s.versions, v.status = .primary →
      (∀ w ∈ s.versions, w.status = .primary → w = v) ∧
      ∃ key, s.keyByVersion? v.version = some key ∧
        (∀ signature, s.sign message = .ok signature →
          (0 :: key.hash.bytes) <+: signature ∧ signature.length = 5 + key.digestSize) ∧
        ∀ c rest, (s.encrypt message).run source = .ok c rest →
          ∃ packed, s.config.compression.compress message = .ok packed ∧
          ((0 :: key.hash.bytes) <+: c ∧ c.length = 5 + key.maxOutputSize packed.length) ∧
          (∀ k, key = .aes k → c.length = 5 + 16 + 16 * (packed.length / 16 + 1) + 20) ∧
          (∀ k, key = .rsaPrivate k → c.length = 5 + Bytes.byteLength k.publicKey.modulus) ∧
          ∀ k, key = .rsaPublic k → c.length = 5 + Bytes.byteLength k.modulus) ∧
    (∀ signer, s.signer = .ok signer → signer.sign message = s.sign message) ∧
    (∀ encrypter, s.encrypter = .ok encrypter →
      encrypter.encrypt message = s.encrypt message) ∧
    ∀ crypter, s.crypter = .ok crypter → crypter.encrypt message = s.encrypt message := by
  have hs := h.consistent
  refine ⟨hs.sign_eq_noPrimaryKey_iff, hs.run_encrypt_eq_noPrimaryKey_iff, ?_, ?_, ?_, ?_⟩
  . intro v hv hstatus
    rcases hs.exists_primaryKey hv hstatus with ⟨key, hversion, hkey⟩
    refine ⟨?_, key, hversion, ?_, ?_⟩
    . intro w hw hstatus'
      have hprimary := (hs.primary_eq_iff hw).mpr hstatus'
      rw [(hs.primary_eq_iff hv).mpr hstatus, Option.some.injEq] at hprimary
      exact hs.valid.eq_of_version_eq hw hv hprimary.symm
    . intro signature hsign
      rcases exists_of_sign_eq_ok hkey hsign with ⟨trailer, hsignature, hlength⟩
      exact begins_and_length hsignature hlength
    . intro c rest hrun
      rcases s.config.compression.exists_compress message with ⟨packed, hpacked, _⟩
      rcases exists_of_run_encrypt_eq_ok hkey hpacked hrun with ⟨body, hc, hbody⟩
      have hsize := begins_and_length hc hbody
      refine ⟨packed, hpacked, hsize, ?_, ?_, ?_⟩
      . rintro k rfl
        have hlength : c.length = 5 + AesKey.outputSize _ := hsize.2
        unfold AesKey.outputSize at hlength
        omega
      . rintro k rfl
        exact hsize.2
      . rintro k rfl
        exact hsize.2
  . intro signer hsigner
    rcases signer_eq_ok_iff.mp hsigner with ⟨_, rfl⟩
    rfl
  . intro encrypter hencrypter
    rcases encrypter_eq_ok_iff.mp hencrypter with ⟨_, rfl⟩
    rfl
  . intro crypter hcrypter
    rcases crypter_eq_ok_iff.mp hcrypter with ⟨_, rfl⟩
    rfl

theorem primary_outputs_sample :
    (sample.Reachable ∧ ∃ signature, sample.sign [1] = .ok signature ∧
      (0 :: (sampleKey 2).hash.bytes) <+: signature ∧ signature.length = 25) ∧
    (sampleAes.Reachable ∧ ∀ source, ∃ c rest, (sampleAes.encrypt [1]).run source = .ok c rest ∧
      (0 :: sampleAesKey.hash.bytes) <+: c ∧ c.length = 5 + 16 + 16 + 20) := by
  constructor
  . have hsign : sample.sign [1] = .ok _ :=
      sign_eq_ok (reachable_sample.consistent.primaryKey_eq_ok rfl (.tail _ (.head _))) [1]
    rcases (Reachable.primary_outputs reachable_sample [1] (.ofSeed 0)).2.2.1
      ⟨2, .primary, false⟩ (by decide +kernel) rfl with ⟨_, key, hversion, houtput, _⟩
    cases hversion
    exact ⟨reachable_sample, _, hsign, houtput _ hsign⟩
  . refine ⟨reachable_sampleAes, ?_⟩
    intro source
    have hpacked : sampleAes.config.compression.compress [1] = .ok [1] := rfl
    have hrun := run_encrypt_eq_ok
      (reachable_sampleAes.consistent.primaryKey_eq_ok rfl (.head _)) hpacked source
    rcases (Reachable.primary_outputs reachable_sampleAes [1] source).2.2.1
      ⟨1, .primary, false⟩ (by decide +kernel) rfl with ⟨_, key, hversion, _, houtput⟩
    cases hversion
    rcases houtput _ _ hrun with ⟨packed, hpacked', hheader, haes, _⟩
    cases hpacked.symm.trans hpacked'
    exact ⟨_, _, hrun, hheader.1, haes _ rfl⟩

end KeySet

end Keyring
