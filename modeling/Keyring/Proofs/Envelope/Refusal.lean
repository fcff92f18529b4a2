import Keyring.Proofs.Envelope.Seal
/-!
This module contains the order in which decryption refuses ciphertexts: for their size, for their
header, for the key that the header names and for their trailer. Nothing is decrypted before all of
these fit, so what is wrong with the rest of a ciphertext never shows when its trailer does not fit.
-/

namespace Keyring

open Digest

/-- The causes that a stream can give. -/
inductive Error.OfStream : Error → Prop where
  | short : OfStream .shortCiphertext
  | failed (operation : String) : OfStream (.cryptoOperationFailed operation)

/-- The causes that the body of a ciphertext can give, once no trailer stands in front of it. -/
inductive Error.OfBody : Error → Prop where
  | short : OfBody .shortCiphertext
  | stream (operation : String) : OfBody (.cryptoOperationFailed operation)
  | noStream (algorithm : String) : OfBody (.algorithmUnavailable algorithm)
  | compression (reason : String) : OfBody (.compressionFailed reason)

theorem Error.OfStream.ofBody {e : Error} (h : e.OfStream) : e.OfBody := by
  cases h with
  | short => exact .short
  | failed operation => exact .stream operation

theorem Cipher.Cbc.Decryptor.ofStream_of_finish_eq_error {d : Decryptor} {e : Error}
    (h : d.finish = .error e) : e.OfStream := by
  unfold finish at h
  split at h
  . cases h
    exact .short
  . split at h
    . split at h
      . cases h
      . cases h
        exact .failed _
    . cases h
      exact .failed _

theorem Rsa.Oaep.ofStream_of_decrypt_eq_error {k : RsaPrivateKey} {ciphertext : Bytes} {e : Error}
    (h : decrypt k ciphertext = .error e) : e.OfStream := by
  unfold decrypt at h
  split at h
  . cases h
  . cases h
    exact .failed _

theorem Compression.ofBody_of_decompress_eq_error {c : Compression} {data : Bytes} {e : Error}
    (h : c.decompress data = .error e) : e.OfBody := by
  unfold decompress at h
  split at h
  . cases h
  . cases h
    exact .compression _

theorem DecryptStream.ofStream_of_finish_eq_error {s : DecryptStream} {e : Error}
    (h : s.finish = .error e) : e.OfStream := by
  cases s with
  | aes cipher => exact Cipher.Cbc.Decryptor.ofStream_of_finish_eq_error h
  | rsa key fed => exact Rsa.Oaep.ofStream_of_decrypt_eq_error h

namespace Key

theorem ofBody_of_decryptStream_eq_error {k : Key} {e : Error} (h : k.decryptStream = .error e) :
    e.OfBody := by
  unfold decryptStream at h
  split at h
  . cases h
  . cases h
  . cases h
    exact .noStream _

theorem ofBody_of_decryptBody_eq_error {k : Key} {body : Bytes} {e : Error}
    (h : k.decryptBody body = .error e) : e.OfBody := by
  unfold decryptBody at h
  rcases bind_eq_error_iff.mp h with hstream | ⟨stream, hstream, hbody⟩
  . exact ofBody_of_decryptStream_eq_error hstream
  . rcases exists_update_of_decryptStream hstream body with ⟨next, out, hupdate⟩
    rw [hupdate, ok_bind] at hbody
    rcases bind_eq_error_iff.mp hbody with hfinish | ⟨_, _, hpure⟩
    . exact (DecryptStream.ofStream_of_finish_eq_error hfinish).ofBody
    . cases hpure

end Key

namespace KeySet

variable {s : KeySet} {version : UInt32}

/-- The message in a body whose trailer, if there is one, fits. -/
def opened (s : KeySet) (key : Key) (body : Bytes) : Except Error Bytes := do
  s.config.compression.decompress (← key.decryptBody body)

theorem ofBody_of_opened_eq_error {key : Key} {body : Bytes} {e : Error}
    (h : s.opened key body = .error e) : e.OfBody := by
  unfold opened at h
  rcases bind_eq_error_iff.mp h with hbody | ⟨_, _, hmessage⟩
  . exact Key.ofBody_of_decryptBody_eq_error hbody
  . exact Compression.ofBody_of_decompress_eq_error hmessage

theorem openTrailer_of_type_ne {key : Key} (h : key.type ≠ .aes) (ciphertext rest : Bytes) :
    openTrailer key ciphertext rest = .ok rest := by
  cases key with
  | aes k => exact absurd rfl h
  | hmac _ | rsaPrivate _ | rsaPublic _ | dsaPrivate _ | dsaPublic _ => rfl

theorem decrypt_of_length_lt {c : Bytes} (h : c.length < 5) :
    s.decrypt c = .error .shortCiphertext := by
  unfold decrypt
  rw [Header.decode_of_length_lt _ h, error_bind]

theorem decrypt_of_head?_ne {c : Bytes} {b : UInt8} (hlong : 5 ≤ c.length)
    (hhead : c.head? = some b) (hb : b ≠ 0) : s.decrypt c = .error (.badVersion b) := by
  unfold decrypt
  rw [Header.decode_of_head?_ne _ hlong hhead hb, error_bind]

namespace Consistent

theorem decrypt_eq (h : s.Consistent) {key : Key} (hkey : (version, key) ∈ s.keys)
    (rest : Bytes) :
    s.decrypt ((Header.mk key.hash).encode ++ rest) =
      openTrailer key ((Header.mk key.hash).encode ++ rest) rest >>= s.opened key := by
  rw [decrypt_eq_bind, Header.decode_encode_append, ok_bind]
  dsimp only
  rw [h.keyOf_eq_ok hkey, ok_bind]
  rfl

theorem decrypt_of_type_ne (h : s.Consistent) {key : Key} (hkey : (version, key) ∈ s.keys)
    (htype : key.type ≠ .aes) (rest : Bytes) :
    s.decrypt ((Header.mk key.hash).encode ++ rest) = s.opened key rest := by
  rw [h.decrypt_eq hkey, openTrailer_of_type_ne htype, ok_bind]

theorem decrypt_aes (h : s.Consistent) {k : AesKey} (hkey : (version, .aes k) ∈ s.keys)
    {c rest : Bytes} (hc : c = (Header.mk k.hash).encode ++ rest) :
    s.decrypt c =
      if c.length < 25 then
        .error .shortCiphertext
      else if c.drop (c.length - 20) = Hmac.mac k.hmac.bytes (c.take (c.length - 20)) then
        s.opened (.aes k) ((c.take (c.length - 20)).drop 5)
      else
        .error .invalidSignature := by
  have hshort : rest.length < 20 ↔ c.length < 25 := by
    rw [hc, List.length_append, Header.length_encode]
    unfold Header.size
    omega
  have heq : s.decrypt c = openTrailer (.aes k) c rest >>= s.opened (.aes k) := by
    rw [hc]
    exact h.decrypt_eq hkey rest
  rw [heq, openTrailer_aes]
  simp only [hshort]
  split
  . rfl
  . split
    . rfl
    . rfl

theorem decrypt_of_trailer_ne (h : s.Consistent) {k : AesKey} (hkey : (version, .aes k) ∈ s.keys)
    {body trailer : Bytes} (hlength : trailer.length = 20)
    (hne : trailer ≠ Hmac.mac k.hmac.bytes ((Header.mk k.hash).encode ++ body)) :
    s.decrypt ((Header.mk k.hash).encode ++ body ++ trailer) = .error .invalidSignature := by
  have hroom : ¬((Header.mk k.hash).encode ++ body ++ trailer).length < 25 := by
    rw [List.length_append, List.length_append, Header.length_encode]
    unfold Header.size
    omega
  have hcovered : ((Header.mk k.hash).encode ++ body ++ trailer).length - 20 =
      ((Header.mk k.hash).encode ++ body).length := by
    rw [List.length_append, hlength, Nat.add_sub_cancel]
  rw [h.decrypt_aes hkey (List.append_assoc _ _ _), if_neg hroom, hcovered, List.drop_left,
    List.take_left, if_neg hne]

theorem decrypt_of_trailer_changed (h : s.Consistent) (htype : s.keyType = .aes) {c c' m : Bytes}
    (hopen : s.decrypt c = .ok m) (hlength : c'.length = c.length)
    (htake : c'.take (c.length - 20) = c.take (c.length - 20)) (hne : c' ≠ c) :
    s.decrypt c' = .error .invalidSignature := by
  rcases (decrypt_eq_ok_iff h htype).mp hopen with ⟨version, k, iv, message, hkey, _, rfl, _⟩
  have hcovered := k.length_ciphertext iv message
  rw [hcovered, Nat.add_sub_cancel, AesKey.ciphertext, List.take_left] at htake
  -- The change leaves all that the trailer covers in place, so there is another trailer behind it.
  rcases List.prefix_iff_eq_take.mpr htake.symm with ⟨trailer, rfl⟩
  have htrailer : trailer ≠ Hmac.mac k.hmac.bytes (k.covered iv message) := by
    rintro rfl
    exact hne rfl
  rw [hcovered, List.length_append, Nat.add_left_cancel_iff] at hlength
  rw [AesKey.covered_eq] at htrailer ⊢
  exact h.decrypt_of_trailer_ne hkey hlength htrailer

end Consistent

theorem Reachable.decrypt_refusals (h : s.Reachable) {crypter : Crypter}
    (hcrypter : s.crypter = .ok crypter) :
    (∀ c : Bytes,
      (c.length < 5 → crypter.decrypt c = .error .shortCiphertext) ∧
      (5 ≤ c.length → ∀ b, c.head? = some b → b ≠ 0 →
        crypter.decrypt c = .error (.badVersion b)) ∧
      (5 ≤ c.length → c.head? = some 0 →
        ∃ hash : KeyHash, hash.bytes = (c.drop 1).take 4 ∧
          ((∀ version key, s.keyByVersion? version = some key → key.hash ≠ hash) →
            crypter.decrypt c = .error (.keyNotFound hash)) ∧
          (∀ version k, s.keyByVersion? version = some (.aes k) → k.hash = hash →
            (c.length < 25 → crypter.decrypt c = .error .shortCiphertext) ∧
            (25 ≤ c.length →
              c.drop (c.length - 20) ≠ Hmac.mac k.hmac.bytes (c.take (c.length - 20)) →
              crypter.decrypt c = .error .invalidSignature) ∧
            (25 ≤ c.length →
              c.drop (c.length - 20) = Hmac.mac k.hmac.bytes (c.take (c.length - 20)) →
              crypter.decrypt c = s.opened (.aes k) ((c.take (c.length - 20)).drop 5))) ∧
          ∀ version key, s.keyByVersion? version = some key → key.hash = hash →
            key.type ≠ .aes → crypter.decrypt c = s.opened key (c.drop 5))) ∧
    (∀ key body e, s.opened key body = .error e → e.OfBody) ∧
    (s.keyType = .aes → ∀ c m, crypter.decrypt c = .ok m → ∀ c', c'.length = c.length →
      c'.take (c.length - 20) = c.take (c.length - 20) → c' ≠ c →
      crypter.decrypt c' = .error .invalidSignature) := by
  have hs := h.consistent
  have hdecrypt : ∀ c, crypter.decrypt c = s.decrypt c := by
    intro c
    unfold Crypter.decrypt
    rw [keySet_of_crypter_eq_ok hcrypter]
  simp only [hdecrypt, hs.keyByVersion?_eq_some_iff]
  refine ⟨?_, ?_, ?_⟩
  . intro c
    refine ⟨decrypt_of_length_lt, ?_, ?_⟩
    . intro hlong b hhead hb
      exact decrypt_of_head?_ne hlong hhead hb
    . intro hlong hhead
      rcases Header.exists_encode_append hlong hhead with ⟨⟨hash⟩, hbytes, hc⟩
      refine ⟨hash, hbytes, ?_, ?_, ?_⟩
      . intro hnone
        rw [hc]
        apply decrypt_of_keyByHash?_eq_none
        rw [hs.keyByHash?_eq_none_iff]
        rintro ⟨version, key⟩ hkey
        exact hnone version key hkey
      . rintro version k hkey rfl
        rw [hs.decrypt_aes hkey hc]
        refine ⟨?_, ?_, ?_⟩
        . intro hshort
          rw [if_pos hshort]
        . intro hroom hne
          rw [if_neg (Nat.not_lt.mpr hroom), if_neg hne]
        . intro hroom heq
          rw [if_neg (Nat.not_lt.mpr hroom), if_pos heq]
      . rintro version key hkey rfl htype
        exact (congrArg s.decrypt hc).trans (hs.decrypt_of_type_ne hkey htype _)
  . intro key body e
    exact ofBody_of_opened_eq_error
  . intro htype c m hopen c' hlength htake hne
    exact hs.decrypt_of_trailer_changed htype hopen hlength htake hne

theorem decrypt_refusals_sample :
    sampleAes.Reachable ∧ ∃ crypter, sampleAes.crypter = .ok crypter ∧
      crypter.decrypt [] = .error .shortCiphertext ∧
      crypter.decrypt [7, 0, 0, 0, 0] = .error (.badVersion 7) ∧
      ∀ iv message trailer, iv.length = 16 → trailer.length = 20 →
        trailer ≠ Hmac.mac sampleAesKey.hmac.bytes (sampleAesKey.covered iv message) →
        crypter.decrypt (sampleAesKey.covered iv message ++ trailer) =
          .error .invalidSignature := by
  have hcrypter : sampleAes.crypter = .ok ⟨sampleAes, rfl⟩ := crypter_eq_ok rfl
  rcases Reachable.decrypt_refusals reachable_sampleAes hcrypter with ⟨hrefused, _, hchanged⟩
  refine ⟨reachable_sampleAes, _, hcrypter, ?_, ?_, ?_⟩
  . exact (hrefused []).1 (by decide)
  . exact (hrefused [7, 0, 0, 0, 0]).2.1 (by decide) 7 rfl (by decide)
  . intro iv message trailer hiv hlength hne
    have hopen : sampleAes.decrypt (sampleAesKey.ciphertext iv message) = .ok message := by
      rw [decrypt_eq_ok_iff reachable_sampleAes.consistent rfl]
      exact ⟨1, sampleAesKey, iv, message, .head _, hiv, rfl, rfl⟩
    have hcovered := sampleAesKey.length_ciphertext iv message
    apply hchanged rfl _ _ hopen
    . rw [hcovered, List.length_append, hlength]
    . rw [hcovered, Nat.add_sub_cancel, AesKey.ciphertext, List.take_left, List.take_left]
    . intro heq
      exact hne (List.append_cancel_left heq)

end KeySet

end Keyring
