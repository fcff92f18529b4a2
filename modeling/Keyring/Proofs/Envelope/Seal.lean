import Keyring.Proofs.Cipher.Cbc
import Keyring.Proofs.Envelope.FrontEnd
import Keyring.Proofs.Envelope.Header
/-!
This module contains what ciphertexts of AES keys are. Encryption makes them, and decryption accepts
nothing else.
-/

namespace Keyring

open Cipher Digest

namespace AesKey

/-- What the trailer of a ciphertext covers. -/
def covered (k : AesKey) (iv message : Bytes) : Bytes :=
  (0 :: k.hash.bytes) ++ iv ++ Cbc.encrypt k.bytes iv message

/-- The ciphertext of a message behind some initial block. -/
def ciphertext (k : AesKey) (iv message : Bytes) : Bytes :=
  k.covered iv message ++ Hmac.mac k.hmac.bytes (k.covered iv message)

theorem covered_eq (k : AesKey) (iv message : Bytes) :
    k.covered iv message =
      (Header.mk k.hash).encode ++ (iv ++ Cbc.encrypt k.bytes iv message) := by
  unfold covered
  rw [List.append_assoc]
  rfl

theorem length_ciphertext (k : AesKey) (iv message : Bytes) :
    (k.ciphertext iv message).length = (k.covered iv message).length + 20 := by
  unfold ciphertext
  rw [List.length_append, Hmac.length_mac]
  rfl

end AesKey

namespace Key

/-- What the stream of a key makes of a body. -/
def decryptBody (k : Key) (body : Bytes) : Except Error Bytes := do
  let stream ← k.decryptStream
  let (stream, start) ← stream.update body
  return start ++ (← stream.finish)

theorem decryptBody_aes_eq_ok_iff {k : AesKey} {body message : Bytes} :
    (Key.aes k).decryptBody body = .ok message ↔
      ∃ iv, iv.length = Aes.blockSize ∧ body = iv ++ Cbc.encrypt k.bytes iv message := by
  rcases Cbc.Decryptor.exists_update_start k.size_mem body with ⟨cipher, out, hupdate⟩
  rw [← Cbc.Decryptor.finish_update_start k.size_mem hupdate]
  unfold decryptBody decryptStream
  rw [ok_bind, DecryptStream.update_aes, hupdate, ok_bind, ok_bind]
  simp only [DecryptStream.finish, bind_eq_ok_iff, pure_eq_ok, Except.ok.injEq]

end Key

namespace KeySet

variable {s : KeySet}

theorem decrypt_eq_bind (ciphertext : Bytes) :
    s.decrypt ciphertext = (do
      let (header, rest) ← Header.decode .shortCiphertext ciphertext
      let key ← s.keyOf header
      let body ← openTrailer key ciphertext rest
      let message ← key.decryptBody body
      s.config.compression.decompress message) := by
  unfold decrypt Key.decryptBody
  simp only [bind_assoc, pure_bind]

theorem openTrailer_aes (k : AesKey) (ciphertext rest : Bytes) :
    openTrailer (.aes k) ciphertext rest =
      if rest.length < 20 then
        .error .shortCiphertext
      else if ciphertext.drop (ciphertext.length - 20) =
          Hmac.mac k.hmac.bytes (ciphertext.take (ciphertext.length - 20)) then
        .ok ((ciphertext.take (ciphertext.length - 20)).drop Header.size)
      else
        .error .invalidSignature := by
  unfold openTrailer
  rw [Key.verifyStream_eq_ok]
  dsimp only [Key.ciphertextDigestSize, Key.verification, VerifyStream.update, VerifyStream.verify,
    Sha1.size]
  simp only [Hmac.State.update, List.nil_append, decide_eq_true_eq, ok_bind]
  rfl

theorem openTrailer_eq_ok_iff {k : AesKey} {header : Header} {rest body : Bytes} :
    openTrailer (.aes k) (header.encode ++ rest) rest = .ok body ↔
      rest = body ++ Hmac.mac k.hmac.bytes (header.encode ++ body) := by
  rw [openTrailer_aes]
  constructor
  . intro h
    split at h
    . simp at h
    . have hlength : (header.encode ++ rest).length - 20 =
          header.encode.length + (rest.length - 20) := by
        rw [List.length_append]
        omega
      rw [hlength, List.take_length_add_append, List.drop_length_add_append] at h
      split at h
      . next hfits =>
        rw [Except.ok.injEq, List.drop_left' header.length_encode] at h
        rw [← h, ← hfits, List.take_append_drop]
      . simp at h
  . intro h
    have hmac := Hmac.length_mac k.hmac.bytes (header.encode ++ body)
    have hlength : (header.encode ++ rest).length - 20 = header.encode.length + body.length := by
      rw [h, List.length_append, List.length_append, hmac]
      unfold Sha1.size
      omega
    have hrest : ¬rest.length < 20 := by
      rw [h, List.length_append, hmac]
      unfold Sha1.size
      omega
    rw [if_neg hrest, hlength, List.take_length_add_append, List.drop_length_add_append, h,
      List.take_left, List.drop_left, if_pos rfl, List.drop_left' header.length_encode]

theorem exists_aes_of_type_eq {key : Key} (h : key.type = .aes) : ∃ k, key = .aes k := by
  cases key with
  | aes k => exact ⟨k, rfl⟩
  | hmac _ | rsaPrivate _ | rsaPublic _ | dsaPrivate _ | dsaPublic _ => simp [Key.type] at h

theorem decrypt_eq_ok_iff (h : s.Consistent) (htype : s.keyType = .aes) {c m : Bytes} :
    s.decrypt c = .ok m ↔ ∃ version k iv message, (version, .aes k) ∈ s.keys ∧
      iv.length = Aes.blockSize ∧ c = k.ciphertext iv message ∧
      s.config.compression.decompress message = .ok m := by
  rw [decrypt_eq_bind]
  simp only [bind_eq_ok_iff, Prod.exists, Header.decode_eq_ok_iff, keyOf_eq_ok_iff,
    h.keyByHash?_eq_some_iff]
  constructor
  . rintro ⟨header, rest, rfl, key, ⟨hhash, version, hkey⟩, body, hbody, message, hmessage, hm⟩
    rcases exists_aes_of_type_eq ((h.holds.type_eq _ hkey).trans htype) with ⟨k, rfl⟩
    -- The key was found by the hash in the header, so the header is the one that it writes.
    have hheader : header = ⟨k.hash⟩ := by
      cases header
      exact congrArg Header.mk hhash.symm
    rw [openTrailer_eq_ok_iff, hheader] at hbody
    rcases Key.decryptBody_aes_eq_ok_iff.mp hmessage with ⟨iv, hiv, hbody'⟩
    refine ⟨version, k, iv, message, hkey, hiv, ?_, hm⟩
    unfold AesKey.ciphertext
    rw [AesKey.covered_eq, ← hbody', hbody, hheader, List.append_assoc]
  . rintro ⟨version, k, iv, message, hkey, hiv, rfl, hm⟩
    let body := iv ++ Cbc.encrypt k.bytes iv message
    let trailer := Hmac.mac k.hmac.bytes (k.covered iv message)
    have hsplit : k.ciphertext iv message = (Header.mk k.hash).encode ++ (body ++ trailer) := by
      rw [← List.append_assoc, ← AesKey.covered_eq]
      rfl
    have hbody : openTrailer (.aes k) (k.ciphertext iv message) (body ++ trailer) = .ok body := by
      rw [hsplit, openTrailer_eq_ok_iff, ← AesKey.covered_eq]
    have hmessage : (Key.aes k).decryptBody body = .ok message :=
      Key.decryptBody_aes_eq_ok_iff.mpr ⟨iv, hiv, rfl⟩
    exact ⟨⟨k.hash⟩, _, hsplit, .aes k, ⟨rfl, version, hkey⟩, body, hbody, message, hmessage, hm⟩

theorem run_encrypt_eq_ok {k : AesKey} (h : s.primaryKey = .ok (.aes k)) {message plain : Bytes}
    (hplain : s.config.compression.compress message = .ok plain) (source : RandomSource) :
    (s.encrypt message).run source =
      .ok (k.ciphertext (source.draw Aes.blockSize).1 plain) (source.draw Aes.blockSize).2 := by
  let iv := (source.draw Aes.blockSize).1
  let rest := (source.draw Aes.blockSize).2
  let cipher : Cbc.Encryptor := ⟨Aes.roundKeys k.bytes, iv, []⟩
  let out := (Header.mk k.hash).encode ++ iv ++ (cipher.update plain).2 ++
    (cipher.update plain).1.finish
  have hcovered : out = k.covered iv plain := by
    have hbody := Cbc.Encryptor.update_append_finish (k.start_eq_ok (source.length_draw _)) plain
    unfold out
    rw [List.append_assoc, hbody]
    rfl
  unfold encrypt
  rw [h, run_bind_of_ok (run_ofExcept_ok _ _), hplain, run_bind_of_ok (run_ofExcept_ok _ _)]
  dsimp only
  rw [run_bind_of_ok (Key.run_encryptStream_aes k rfl)]
  change EStateM.Result.ok (out ++ Hmac.mac k.hmac.bytes ([] ++ out)) rest = _
  rw [List.nil_append, hcovered]
  rfl

theorem decrypt_eq_ok_iff_of_none (h : s.Consistent) (htype : s.keyType = .aes)
    (hnone : s.config.compression = .none) {c message : Bytes} :
    s.decrypt c = .ok message ↔ ∃ version k iv, s.keyByVersion? version = some (.aes k) ∧
      iv.length = Aes.blockSize ∧ c = k.ciphertext iv message := by
  rw [decrypt_eq_ok_iff h htype, hnone]
  simp only [h.keyByVersion?_eq_some_iff]
  constructor
  . rintro ⟨version, k, iv, plain, hkey, hiv, hc, hplain⟩
    cases hplain
    exact ⟨version, k, iv, hkey, hiv, hc⟩
  . rintro ⟨version, k, iv, hkey, hiv, hc⟩
    exact ⟨version, k, iv, message, hkey, hiv, hc, rfl⟩

theorem exists_promote_encrypt (h : s.Consistent) {version : UInt32} {k : AesKey}
    (hkey : (version, .aes k) ∈ s.keys) :
    ∃ s', s.promote version = .ok s' ∧ s'.purpose = s.purpose ∧ ∀ message plain source,
      s.config.compression.compress message = .ok plain → (s'.encrypt message).run source =
        .ok (k.ciphertext (source.draw Aes.blockSize).1 plain)
          (source.draw Aes.blockSize).2 := by
  rcases h.exists_promote hkey with ⟨f, hpromote⟩
  have hprimary := (h.promote hpromote).primaryKey_eq_ok rfl hkey
  refine ⟨_, hpromote, rfl, ?_⟩
  intro message plain source hplain
  exact run_encrypt_eq_ok hprimary hplain source

theorem exists_encrypt_decrypt (h : s.Consistent) (htype : s.keyType = .aes)
    (hsome : s.primary ≠ none) {message : Bytes}
    (hinverse : s.config.compression.compress message >>= s.config.compression.decompress =
      .ok message) (source : RandomSource) :
    ∃ c source', (s.encrypt message).run source = .ok c source' ∧ s.decrypt c = .ok message := by
  rcases Option.ne_none_iff_exists'.mp hsome with ⟨version, hversion⟩
  rcases h.exists_key_of_primary hversion with ⟨key, hkey⟩
  rcases exists_aes_of_type_eq ((h.holds.type_eq _ hkey).trans htype) with ⟨k, rfl⟩
  rcases bind_eq_ok_iff.mp hinverse with ⟨plain, hplain, hundone⟩
  have hrun := run_encrypt_eq_ok (h.primaryKey_eq_ok hversion hkey) hplain source
  refine ⟨_, _, hrun, ?_⟩
  rw [decrypt_eq_ok_iff h htype]
  exact ⟨version, k, _, plain, hkey, source.length_draw _, rfl, hundone⟩

theorem crypter_accepts_of_aes {purpose : Purpose} (h : purpose.accepts .aes) :
    OperationClass.crypter.accepts purpose := by
  cases purpose <;> simp_all [Purpose.accepts, OperationClass.accepts]

theorem Reachable.aes_ciphertexts (h : s.Reachable) (htype : s.keyType = .aes) :
    ∃ crypter, s.crypter = .ok crypter ∧
      (s.config.compression = .none → ∀ c message, crypter.decrypt c = .ok message ↔
        ∃ version k iv, s.keyByVersion? version = some (.aes k) ∧ iv.length = 16 ∧
          c = k.ciphertext iv message) ∧
      (s.config.compression = .none → ∀ version k, s.keyByVersion? version = some (.aes k) →
        ∃ s' crypter', s.promote version = .ok s' ∧ s'.crypter = .ok crypter' ∧
          ∀ message source iv source', source.draw 16 = (iv, source') →
            (crypter'.encrypt message).run source = .ok (k.ciphertext iv message) source') ∧
      (s.primary ≠ none → ∀ message source, (s.config.compression = .none ∨
          s.config.compression.compress message >>= s.config.compression.decompress =
            .ok message) →
        ∃ c source', (crypter.encrypt message).run source = .ok c source' ∧
          crypter.decrypt c = .ok message) := by
  have hs := h.consistent
  have haccepts : OperationClass.crypter.accepts s.purpose := by
    apply crypter_accepts_of_aes
    rw [← htype]
    exact hs.valid.accepts
  refine ⟨_, crypter_eq_ok haccepts, ?_, ?_, ?_⟩
  . intro hnone c message
    exact decrypt_eq_ok_iff_of_none hs htype hnone
  . intro hnone version k hkey
    rw [hs.keyByVersion?_eq_some_iff] at hkey
    rcases exists_promote_encrypt hs hkey with ⟨s', hpromote, hpurpose, hencrypt⟩
    have hcrypter : s'.crypter = .ok ⟨s', hpurpose ▸ haccepts⟩ := crypter_eq_ok _
    refine ⟨s', _, hpromote, hcrypter, ?_⟩
    intro message source iv source' hdraw
    have hrun := hencrypt message message source (by rw [hnone]; rfl)
    unfold Aes.blockSize at hrun
    rw [hdraw] at hrun
    exact hrun
  . intro hsome message source hcompression
    apply exists_encrypt_decrypt hs htype hsome
    cases hcompression with
    | inl hnone =>
      rw [hnone]
      rfl
    | inr hinverse => exact hinverse

def sampleAesKey : AesKey where
  bytes := List.replicate 16 0
  hmac := ⟨List.replicate 20 1, by simp⟩
  size_mem := by simp

def sampleAes : KeySet :=
  let empty : KeySet := {
    metadata := ⟨"sample", .decryptAndEncrypt, .aes, 0, []⟩
    config := {} }
  empty.insert .primary (.aes sampleAesKey)

theorem reachable_sampleAes : sampleAes.Reachable := by
  unfold sampleAes
  apply Reachable.insert
  . exact @Reachable.new "sample" .decryptAndEncrypt .aes {} _ rfl
  . rfl
  . rfl
  . decide

theorem aes_ciphertexts_sample :
    sampleAes.Reachable ∧ sampleAes.keyByVersion? 1 = some (.aes sampleAesKey) ∧
      ∃ crypter, sampleAes.crypter = .ok crypter ∧
        (∀ iv message, iv.length = 16 →
          crypter.decrypt (sampleAesKey.ciphertext iv message) = .ok message) ∧
        ∀ message source, ∃ c source', (crypter.encrypt message).run source = .ok c source' ∧
          crypter.decrypt c = .ok message := by
  have hkey : sampleAes.keyByVersion? 1 = some (.aes sampleAesKey) := by decide +kernel
  rcases Reachable.aes_ciphertexts reachable_sampleAes rfl with
    ⟨crypter, hcrypter, hdecrypt, _, hround⟩
  refine ⟨reachable_sampleAes, hkey, crypter, hcrypter, ?_, ?_⟩
  . intro iv message hiv
    rw [hdecrypt rfl]
    exact ⟨1, sampleAesKey, iv, hkey, hiv, rfl⟩
  . intro message source
    exact hround (by decide) message source (.inl rfl)

end KeySet

end Keyring
