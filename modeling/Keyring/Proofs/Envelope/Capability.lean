import Keyring.Proofs.Compression
import Keyring.Proofs.Dsa.Signature
import Keyring.Proofs.Envelope.Refusal
import Keyring.Proofs.KeySet.Storage
import Keyring.Proofs.Rsa.Oaep
/-!
This module contains the proof that front ends never ask a key for a stream that it does not have.
Their class decides the purpose of the key set, the purpose decides the type of its keys, and the
type decides the streams, none of which fails to be set up. Only sets for tests can mix what does
not belong together.
-/

namespace Keyring

theorem Error.OfStream.ne_algorithmUnavailable {e : Error} (h : e.OfStream) (algorithm : String) :
    e ≠ .algorithmUnavailable algorithm := by
  cases h with
  | short => simp
  | failed operation => simp

theorem Rsa.Signature.ofStream_of_sign_eq_error {k : RsaPrivateKey} {message : Bytes} {e : Error}
    (h : sign k message = .error e) : e.OfStream := by
  unfold sign at h
  split at h
  . cases h
  . cases h
    exact .failed _

theorem Dsa.Signature.ofStream_of_sign_eq_error {k : DsaPrivateKey} {message : Bytes} {e : Error}
    (h : sign k message = .error e) : e.OfStream := by
  rw [sign_eq] at h
  split at h
  . cases h
  . cases h
    exact .failed _

theorem Rsa.Oaep.ofStream_of_run_encrypt_eq_error {k : RsaPublicKey} {message : Bytes} {e : Error}
    {source rest : RandomSource} (h : (encrypt k message).run source = .error e rest) :
    e.OfStream := by
  rw [run_encrypt] at h
  split at h
  . cases h
    exact .failed _
  . split at h
    . cases h
      exact .failed _
    . cases h

theorem SignStream.ofStream_of_sign_eq_error {s : SignStream} {e : Error} (h : s.sign = .error e) :
    e.OfStream := by
  cases s with
  | hmac digest => cases h
  | rsa key fed => exact Rsa.Signature.ofStream_of_sign_eq_error h
  | dsa key fed => exact Dsa.Signature.ofStream_of_sign_eq_error h

theorem EncryptStream.ofStream_of_run_finish_eq_error {s : EncryptStream} {e : Error}
    {source rest : RandomSource} (h : s.finish.run source = .error e rest) : e.OfStream := by
  cases s with
  | aes iv ivTaken cipher => cases h
  | rsa key fed => exact Rsa.Oaep.ofStream_of_run_encrypt_eq_error h

theorem Compression.decompress_ne_algorithmUnavailable {c : Compression} {data : Bytes}
    {algorithm : String} : c.decompress data ≠ .error (.algorithmUnavailable algorithm) := by
  unfold decompress
  split
  . simp
  . simp

theorem Header.decode_ne_algorithmUnavailable {short : Error} {data : Bytes} {algorithm : String}
    (h : short ≠ .algorithmUnavailable algorithm) :
    decode short data ≠ .error (.algorithmUnavailable algorithm) := by
  unfold decode
  split
  . split
    . simp
    . simp
  . simpa using h

theorem Encoding.decode_ne_algorithmUnavailable {encoding : Encoding} {text : String}
    {algorithm : String} : encoding.decode text ≠ .error (.algorithmUnavailable algorithm) := by
  unfold decode
  split
  . simp
  . simp

namespace Capabilities

/-- Whether a key with these capabilities has all streams that front ends of a class ask it for. -/
def suffice (c : Capabilities) : OperationClass → Bool
  | .verifier => c.verify
  | .signer => c.sign && c.verify
  | .encrypter => c.encrypt
  | .crypter => c.encrypt && c.decrypt
  | .admin => true

end Capabilities

namespace Key

variable {k : Key}

/-- Keys that put a trailer on ciphertexts can sign. -/
theorem sign_of_ciphertextDigestSize_pos (h : 0 < k.ciphertextDigestSize) :
    k.capabilities.sign := by
  cases k with
  | aes _ => rfl
  | hmac _ | rsaPrivate _ | rsaPublic _ | dsaPrivate _ | dsaPublic _ =>
    simp [ciphertextDigestSize] at h

/-- Except for tests, a purpose that suits a class permits only keys that suffice for it. -/
theorem suffice_of_accepts {purpose : Purpose} {operations : OperationClass}
    (hclass : operations.accepts purpose) (htype : purpose.accepts k.type)
    (htest : purpose ≠ .test) : k.capabilities.suffice operations := by
  cases purpose with
  | test => exact absurd rfl htest
  | decryptAndEncrypt | encrypt | signAndVerify | verify =>
    cases operations <;> cases k <;>
      simp_all [OperationClass.accepts, Purpose.accepts, Key.type, capabilities,
        Capabilities.suffice]

end Key

namespace KeySet

variable {s : KeySet} {key : Key} {algorithm : String}

theorem primaryKey_ne_algorithmUnavailable :
    s.primaryKey ≠ .error (.algorithmUnavailable algorithm) := by
  unfold primaryKey
  split
  . simp
  . simp

theorem keyOf_ne_algorithmUnavailable {header : Header} :
    s.keyOf header ≠ .error (.algorithmUnavailable algorithm) := by
  unfold keyOf
  split
  . simp
  . simp

theorem openTrailer_ne_algorithmUnavailable {ciphertext rest : Bytes} :
    openTrailer key ciphertext rest ≠ .error (.algorithmUnavailable algorithm) := by
  unfold openTrailer
  dsimp only
  split
  . simp
  . split
    . simp
    . rw [key.verifyStream_eq_ok, ok_bind]
      split
      . simp
      . simp

theorem verify_ne_algorithmUnavailable (message signature : Bytes) :
    s.verify message signature ≠ .error (.algorithmUnavailable algorithm) := by
  intro h
  unfold verify at h
  rcases bind_eq_error_iff.mp h with hdecode | ⟨⟨header, trailer⟩, _, h⟩
  . exact Header.decode_ne_algorithmUnavailable (by simp) hdecode
  . rcases bind_eq_error_iff.mp h with hkey | ⟨key, _, h⟩
    . exact keyOf_ne_algorithmUnavailable hkey
    . rw [key.verifyStream_eq_ok] at h
      split at h
      . cases h
      . cases h

namespace Consistent

theorem exists_mem_of_primaryKey_eq_ok (h : s.Consistent) (hkey : s.primaryKey = .ok key) :
    ∃ version, (version, key) ∈ s.keys := by
  unfold primaryKey at hkey
  split at hkey
  . next k hk =>
    cases hkey
    rcases Option.bind_eq_some_iff.mp hk with ⟨version, _, hversion⟩
    exact ⟨version, h.keyByVersion?_eq_some_iff.mp hversion⟩
  . cases hkey

variable {operations : OperationClass}

theorem suffice (h : s.Consistent) (htest : s.purpose ≠ .test)
    (hclass : operations.accepts s.purpose) {version : UInt32} (hkey : (version, key) ∈ s.keys) :
    key.capabilities.suffice operations := by
  apply Key.suffice_of_accepts hclass _ htest
  rw [h.holds.type_eq _ hkey]
  exact h.valid.accepts

theorem suffice_of_primaryKey (h : s.Consistent) (htest : s.purpose ≠ .test)
    (hclass : operations.accepts s.purpose) (hkey : s.primaryKey = .ok key) :
    key.capabilities.suffice operations := by
  rcases h.exists_mem_of_primaryKey_eq_ok hkey with ⟨version, hmem⟩
  exact h.suffice htest hclass hmem

theorem suffice_of_keyOf (h : s.Consistent) (htest : s.purpose ≠ .test)
    (hclass : operations.accepts s.purpose) {header : Header} (hkey : s.keyOf header = .ok key) :
    key.capabilities.suffice operations := by
  rcases h.keyByHash?_eq_some_iff.mp (keyOf_eq_ok_iff.mp hkey) with ⟨_, version, hmem⟩
  exact h.suffice htest hclass hmem

/-- Whatever a signer does with a stream of the primary key, it gets one. -/
theorem bind_signStream_ne_algorithmUnavailable (h : s.Consistent) (htest : s.purpose ≠ .test)
    (hclass : OperationClass.signer.accepts s.purpose) {f : Key → SignStream → Except Error Bytes}
    (hf : ∀ {key stream e}, f key stream = .error e → e.OfStream) :
    (s.primaryKey >>= fun key => key.signStream >>= f key) ≠
      .error (.algorithmUnavailable algorithm) := by
  intro herror
  rcases bind_eq_error_iff.mp herror with hkey | ⟨key, hkey, hstream⟩
  . exact primaryKey_ne_algorithmUnavailable hkey
  . have hcapable := h.suffice_of_primaryKey htest hclass hkey
    unfold Capabilities.suffice at hcapable
    rw [Bool.and_eq_true] at hcapable
    rcases Key.exists_signStream_iff.mpr hcapable.1 with ⟨stream, hok⟩
    rw [hok, ok_bind] at hstream
    exact (hf hstream).ne_algorithmUnavailable algorithm rfl

theorem sign_ne_algorithmUnavailable (h : s.Consistent) (htest : s.purpose ≠ .test)
    (hclass : OperationClass.signer.accepts s.purpose) (message : Bytes) :
    s.sign message ≠ .error (.algorithmUnavailable algorithm) := by
  apply h.bind_signStream_ne_algorithmUnavailable htest hclass
  intro key stream e herror
  rcases bind_eq_error_iff.mp herror with hsign | ⟨_, _, hpure⟩
  . exact SignStream.ofStream_of_sign_eq_error hsign
  . cases hpure

theorem run_encrypt_ne_algorithmUnavailable (h : s.Consistent) (htest : s.purpose ≠ .test)
    (hclass : OperationClass.encrypter.accepts s.purpose) (message : Bytes)
    (source rest : RandomSource) :
    (s.encrypt message).run source ≠ .error (.algorithmUnavailable algorithm) rest := by
  intro herror
  unfold encrypt at herror
  rcases run_bind_eq_error_iff.mp herror with hkey | ⟨key, _, hkey, hstream⟩
  . exact primaryKey_ne_algorithmUnavailable (run_ofExcept_eq_error_iff.mp hkey).1
  . have hcapable := h.suffice_of_primaryKey htest hclass (run_ofExcept_eq_ok_iff.mp hkey).1
    rcases s.config.compression.exists_compress message with ⟨packed, hpacked, _⟩
    rcases (Key.exists_run_encryptStream_iff _).mpr hcapable with ⟨stream, _, hok⟩
    rw [hpacked, run_bind_of_ok (run_ofExcept_ok _ _), run_bind_of_ok hok] at hstream
    rcases run_bind_eq_error_iff.mp hstream with hfinish | ⟨last, _, _, htrailer⟩
    . exact (EncryptStream.ofStream_of_run_finish_eq_error hfinish).ne_algorithmUnavailable _ rfl
    . dsimp only at htrailer
      split at htrailer
      . next hpos =>
        -- The trailer is signed with the key that encrypts, which can do both.
        rcases Key.exists_signStream_iff.mpr (Key.sign_of_ciphertextDigestSize_pos hpos) with
          ⟨integrity, hok⟩
        rw [hok, run_bind_of_ok (run_ofExcept_ok _ _)] at htrailer
        rcases run_bind_eq_error_iff.mp htrailer with hsign | ⟨_, _, _, hpure⟩
        . exact (SignStream.ofStream_of_sign_eq_error
            (run_ofExcept_eq_error_iff.mp hsign).1).ne_algorithmUnavailable _ rfl
        . cases hpure
      . cases htrailer

theorem decrypt_ne_algorithmUnavailable (h : s.Consistent) (htest : s.purpose ≠ .test)
    (hclass : OperationClass.crypter.accepts s.purpose) (ciphertext : Bytes) :
    s.decrypt ciphertext ≠ .error (.algorithmUnavailable algorithm) := by
  intro herror
  unfold decrypt at herror
  rcases bind_eq_error_iff.mp herror with hdecode | ⟨⟨header, rest⟩, _, herror⟩
  . exact Header.decode_ne_algorithmUnavailable (by simp) hdecode
  . rcases bind_eq_error_iff.mp herror with hkey | ⟨key, hkey, herror⟩
    . exact keyOf_ne_algorithmUnavailable hkey
    . rcases bind_eq_error_iff.mp herror with hopen | ⟨body, _, hstream⟩
      . exact openTrailer_ne_algorithmUnavailable hopen
      . have hcapable := h.suffice_of_keyOf htest hclass hkey
        unfold Capabilities.suffice at hcapable
        rw [Bool.and_eq_true] at hcapable
        rcases Key.exists_decryptStream_iff.mpr hcapable.2 with ⟨stream, hok⟩
        rcases Key.exists_update_of_decryptStream hok body with ⟨_, _, hupdate⟩
        rw [hok, ok_bind, hupdate, ok_bind] at hstream
        rcases bind_eq_error_iff.mp hstream with hfinish | ⟨_, _, hmessage⟩
        . exact (DecryptStream.ofStream_of_finish_eq_error hfinish).ne_algorithmUnavailable _ rfl
        . exact Compression.decompress_ne_algorithmUnavailable hmessage

end Consistent

theorem accepts_of_load_eq_ok {source : Source} {operations : OperationClass} {config : Config}
    (h : load source operations config = .ok s) : operations.accepts s.purpose := by
  rcases load_eq_ok_iff.mp h with ⟨_, m, _, haccepts, hfold⟩
  rcases (Holds.empty m config).foldlM_loadVersion hfold with ⟨_, hsame, _⟩
  unfold purpose
  rw [hsame]
  exact haccepts

/-- Whether all front ends of a class can be made over a set. -/
def Backs (s : KeySet) : OperationClass → Prop
  | .verifier =>
    (∃ verifier, s.verifier = .ok verifier) ∧ ∃ verifier, s.unversionedVerifier = .ok verifier
  | .signer => (∃ signer, s.signer = .ok signer) ∧ ∃ signer, s.unversionedSigner = .ok signer
  | .encrypter => ∃ encrypter, s.encrypter = .ok encrypter
  | .crypter => ∃ crypter, s.crypter = .ok crypter
  | .admin => True

theorem backs_of_accepts {operations : OperationClass} (h : operations.accepts s.purpose) :
    s.Backs operations := by
  cases operations with
  | verifier => exact ⟨⟨_, verifier_eq_ok h⟩, ⟨_, unversionedVerifier_eq_ok h⟩⟩
  | signer => exact ⟨⟨_, signer_eq_ok h⟩, ⟨_, unversionedSigner_eq_ok h⟩⟩
  | encrypter => exact ⟨_, encrypter_eq_ok h⟩
  | crypter => exact ⟨_, crypter_eq_ok h⟩
  | admin => trivial

/-- A key that a front end may ask for has the streams of its class, and no stream that is asked for
fails to be set up. Whatever can be loaded for a class is accepted by the front ends of the class. -/
theorem front_ends_have_streams :
    (∀ s : KeySet, s.Reachable → s.purpose ≠ .test →
      (∀ operations : OperationClass, operations.accepts s.purpose →
        ∀ version key, s.keyByVersion? version = some key →
          key.capabilities.suffice operations) ∧
      ∀ algorithm,
        (∀ signer, s.signer = .ok signer → ∀ message,
          signer.sign message ≠ .error (.algorithmUnavailable algorithm)) ∧
        (∀ signer, s.unversionedSigner = .ok signer → ∀ message,
          signer.sign message ≠ .error (.algorithmUnavailable algorithm)) ∧
        (∀ verifier, s.verifier = .ok verifier → ∀ message signature,
          verifier.verify message signature ≠ .error (.algorithmUnavailable algorithm)) ∧
        (∀ verifier, s.unversionedVerifier = .ok verifier →
          (∀ message trailer,
            verifier.verify message trailer ≠ .error (.algorithmUnavailable algorithm)) ∧
          ∀ message text,
            verifier.verifyEncoded message text ≠ .error (.algorithmUnavailable algorithm)) ∧
        (∀ encrypter, s.encrypter = .ok encrypter → ∀ message source rest,
          (encrypter.encrypt message).run source ≠
            .error (.algorithmUnavailable algorithm) rest) ∧
        ∀ crypter, s.crypter = .ok crypter →
          (∀ message source rest, (crypter.encrypt message).run source ≠
            .error (.algorithmUnavailable algorithm) rest) ∧
          ∀ ciphertext,
            crypter.decrypt ciphertext ≠ .error (.algorithmUnavailable algorithm)) ∧
    ∀ source operations config s, load source operations config = .ok s → s.Backs operations := by
  constructor
  . intro s hreachable htest
    have h := hreachable.consistent
    constructor
    . intro operations hclass version key hkey
      exact h.suffice htest hclass (h.keyByVersion?_eq_some_iff.mp hkey)
    . intro algorithm
      refine ⟨?_, ?_, ?_, ?_, ?_, ?_⟩
      . intro signer hsigner message
        rcases signer_eq_ok_iff.mp hsigner with ⟨hclass, rfl⟩
        exact h.sign_ne_algorithmUnavailable htest hclass message
      . intro signer hsigner message
        rcases unversionedSigner_eq_ok_iff.mp hsigner with ⟨hclass, rfl⟩
        exact h.bind_signStream_ne_algorithmUnavailable htest hclass
          SignStream.ofStream_of_sign_eq_error
      . intro verifier hverifier message signature
        rcases verifier_eq_ok_iff.mp hverifier with ⟨_, rfl⟩
        exact verify_ne_algorithmUnavailable message signature
      . intro verifier _
        have hverify : ∀ message trailer,
            verifier.verify message trailer ≠ .error (.algorithmUnavailable algorithm) := by
          intro message trailer
          rw [verifier.verify_eq]
          simp
        refine ⟨hverify, ?_⟩
        intro message text herror
        rcases bind_eq_error_iff.mp herror with hdecode | ⟨trailer, _, herror⟩
        . exact Encoding.decode_ne_algorithmUnavailable hdecode
        . exact hverify message trailer herror
      . intro encrypter hencrypter message source rest
        rcases encrypter_eq_ok_iff.mp hencrypter with ⟨hclass, rfl⟩
        exact h.run_encrypt_ne_algorithmUnavailable htest hclass message source rest
      . intro crypter hcrypter
        rcases crypter_eq_ok_iff.mp hcrypter with ⟨hclass, rfl⟩
        have hclass' := OperationClass.encrypter_accepts_of_crypter hclass
        exact ⟨h.run_encrypt_ne_algorithmUnavailable htest hclass',
          h.decrypt_ne_algorithmUnavailable htest hclass⟩
  . intro source operations config s hload
    exact backs_of_accepts (accepts_of_load_eq_ok hload)

theorem front_ends_have_streams_sample :
    (sample.Reachable ∧ sample.purpose ≠ .test ∧
      ∃ signer verifier unversioned, sample.signer = .ok signer ∧
        sample.verifier = .ok verifier ∧ sample.unversionedVerifier = .ok unversioned ∧
        ∀ algorithm message trailer,
          signer.sign message ≠ .error (.algorithmUnavailable algorithm) ∧
          verifier.verify message trailer ≠ .error (.algorithmUnavailable algorithm) ∧
          unversioned.verify message trailer ≠ .error (.algorithmUnavailable algorithm)) ∧
    (sampleAes.Reachable ∧ sampleAes.purpose ≠ .test ∧
      ∃ encrypter crypter, sampleAes.encrypter = .ok encrypter ∧
        sampleAes.crypter = .ok crypter ∧
        ∀ algorithm message source rest ciphertext,
          (encrypter.encrypt message).run source ≠
            .error (.algorithmUnavailable algorithm) rest ∧
          (crypter.encrypt message).run source ≠ .error (.algorithmUnavailable algorithm) rest ∧
          crypter.decrypt ciphertext ≠ .error (.algorithmUnavailable algorithm)) ∧
    load sample.bundle.toSource .signer sample.config = .ok sample ∧ sample.Backs .signer := by
  have hload : load sample.bundle.toSource .signer sample.config = .ok sample := by
    apply reachable_sample.consistent.load_eq_ok storable_sample _ rfl
    intro k hk
    cases hk with
    | head => trivial
    | tail _ hk =>
      rw [List.mem_singleton.mp hk]
      trivial
  rcases front_ends_have_streams with ⟨hstreams, hbacks⟩
  refine ⟨⟨reachable_sample, by decide, _, _, _, signer_eq_ok rfl, verifier_eq_ok rfl,
    unversionedVerifier_eq_ok rfl, ?_⟩, ⟨reachable_sampleAes, by decide, _, _, encrypter_eq_ok rfl,
    crypter_eq_ok rfl, ?_⟩, hload, hbacks _ _ _ _ hload⟩
  . intro algorithm message trailer
    rcases (hstreams sample reachable_sample (by decide)).2 algorithm with
      ⟨hsigner, _, hverifier, hunversioned, _⟩
    exact ⟨hsigner _ (signer_eq_ok rfl) message,
      hverifier _ (verifier_eq_ok rfl) message trailer,
      (hunversioned _ (unversionedVerifier_eq_ok rfl)).1 message trailer⟩
  . intro algorithm message source rest ciphertext
    rcases (hstreams sampleAes reachable_sampleAes (by decide)).2 algorithm with
      ⟨_, _, _, _, hencrypter, hcrypter⟩
    rcases hcrypter _ (crypter_eq_ok rfl) with ⟨hencrypt, hdecrypt⟩
    exact ⟨hencrypter _ (encrypter_eq_ok rfl) message source rest, hencrypt message source rest,
      hdecrypt ciphertext⟩

end KeySet

end Keyring
