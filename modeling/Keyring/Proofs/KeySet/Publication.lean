import Keyring.Proofs.Envelope.FrontEnd
import Keyring.Proofs.Envelope.Header
import Keyring.Proofs.Key.Canonical
import Keyring.Proofs.KeySet.Storage
/-!
This module contains what the public half of a key set is good for. It verifies and encrypts exactly
as the set does, because the public half of a key has the hash, the sizes and the streams of the
key. Others can load it unless a modulus in it is too large for a public key on its own.
-/

namespace Keyring

namespace Key

@[simp]
theorem digestSize_publicPart (k : Key) : k.publicPart.digestSize = k.digestSize := by
  cases k with
  | aes _ | hmac _ | rsaPrivate _ | rsaPublic _ | dsaPrivate _ | dsaPublic _ => rfl

@[simp]
theorem ciphertextDigestSize_publicPart (k : Key) :
    k.publicPart.ciphertextDigestSize = k.ciphertextDigestSize := by
  cases k with
  | aes _ | hmac _ | rsaPrivate _ | rsaPublic _ | dsaPrivate _ | dsaPublic _ => rfl

@[simp]
theorem verification_publicPart (k : Key) : k.publicPart.verification = k.verification := by
  cases k with
  | aes _ | hmac _ | rsaPrivate _ | rsaPublic _ | dsaPrivate _ | dsaPublic _ => rfl

@[simp]
theorem verifyStream_publicPart (k : Key) : k.publicPart.verifyStream = k.verifyStream := by
  rw [verifyStream_eq_ok, verifyStream_eq_ok, verification_publicPart]

@[simp]
theorem encryptStream_publicPart (k : Key) : k.publicPart.encryptStream = k.encryptStream := by
  cases k with
  | aes _ | hmac _ | rsaPrivate _ | rsaPublic _ | dsaPrivate _ | dsaPublic _ => rfl

/-- Only AES keys put a trailer on ciphertexts, and these are their own public part. -/
theorem signStream_publicPart {k : Key} (h : k.ciphertextDigestSize > 0) :
    k.publicPart.signStream = k.signStream := by
  cases k with
  | aes _ => rfl
  | hmac _ | rsaPrivate _ | rsaPublic _ | dsaPrivate _ | dsaPublic _ =>
    simp [ciphertextDigestSize] at h

theorem storable_of_publicHalf_eq_ok {bs : Bytes} {k k' : Key} (hk : decode bs = .ok k)
    (h : k.publicHalf = .ok k') : k'.Storable := by
  have hdecoded : ∃ bs whole, decode bs = .ok whole ∧ (whole = k' ∨ whole.publicHalf = .ok k') :=
    ⟨bs, k, hk, .inr h⟩
  cases k with
  | aes _ | hmac _ => simp [publicHalf] at h
  | rsaPrivate _ | rsaPublic _ | dsaPrivate _ | dsaPublic _ =>
    rw [publicHalf, Except.ok.injEq] at h
    subst h
    exact hdecoded

theorem loadable_publicPart_iff {k : Key} {type : KeyType} (h : k.type.publicHalf? = some type) :
    k.publicPart.Loadable ↔ ∀ k', k = .rsaPrivate k' → k'.publicKey.modulus.log2 < 4096 := by
  cases k with
  | rsaPrivate k =>
    simp only [rsaPrivate.injEq, forall_eq']
    rfl
  | dsaPrivate k => simp [publicPart, Loadable]
  | aes _ | hmac _ | rsaPublic _ | dsaPublic _ => simp [Key.type, KeyType.publicHalf?] at h

end Key

namespace KeySet

/-- No private RSA key has a modulus of more than 4096 bits. -/
def SmallModuli (s : KeySet) : Prop :=
  ∀ version k, (version, .rsaPrivate k) ∈ s.keys → k.publicKey.modulus.log2 < 4096

variable {s p : KeySet} {purpose : Purpose} {keyType : KeyType}

section PublicPart

variable (s : KeySet) (purpose : Purpose) (keyType : KeyType)

theorem config_publicPart : (s.publicPart purpose keyType).config = s.config := by
  rfl

theorem keyByVersion?_publicPart (version : UInt32) :
    (s.publicPart purpose keyType).keyByVersion? version =
      (s.keyByVersion? version).map Key.publicPart := by
  exact lookup_map_snd Key.publicPart s.keys version

theorem keyByHash?_publicPart (hash : KeyHash) :
    (s.publicPart purpose keyType).keyByHash? hash = (s.keyByHash? hash).map Key.publicPart := by
  unfold keyByHash?
  rw [Option.bind_eq_bind, Option.map_bind]
  exact congrArg _ (funext (s.keyByVersion?_publicPart purpose keyType))

theorem primaryKey_publicPart :
    (s.publicPart purpose keyType).primaryKey = s.primaryKey.map Key.publicPart := by
  have hkey : s.primary.bind (s.publicPart purpose keyType).keyByVersion? =
      (s.primary.bind s.keyByVersion?).map Key.publicPart := by
    rw [Option.map_bind]
    exact congrArg _ (funext (s.keyByVersion?_publicPart purpose keyType))
  have hprimary : (s.publicPart purpose keyType).primary = s.primary := rfl
  unfold primaryKey
  rw [hprimary, hkey]
  cases s.primary.bind s.keyByVersion? with
  | none => rfl
  | some key => rfl

theorem keyOf_publicPart (header : Header) :
    (s.publicPart purpose keyType).keyOf header = (s.keyOf header).map Key.publicPart := by
  unfold keyOf
  rw [keyByHash?_publicPart]
  cases s.keyByHash? header.hash with
  | none => rfl
  | some key => rfl

theorem verify_publicPart (message signature : Bytes) :
    (s.publicPart purpose keyType).verify message signature = s.verify message signature := by
  unfold verify
  cases Header.decode .shortSignature signature with
  | error e => rfl
  | ok parts =>
    rw [ok_bind, ok_bind]
    dsimp only
    rw [keyOf_publicPart]
    cases s.keyOf parts.1 with
    | error e => rfl
    | ok key => simp [Except.map]

theorem encrypt_publicPart (message : Bytes) :
    (s.publicPart purpose keyType).encrypt message = s.encrypt message := by
  unfold encrypt
  rw [primaryKey_publicPart]
  cases s.primaryKey with
  | error e => rfl
  | ok key =>
    change (pure key.publicPart >>= _) = (pure key >>= _)
    rw [pure_bind, pure_bind]
    by_cases htrailer : key.ciphertextDigestSize > 0
    . simp only [config_publicPart, Key.hash_publicPart, Key.encryptStream_publicPart,
        Key.ciphertextDigestSize_publicPart, Key.signStream_publicPart htrailer]
    . simp only [config_publicPart, Key.hash_publicPart, Key.encryptStream_publicPart,
        Key.ciphertextDigestSize_publicPart, htrailer, ↓reduceIte]

theorem any_verify_publicPart (message trailer : Bytes) :
    ((s.publicPart purpose keyType).keys.any fun (_, key) =>
        (key.verification.update message).verify trailer) =
      s.keys.any fun (_, key) => (key.verification.update message).verify trailer := by
  unfold publicPart
  rw [List.any_map]
  simp only [Function.comp_def, Key.verification_publicPart]

end PublicPart

namespace Consistent

theorem withConfig (h : s.Consistent) {config : Config}
    (hattempts : config.maxGenerationAttempts ≠ 0) : KeySet.Consistent { s with config } where
  valid := h.valid
  holds := {
    keys_eq := h.holds.keys_eq
    index_eq := h.holds.index_eq
    nodup_hashes := h.holds.nodup_hashes
    type_eq := h.holds.type_eq
    primary_iff := h.holds.primary_iff }
  attempts_ne := hattempts

theorem publicHalf_cases (h : s.Consistent) (hp : s.publicHalf = .ok p) :
    ∃ purpose keyType, publicPurpose? s.purpose s.keyType = some purpose ∧
      s.keyType.publicHalf? = some keyType ∧ p = s.publicPart purpose keyType :=
  (publicHalf_eq_ok_iff h.valid h.holds.type_eq).mp hp

theorem storable_publicPart (h : s.Consistent) (purpose : Purpose)
    (hkeyType : s.keyType.publicHalf? = some keyType)
    (hkeys : ∀ k ∈ s.keys, ∃ bs, Key.decode bs = .ok k.2) :
    ∀ k ∈ (s.publicPart purpose keyType).keys, k.2.Storable := by
  intro k' hk'
  rcases List.mem_map.mp hk' with ⟨k, hk, rfl⟩
  rcases hkeys k hk with ⟨bs, hbs⟩
  rw [← h.holds.type_eq k hk] at hkeyType
  exact Key.storable_of_publicHalf_eq_ok hbs (Key.publicHalf_of_type hkeyType).1

theorem loadable_publicPart_iff (h : s.Consistent) (purpose : Purpose)
    (hkeyType : s.keyType.publicHalf? = some keyType) :
    (∀ k ∈ (s.publicPart purpose keyType).keys, k.2.Loadable) ↔ s.SmallModuli := by
  have hkey : ∀ {k}, k ∈ s.keys → (k.2.publicPart.Loadable ↔
      ∀ k', k.2 = .rsaPrivate k' → k'.publicKey.modulus.log2 < 4096) := by
    intro k hk
    apply Key.loadable_publicPart_iff
    rw [h.holds.type_eq k hk]
    exact hkeyType
  constructor
  . intro hload version k hk
    exact (hkey hk).mp (hload _ (List.mem_map_of_mem hk)) k rfl
  . intro hsmall k' hk'
    rcases List.mem_map.mp hk' with ⟨⟨version, k⟩, hk, rfl⟩
    rw [hkey hk]
    rintro k' rfl
    exact hsmall version k' hk

theorem load_publicHalf (h : s.Consistent) (hp : s.publicHalf = .ok p)
    (hkeys : ∀ k ∈ s.keys, ∃ bs, Key.decode bs = .ok k.2) {operations : OperationClass}
    {config : Config} (haccepts : operations.accepts p.purpose)
    (hattempts : config.maxGenerationAttempts ≠ 0) :
    (s.SmallModuli → load p.bundle.toSource operations config = .ok { p with config }) ∧
    (¬s.SmallModuli → load p.bundle.toSource operations config = .error .badKey) := by
  have hpublic := (h.publicHalf hp).withConfig hattempts
  rcases h.publicHalf_cases hp with ⟨purpose, keyType, _, hkeyType, rfl⟩
  have hstorable := h.storable_publicPart purpose hkeyType hkeys
  rw [← h.loadable_publicPart_iff purpose hkeyType]
  constructor
  . intro hload
    exact hpublic.load_eq_ok hstorable hload haccepts
  . intro hload
    apply hpublic.load_eq_error hstorable _ haccepts
    simpa using hload

theorem exists_publicHalf_iff (h : s.Consistent) :
    (∃ p, s.publicHalf = .ok p) ↔
      s.purpose = .signAndVerify ∧ (s.keyType = .rsaPrivate ∨ s.keyType = .dsaPrivate) ∨
      s.purpose = .decryptAndEncrypt ∧ s.keyType = .rsaPrivate := by
  have hsome : (∃ p, s.publicHalf = .ok p) ↔
      ∃ purpose, publicPurpose? s.purpose s.keyType = some purpose := by
    simp only [publicHalf_eq_ok_iff h.valid h.holds.type_eq]
    constructor
    . rintro ⟨p, purpose, _, hpurpose, _⟩
      exact ⟨purpose, hpurpose⟩
    . rintro ⟨purpose, hpurpose⟩
      rcases exists_accepts_of_publicPurpose?_eq_some hpurpose with ⟨keyType, hkeyType, _⟩
      exact ⟨_, purpose, keyType, hpurpose, hkeyType, rfl⟩
  rw [hsome]
  simp [publicPurpose?_eq_some_iff, exists_or]

theorem eq_of_publicHalf_eq_error (h : s.Consistent) {e : Error} (he : s.publicHalf = .error e) :
    e = .unacceptablePurpose s.purpose "key set has no public keys to export" := by
  rw [publicHalf_eq h.valid h.holds.type_eq] at he
  split at he
  . simp at he
  . rw [Except.error.injEq] at he
    exact he.symm

theorem verify_publicHalf (h : s.Consistent) (hp : s.publicHalf = .ok p)
    (hpurpose : s.purpose = .signAndVerify) :
    (∃ v v', s.verifier = .ok v ∧ p.verifier = .ok v' ∧
      ∀ message signature, v'.verify message signature = v.verify message signature) ∧
    ∃ v v', s.unversionedVerifier = .ok v ∧ p.unversionedVerifier = .ok v' ∧
      ∀ message trailer, v'.verify message trailer = v.verify message trailer := by
  rcases h.publicHalf_cases hp with ⟨purpose, keyType, hpublic, _, rfl⟩
  have haccepts : OperationClass.verifier.accepts s.purpose := by
    rw [hpurpose]
    rfl
  have haccepts' : OperationClass.verifier.accepts (s.publicPart purpose keyType).purpose := by
    change OperationClass.verifier.accepts purpose
    rcases publicPurpose?_eq_some_iff.mp hpublic with ⟨_, _, rfl⟩ | ⟨hother, _⟩
    . rfl
    . simp [hpurpose] at hother
  constructor
  . exact ⟨_, _, verifier_eq_ok haccepts, verifier_eq_ok haccepts',
      verify_publicPart s purpose keyType⟩
  . refine ⟨_, _, unversionedVerifier_eq_ok haccepts, unversionedVerifier_eq_ok haccepts', ?_⟩
    intro message trailer
    rw [UnversionedVerifier.verify_eq, UnversionedVerifier.verify_eq, any_verify_publicPart]

theorem encrypt_publicHalf (h : s.Consistent) (hp : s.publicHalf = .ok p)
    (hpurpose : s.purpose = .decryptAndEncrypt) :
    ∃ e e', s.encrypter = .ok e ∧ p.encrypter = .ok e' ∧
      ∀ message source, (e'.encrypt message).run source = (e.encrypt message).run source := by
  rcases h.publicHalf_cases hp with ⟨purpose, keyType, hpublic, _, rfl⟩
  have haccepts : OperationClass.encrypter.accepts s.purpose := by
    rw [hpurpose]
    rfl
  have haccepts' : OperationClass.encrypter.accepts (s.publicPart purpose keyType).purpose := by
    change OperationClass.encrypter.accepts purpose
    rcases publicPurpose?_eq_some_iff.mp hpublic with ⟨hother, _⟩ | ⟨_, _, rfl⟩
    . simp [hpurpose] at hother
    . rfl
  refine ⟨_, _, encrypter_eq_ok haccepts, encrypter_eq_ok haccepts', ?_⟩
  intro message source
  exact congrArg (·.run source) (encrypt_publicPart s purpose keyType message)

end Consistent

theorem Reachable.publicHalf_agrees (h : s.Reachable) :
    ((∃ p, s.publicHalf = .ok p) ↔
      s.purpose = .signAndVerify ∧ (s.keyType = .rsaPrivate ∨ s.keyType = .dsaPrivate) ∨
      s.purpose = .decryptAndEncrypt ∧ s.keyType = .rsaPrivate) ∧
    (∀ e, s.publicHalf = .error e →
      e = .unacceptablePurpose s.purpose "key set has no public keys to export") ∧
    ∀ p, s.publicHalf = .ok p →
      (p.name = s.name ∧ p.metadata.lastVersion = s.metadata.lastVersion ∧
        p.versions = s.versions ∧ p.primary = s.primary ∧ p.index = s.index ∧
        p.config = s.config ∧ p.Consistent) ∧
      (s.purpose = .signAndVerify →
        (∃ v v', s.verifier = .ok v ∧ p.verifier = .ok v' ∧
          ∀ message signature, v'.verify message signature = v.verify message signature) ∧
        ∃ v v', s.unversionedVerifier = .ok v ∧ p.unversionedVerifier = .ok v' ∧
          ∀ message trailer, v'.verify message trailer = v.verify message trailer) ∧
      (s.purpose = .decryptAndEncrypt →
        ∃ e e', s.encrypter = .ok e ∧ p.encrypter = .ok e' ∧
          ∀ message source, (e'.encrypt message).run source = (e.encrypt message).run source) ∧
      ((∀ k ∈ s.keys, ∃ bs, Key.decode bs = .ok k.2) →
        ∀ operations config, operations.accepts p.purpose → config.maxGenerationAttempts ≠ 0 →
          (s.SmallModuli →
            KeySet.load p.bundle.toSource operations config = .ok { p with config }) ∧
          (¬s.SmallModuli →
            KeySet.load p.bundle.toSource operations config = .error .badKey)) := by
  have hs := h.consistent
  refine ⟨hs.exists_publicHalf_iff, fun e => hs.eq_of_publicHalf_eq_error, ?_⟩
  intro p hp
  refine ⟨?_, hs.verify_publicHalf hp, hs.encrypt_publicHalf hp, ?_⟩
  . have hpublic := hs.publicHalf hp
    rcases hs.publicHalf_cases hp with ⟨purpose, keyType, _, _, rfl⟩
    exact ⟨rfl, rfl, rfl, rfl, rfl, rfl, hpublic⟩
  . intro hkeys operations config haccepts hattempts
    exact hs.load_publicHalf hp hkeys haccepts hattempts

def sampleDsaKey : DsaPrivateKey where
  publicKey := Key.smallDsa
  x := 1
  valid := by decide

def sampleDsa : KeySet :=
  let empty : KeySet := {
    metadata := ⟨"sample", .signAndVerify, .dsaPrivate, 0, []⟩
    config := {} }
  empty.insert .primary (.dsaPrivate sampleDsaKey)

theorem reachable_sampleDsa : sampleDsa.Reachable := by
  unfold sampleDsa
  apply Reachable.insert
  . exact @Reachable.new "sample" .signAndVerify .dsaPrivate {} _ rfl
  . rfl
  . rfl
  . decide

theorem publicHalf_agrees_sampleDsa :
    sampleDsa.publicHalf = .ok (sampleDsa.publicPart .verify .dsaPublic) ∧
      (∃ v v', sampleDsa.verifier = .ok v ∧
        (sampleDsa.publicPart .verify .dsaPublic).verifier = .ok v' ∧
        ∀ message signature, v'.verify message signature = v.verify message signature) ∧
      load (sampleDsa.publicPart .verify .dsaPublic).bundle.toSource .verifier {} =
        .ok (sampleDsa.publicPart .verify .dsaPublic) := by
  have hpublic : sampleDsa.publicHalf = .ok (sampleDsa.publicPart .verify .dsaPublic) := rfl
  have hkeys : ∀ k ∈ sampleDsa.keys, ∃ bs, Key.decode bs = .ok k.2 := by
    intro k hk
    rw [List.mem_singleton.mp hk]
    refine ⟨_, Key.decode_encode_of_loadable ?_ trivial⟩
    unfold Key.ShortFields
    decide +kernel
  have hagrees := reachable_sampleDsa.publicHalf_agrees.2.2 _ hpublic
  refine ⟨hpublic, (hagrees.2.1 rfl).1, ?_⟩
  apply (hagrees.2.2.2 hkeys .verifier {} rfl (by decide)).1
  intro version k hk
  simpa using List.mem_singleton.mp hk

/-- A private key of any size is accepted, but not its public half. -/
theorem load_publicHalf_large :
    large.Reachable ∧ (∀ k ∈ large.keys, ∃ bs, Key.decode bs = .ok k.2) ∧
      large.publicHalf = .ok largePublic ∧
      OperationClass.verifier.accepts largePublic.purpose ∧
      load largePublic.bundle.toSource .verifier {} = .error .badKey := by
  have hmem : (1, .rsaPrivate largeKey) ∈ large.keys := List.mem_singleton.mpr rfl
  have hkeys : ∀ k ∈ large.keys, ∃ bs, Key.decode bs = .ok k.2 := by
    intro k hk
    rw [List.mem_singleton.mp hk]
    exact ⟨_, decode_encode_largeKey⟩
  refine ⟨reachable_large, hkeys, publicHalf_large, rfl, ?_⟩
  apply (reachable_large.consistent.load_publicHalf publicHalf_large hkeys rfl (by decide)).2
  intro hsmall
  have hlarge : ¬largeKey.publicKey.modulus.log2 < 4096 := by decide +kernel
  exact hlarge (hsmall 1 largeKey hmem)

end KeySet

end Keyring
