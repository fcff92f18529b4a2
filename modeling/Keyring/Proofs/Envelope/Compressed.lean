import Keyring.Proofs.Compression
import Keyring.Proofs.Envelope.Refusal
import Keyring.Proofs.KeySet.Publication
/-!
This module contains what compression means for ciphertexts of AES keys. A set that is loaded with
the compression of the set that encrypts decrypts all of its ciphertexts, whatever the compressor
made of the messages, and a set that is loaded with the other format decrypts none of them.
-/

namespace Keyring

open Cipher

namespace KeySet

variable {s : KeySet} {version : UInt32} {k : AesKey} {iv : Bytes}

/-- What encrypting a message with a key of the set can give. The compressor is left free. -/
def IsCiphertext (s : KeySet) (message c : Bytes) : Prop :=
  ∃ version k iv packed, s.keyByVersion? version = some (.aes k) ∧ iv.length = 16 ∧
    s.config.compression.Packs message packed ∧ c = k.ciphertext iv packed

theorem decryptBody_aes (hiv : iv.length = Aes.blockSize) (packed : Bytes) :
    (Key.aes k).decryptBody (iv ++ Cbc.encrypt k.bytes iv packed) = .ok packed := by
  rw [Key.decryptBody_aes_eq_ok_iff]
  exact ⟨iv, hiv, rfl⟩

namespace Consistent

theorem decrypt_ciphertext (h : s.Consistent) (hkey : (version, .aes k) ∈ s.keys)
    (hiv : iv.length = Aes.blockSize) (packed : Bytes) :
    s.decrypt (k.ciphertext iv packed) = s.config.compression.decompress packed := by
  let body := iv ++ Cbc.encrypt k.bytes iv packed
  let rest := body ++ Digest.Hmac.mac k.hmac.bytes ((Header.mk k.hash).encode ++ body)
  have hsplit : k.ciphertext iv packed = (Header.mk k.hash).encode ++ rest := by
    unfold AesKey.ciphertext
    rw [AesKey.covered_eq, List.append_assoc]
  have hbody : openTrailer (.aes k) ((Header.mk k.hash).encode ++ rest) rest = .ok body := by
    rw [openTrailer_eq_ok_iff]
  have hdecrypt := h.decrypt_eq hkey rest
  dsimp only [Key.hash] at hdecrypt
  rw [hsplit, hdecrypt, hbody, ok_bind, opened, decryptBody_aes hiv, ok_bind]

theorem load_withConfig (h : s.Consistent) (htype : s.keyType = .aes)
    (hkeys : ∀ k ∈ s.keys, k.2.Storable) {config : Config}
    (hattempts : config.maxGenerationAttempts ≠ 0) {operations : OperationClass}
    (haccepts : operations.accepts s.purpose) :
    load s.bundle.toSource operations config = .ok { s with config } := by
  have hload : ∀ k ∈ s.keys, k.2.Loadable := by
    intro k hk
    rcases exists_aes_of_type_eq ((h.holds.type_eq k hk).trans htype) with ⟨k', hk'⟩
    rw [hk']
    trivial
  exact (h.withConfig hattempts).load_eq_ok hkeys hload haccepts

end Consistent

theorem Reachable.isCiphertext_encrypt (h : s.Reachable) (htype : s.keyType = .aes)
    (hsome : s.primary ≠ none) (message : Bytes) (source : RandomSource) :
    ∃ c source', (s.encrypt message).run source = .ok c source' ∧ s.IsCiphertext message c := by
  have hs := h.consistent
  rcases Option.ne_none_iff_exists'.mp hsome with ⟨version, hversion⟩
  rcases hs.exists_key_of_primary hversion with ⟨key, hkey⟩
  rcases exists_aes_of_type_eq ((hs.holds.type_eq _ hkey).trans htype) with ⟨k, rfl⟩
  rcases s.config.compression.exists_compress message with ⟨packed, hpacked, hpacks⟩
  refine ⟨_, _, run_encrypt_eq_ok (hs.primaryKey_eq_ok hversion hkey) hpacked source, ?_⟩
  exact ⟨version, k, _, packed, hs.keyByVersion?_eq_some_iff.mpr hkey, source.length_draw _, hpacks,
    rfl⟩

end KeySet

/-- Whatever data is compressed to is decompressed to it again and fails to decompress in the format
with the other header. So the ciphertexts of a set of AES keys decrypt with the compression that
they were made with and fail as a whole with the other one. -/
theorem Compression.undone_and_told_apart :
    (∀ (c : Compression) (data : Bytes), ∃ packed,
      c.compress data = .ok packed ∧ c.Packs data packed ∧ c.decompress packed = .ok data) ∧
    (∀ (c : Compression) (data packed : Bytes), c.Packs data packed →
      c.decompress packed = .ok data) ∧
    (∀ (c c' : Compression) (data packed : Bytes), c.Differs c' → c.Packs data packed →
      c'.decompress packed = .error mismatch) ∧
    ∀ s : KeySet, s.Reachable → s.keyType = .aes → (∀ k ∈ s.keys, k.2.Storable) →
      ∃ maker, s.crypter = .ok maker ∧
        (s.primary ≠ Option.none → ∀ message source, ∃ c source',
          (maker.encrypt message).run source = .ok c source' ∧ s.IsCiphertext message c) ∧
        ∀ (config : Config) (operations : OperationClass), config.maxGenerationAttempts ≠ 0 →
          operations.accepts s.purpose →
          ∃ t opener, KeySet.load s.bundle.toSource operations config = .ok t ∧
            t.crypter = .ok opener ∧ ∀ message c, s.IsCiphertext message c →
              (config.compression = s.config.compression → opener.decrypt c = .ok message) ∧
              (s.config.compression.Differs config.compression →
                opener.decrypt c = .error mismatch) := by
  have hundone : ∀ (c : Compression) (data packed : Bytes), c.Packs data packed →
      c.decompress packed = .ok data := by
    intro c data packed hpacks
    exact decompress_eq_ok (decompress?_of_packs hpacks)
  have happart : ∀ (c c' : Compression) (data packed : Bytes), c.Differs c' → c.Packs data packed →
      c'.decompress packed = .error mismatch := by
    intro c c' data packed hdiffers hpacks
    exact decompress_eq_error (decompress?_of_differs hdiffers hpacks)
  refine ⟨?_, hundone, happart, ?_⟩
  . intro c data
    rcases c.exists_compress data with ⟨packed, hpacked, hpacks⟩
    exact ⟨packed, hpacked, hpacks, hundone c data packed hpacks⟩
  . intro s hreachable htype hkeys
    have hs := hreachable.consistent
    have haccepts : OperationClass.crypter.accepts s.purpose := by
      apply KeySet.crypter_accepts_of_aes
      rw [← htype]
      exact hs.valid.accepts
    refine ⟨_, KeySet.crypter_eq_ok haccepts, hreachable.isCiphertext_encrypt htype, ?_⟩
    intro config operations hattempts hoperations
    refine ⟨{ s with config }, ⟨{ s with config }, haccepts⟩,
      hs.load_withConfig htype hkeys hattempts hoperations, KeySet.crypter_eq_ok _, ?_⟩
    rintro message _ ⟨version, k, iv, packed, hkey, hiv, hpacks, rfl⟩
    rw [hs.keyByVersion?_eq_some_iff] at hkey
    have hdecrypt := (hs.withConfig hattempts).decrypt_ciphertext hkey hiv packed
    constructor
    . intro hsame
      rw [← hsame] at hpacks
      exact hdecrypt.trans (hundone _ _ _ hpacks)
    . intro hdiffers
      exact hdecrypt.trans (happart _ _ _ _ hdiffers hpacks)

namespace KeySet

/-- The sample set of an AES key under some compression. -/
def sampleCompressed (c : Compression) : KeySet :=
  let empty : KeySet := {
    metadata := ⟨"sample", .decryptAndEncrypt, .aes, 0, []⟩
    config := { compression := c } }
  empty.insert .primary (.aes sampleAesKey)

theorem reachable_sampleCompressed (c : Compression) : (sampleCompressed c).Reachable := by
  unfold sampleCompressed
  apply Reachable.insert
  . exact @Reachable.new "sample" .decryptAndEncrypt .aes { compression := c } _ rfl
  . rfl
  . rfl
  . change (0 : UInt32) ≠ 4294967295
    decide

theorem storable_sampleCompressed (c : Compression) :
    ∀ k ∈ (sampleCompressed c).keys, k.2.Storable := by
  intro k hk
  rw [List.mem_singleton.mp hk]
  simp [Key.Storable, Key.ShortFields, Key.fields, sampleAesKey]

end KeySet

theorem Compression.undone_and_told_apart_sample :
    let s := KeySet.sampleCompressed .gzip
    s.Reachable ∧ s.keyType = .aes ∧ (∀ k ∈ s.keys, k.2.Storable) ∧
      ∃ maker zlib gzip t u, s.crypter = .ok maker ∧
        KeySet.load s.bundle.toSource .crypter { compression := .zlib } = .ok t ∧
        KeySet.load s.bundle.toSource .crypter { compression := .gzip } = .ok u ∧
        t.crypter = .ok zlib ∧ u.crypter = .ok gzip ∧
        ∀ message source, ∃ c source', (maker.encrypt message).run source = .ok c source' ∧
          zlib.decrypt c = .error mismatch ∧ gzip.decrypt c = .ok message := by
  let s := KeySet.sampleCompressed .gzip
  have hs := KeySet.reachable_sampleCompressed .gzip
  have hkeys := KeySet.storable_sampleCompressed .gzip
  rcases undone_and_told_apart.2.2.2 s hs rfl hkeys with ⟨maker, hmaker, hencrypt, hload⟩
  rcases hload { compression := .zlib } .crypter (by decide) rfl with ⟨t, zlib, ht, hzlib, hopen⟩
  rcases hload { compression := .gzip } .crypter (by decide) rfl with ⟨u, gzip, hu, hgzip, hopen'⟩
  refine ⟨hs, rfl, hkeys, maker, zlib, gzip, t, u, hmaker, ht, hu, hzlib, hgzip, ?_⟩
  intro message source
  rcases hencrypt (by decide) message source with ⟨c, source', hrun, hc⟩
  exact ⟨c, source', hrun, (hopen message c hc).2 (.inl ⟨rfl, rfl⟩), (hopen' message c hc).1 rfl⟩

end Keyring
