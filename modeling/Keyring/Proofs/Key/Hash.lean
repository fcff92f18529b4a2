import Keyring.Proofs.Key.Canonical
/-!
This module contains what the hash of a key is made of: the fields that both of its halves share,
each after its length, where leading zero bytes of numbers do not count. No two lists of fields are
the same bytes to the digest.
-/

namespace Keyring

namespace KeyHash

theorem Hasher.fed_foldl_updateField (h : Hasher) (fields : List Bytes) :
    (fields.foldl updateField h).fed = h.fed ++ fields.flatMap Bytes.field := by
  induction fields generalizing h with
  | nil => simp
  | cons field fields ih =>
    rw [List.foldl_cons, ih, List.flatMap_cons, ← List.append_assoc]
    rfl

theorem bytes_ofFields (fields : List Bytes) :
    (ofFields fields).bytes = (Digest.Sha1.digest (fields.flatMap Bytes.field)).take 4 := by
  unfold ofFields Hasher.finish
  dsimp only
  rw [Hasher.fed_foldl_updateField, List.nil_append]

theorem foldl_updateInteger (h : Hasher) (fields : List Bytes) :
    fields.foldl Hasher.updateInteger h =
      (fields.map Bytes.stripZeros).foldl Hasher.updateField h := by
  rw [List.foldl_map]
  rfl

end KeyHash

/-- How many of the fields of a key go into its hash. -/
def KeyType.hashedCount : KeyType → Nat
  | .hmac => 1
  | .aes | .rsaPrivate | .rsaPublic => 2
  | .dsaPrivate | .dsaPublic => 4

theorem KeyType.toNat_canonicalField (type : KeyType) (field : Bytes) :
    Bytes.toNat (type.canonicalField field) = Bytes.toNat field := by
  cases type with
  | aes | hmac => rfl
  | rsaPrivate | rsaPublic | dsaPrivate | dsaPublic => exact Bytes.toNat_stripZeros field

namespace Key

/-- Whether some fields spell what the hash of a key is made of. Numbers may have leading zero
bytes. -/
def SpelledBy (k : Key) (fields : List Bytes) : Prop :=
  match k with
  | .aes k => fields = [k.bytes, k.hmac.bytes]
  | .hmac k => fields = [k.bytes]
  | .rsaPrivate k => fields.map Bytes.toNat = [k.publicKey.modulus, k.publicKey.exponent]
  | .rsaPublic k => fields.map Bytes.toNat = [k.modulus, k.exponent]
  | .dsaPrivate k =>
    fields.map Bytes.toNat = [k.publicKey.p, k.publicKey.q, k.publicKey.g, k.publicKey.y]
  | .dsaPublic k => fields.map Bytes.toNat = [k.p, k.q, k.g, k.y]

theorem spelledBy_take {k : Key} {fields : List Bytes}
    (h : k.fields = fields.map k.type.canonicalField) :
    k.SpelledBy (fields.take k.type.hashedCount) := by
  have hnumbers : k.fields.map Bytes.toNat = fields.map Bytes.toNat := by
    rw [h, List.map_map]
    apply List.map_congr_left
    intro field _
    exact KeyType.toNat_canonicalField _ field
  cases k with
  | aes k | hmac k =>
    rw [List.map_congr_left (g := id), List.map_id] at h
    . rw [← h]
      rfl
    . intro field _
      rfl
  | rsaPrivate k | rsaPublic k | dsaPrivate k | dsaPublic k =>
    unfold SpelledBy
    dsimp only
    rw [List.map_take, ← hnumbers]
    simp [Key.fields, KeyType.hashedCount, Key.type]

theorem map_canonicalField_fields (k : Key) : k.fields.map k.type.canonicalField = k.fields := by
  have hnumber : ∀ n, Bytes.stripZeros (Bytes.ofNat n) = Bytes.ofNat n := by
    intro n
    rw [← Bytes.ofNat_toNat, Bytes.toNat_ofNat]
  cases k with
  | aes _ | hmac _ => rfl
  | rsaPrivate _ | rsaPublic _ | dsaPrivate _ | dsaPublic _ =>
    simp [Key.fields, Key.type, KeyType.canonicalField, hnumber]

theorem exists_spelledBy (k : Key) : ∃ fields, k.SpelledBy fields := by
  exact ⟨_, spelledBy_take k.map_canonicalField_fields.symm⟩

theorem hash_eq_ofFields {k : Key} {fields : List Bytes} (h : k.SpelledBy fields) :
    k.hash = .ofFields (fields.map k.type.canonicalField) := by
  have hnumbers : fields.map Bytes.stripZeros = (fields.map Bytes.toNat).map Bytes.ofNat := by
    rw [List.map_map]
    apply List.map_congr_left
    intro field _
    exact (Bytes.ofNat_toNat field).symm
  cases k with
  | aes k | hmac k =>
    unfold SpelledBy at h
    dsimp only at h
    rw [h]
    rfl
  | rsaPrivate k | rsaPublic k | dsaPrivate k | dsaPublic k =>
    unfold SpelledBy at h
    dsimp only at h
    change _ = KeyHash.ofFields (fields.map Bytes.stripZeros)
    rw [hnumbers, h]
    rfl

theorem hash_of_publicHalf_eq_ok {k k' : Key} (h : k.publicHalf = .ok k') : k'.hash = k.hash := by
  cases k with
  | aes _ | hmac _ => simp [publicHalf] at h
  | rsaPrivate _ | rsaPublic _ | dsaPrivate _ | dsaPublic _ =>
    rw [publicHalf, Except.ok.injEq] at h
    subst h
    rfl

theorem spelledBy_of_decode_eq_ok {type : KeyType} {fields : List Bytes} {k : Key}
    (hshort : ∀ field ∈ fields, field.length < 256 ^ 4)
    (h : decode (type.tag :: fields.flatMap Bytes.field) = .ok k) :
    k.type = type ∧ fields.length = type.fieldCount ∧
      k.SpelledBy (fields.take type.hashedCount) := by
  rcases decode_eq_ok_iff.mp h with ⟨fields', hlength, hshort', heq, hkey⟩
  rw [List.cons.injEq, flatMap_field_inj hshort hshort'] at heq
  rcases heq with ⟨htag, rfl⟩
  have htype : type = k.type := KeyType.tag_inj htag
  subst htype
  rw [KeyType.length_fieldSteps] at hlength
  exact ⟨rfl, hlength, spelledBy_take (eq_of_ofFields_eq_ok hkey).2.1⟩

theorem hashes_canonical :
    (∀ k : Key, (∃ fields, k.SpelledBy fields) ∧ ∀ fields, k.SpelledBy fields →
      k.hash.bytes = (Digest.Sha1.digest
        ((fields.map k.type.canonicalField).flatMap Bytes.field)).take 4) ∧
    (∀ k k' : Key, k.publicHalf = .ok k' → k'.hash = k.hash) ∧
    (∀ (type : KeyType) (fields : List Bytes) (k : Key), (∀ field ∈ fields, field.length < 2 ^ 32) →
      decode (type.tag :: fields.flatMap Bytes.field) = .ok k →
        k.type = type ∧ k.SpelledBy (fields.take type.hashedCount) ∧
        ∀ (fields' : List Bytes) (k' : Key), (∀ field ∈ fields', field.length < 2 ^ 32) →
          decode (type.tag :: fields'.flatMap Bytes.field) = .ok k' →
          fields'.map type.canonicalField = fields.map type.canonicalField → k'.hash = k.hash) ∧
    (∀ fields : List Bytes,
      (fields.foldl KeyHash.Hasher.updateField {}).finish = KeyHash.ofFields fields ∧
      (fields.foldl KeyHash.Hasher.updateInteger {}).finish =
        KeyHash.ofFields (fields.map Bytes.stripZeros) ∧
      (KeyHash.ofFields fields).bytes =
        (Digest.Sha1.digest (fields.flatMap Bytes.field)).take 4) ∧
    (∀ fields fields' : List Bytes, (∀ field ∈ fields, field.length < 2 ^ 32) →
      (∀ field ∈ fields', field.length < 2 ^ 32) →
      fields.flatMap Bytes.field = fields'.flatMap Bytes.field → fields = fields') := by
  refine ⟨?_, ?_, ?_, ?_, ?_⟩
  . intro k
    refine ⟨k.exists_spelledBy, ?_⟩
    intro fields hfields
    rw [hash_eq_ofFields hfields, KeyHash.bytes_ofFields]
  . intro k k' h
    exact hash_of_publicHalf_eq_ok h
  . intro type fields k hshort h
    rcases spelledBy_of_decode_eq_ok hshort h with ⟨htype, _, hspelled⟩
    refine ⟨htype, hspelled, ?_⟩
    intro fields' k' hshort' h' hsame
    rcases spelledBy_of_decode_eq_ok hshort' h' with ⟨htype', _, hspelled'⟩
    rw [hash_eq_ofFields hspelled, hash_eq_ofFields hspelled', htype, htype', List.map_take,
      List.map_take, hsame]
  . intro fields
    refine ⟨rfl, ?_, KeyHash.bytes_ofFields fields⟩
    rw [KeyHash.foldl_updateInteger]
    rfl
  . intro fields fields' hshort hshort' h
    exact (flatMap_field_inj hshort hshort').mp h

theorem hashes_canonical_padded :
    decode padded = .ok (.dsaPublic smallDsa) ∧
      (dsaPublic smallDsa).SpelledBy [[0, 23], [11], [2], [2]] ∧
      (dsaPublic smallDsa).hash.bytes =
        (Digest.Sha1.digest ([[23], [11], [2], [2]].flatMap Bytes.field)).take 4 ∧
      ∀ k, decode (dsaPublic smallDsa).encode = .ok k → k.hash = (dsaPublic smallDsa).hash := by
  rcases hashes_canonical with ⟨hdigest, _, haccepted, _, _⟩
  have hpadded :
      padded = KeyType.dsaPublic.tag :: [[0, 23], [11], [2], [2]].flatMap Bytes.field := by
    decide +kernel
  have hencode : (dsaPublic smallDsa).encode =
      KeyType.dsaPublic.tag :: [[23], [11], [2], [2]].flatMap Bytes.field := by
    decide +kernel
  have hdecode := decode_padded
  rw [hpadded] at hdecode
  have hspelled : (dsaPublic smallDsa).SpelledBy [[0, 23], [11], [2], [2]] := by
    change [[0, 23], [11], [2], [2]].map Bytes.toNat = [23, 11, 2, 2]
    decide +kernel
  have hstripped : [[0, 23], [11], [2], [2]].map (dsaPublic smallDsa).type.canonicalField =
      [[23], [11], [2], [2]] := by
    decide +kernel
  have hhash := (hdigest _).2 _ hspelled
  rw [hstripped] at hhash
  refine ⟨decode_padded, hspelled, hhash, ?_⟩
  intro k hk
  rw [hencode] at hk
  exact (haccepted _ _ _ (by decide) hdecode).2.2 _ k (by decide) hk (by decide)

end Key

end Keyring
