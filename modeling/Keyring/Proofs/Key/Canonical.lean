import Keyring.Proofs.Key.Codec
/-!
This module contains what byte strings decode to keys: a type and its fields, of which numbers may
have leading zero bytes. Encoding a key again strips these bytes and changes nothing else.
-/

namespace Keyring

namespace KeyType

theorem tag_inj {type type' : KeyType} (h : type.tag = type'.tag) : type = type' := by
  have hself := ofTag?_tag type
  rw [h, ofTag?_tag, Option.some.injEq] at hself
  exact hself.symm

/-- How many fields the keys of a type have. -/
def fieldCount : KeyType → Nat
  | .hmac => 1
  | .aes | .rsaPublic => 2
  | .dsaPublic => 4
  | .rsaPrivate | .dsaPrivate => 5

theorem length_fieldSteps (type : KeyType) : type.fieldSteps.length = type.fieldCount := by
  cases type <;> rfl

theorem canonicalField_eq_self {type : KeyType} (h : type = .aes ∨ type = .hmac) (field : Bytes) :
    type.canonicalField field = field := by
  cases h with
  | inl haes => rw [haes, canonicalField]
  | inr hhmac => rw [hhmac, canonicalField]

theorem canonicalField_eq_stripZeros {type : KeyType} (haes : type ≠ .aes) (hhmac : type ≠ .hmac)
    (field : Bytes) : type.canonicalField field = Bytes.stripZeros field := by
  cases type with
  | aes => exact absurd rfl haes
  | hmac => exact absurd rfl hhmac
  | rsaPrivate | rsaPublic | dsaPrivate | dsaPublic => rfl

end KeyType

namespace Key

/-- The keys that constructors and decoding make. -/
inductive Built : Key → Prop where
  | hmac {bs : Bytes} {k : HmacKey} : HmacKey.ofBytes bs = .ok k → Built (.hmac k)
  | aes {bs : Bytes} {hmac : HmacKey} {k : AesKey} : AesKey.ofBytes bs hmac = .ok k → Built (.aes k)
  | rsaPrivate {n e d p q : Bytes} {k : RsaPrivateKey} :
      RsaPrivateKey.ofComponents n e d p q = .ok k → Built (.rsaPrivate k)
  | rsaPublic {n e : Bytes} {k : RsaPublicKey} :
      RsaPublicKey.ofComponents n e = .ok k → Built (.rsaPublic k)
  | dsaPrivate {p q g y x : Bytes} {k : DsaPrivateKey} :
      DsaPrivateKey.ofComponents p q g y x = .ok k → Built (.dsaPrivate k)
  | dsaPublic {p q g y : Bytes} {k : DsaPublicKey} :
      DsaPublicKey.ofComponents p q g y = .ok k → Built (.dsaPublic k)
  | decode {bs : Bytes} {k : Key} : Key.decode bs = .ok k → Built k

theorem loadable_of_decode_eq_ok {bs : Bytes} {k : Key} (h : Key.decode bs = .ok k) :
    k.Loadable := by
  rcases decode_eq_ok_iff.mp h with ⟨_, _, _, _, hkey⟩
  exact (eq_of_ofFields_eq_ok hkey).2.2

theorem Built.loadable {k : Key} (h : k.Built) : k.Loadable := by
  cases h with
  | rsaPublic hk => exact (RsaPublicKey.ofComponents_eq_ok_iff.mp hk).2.2
  | decode hdecode => exact loadable_of_decode_eq_ok hdecode
  | hmac _ | aes _ | rsaPrivate _ | dsaPrivate _ | dsaPublic _ => trivial

theorem field_append_inj {field field' rest rest' : Bytes} (hshort : field.length < 256 ^ 4)
    (hshort' : field'.length < 256 ^ 4)
    (h : Bytes.field field ++ rest = Bytes.field field' ++ rest') :
    field = field' ∧ rest = rest' := by
  have hread : readField "" (Bytes.field field ++ rest) = .ok (field, rest) :=
    readField_eq_ok_iff.mpr ⟨hshort, rfl⟩
  have hread' : readField "" (Bytes.field field' ++ rest') = .ok (field', rest') :=
    readField_eq_ok_iff.mpr ⟨hshort', rfl⟩
  rw [h, hread', Except.ok.injEq, Prod.mk.injEq] at hread
  exact ⟨hread.1.symm, hread.2.symm⟩

theorem field_ne_nil (field : Bytes) : Bytes.field field ≠ [] := by
  apply List.ne_nil_of_length_pos
  rw [Bytes.field, List.length_append, Bytes.length_bigEndian]
  omega

/-- No two lists of fields are written alike, whether they are as long as each other or not. -/
theorem flatMap_field_inj {fields fields' : List Bytes}
    (hshort : ∀ field ∈ fields, field.length < 256 ^ 4)
    (hshort' : ∀ field ∈ fields', field.length < 256 ^ 4) :
    fields.flatMap Bytes.field = fields'.flatMap Bytes.field ↔ fields = fields' := by
  constructor
  . intro h
    induction fields generalizing fields' with
    | nil =>
      cases fields' with
      | nil => rfl
      | cons field' fields' =>
        rw [List.flatMap_nil, List.flatMap_cons, eq_comm, List.append_eq_nil_iff] at h
        exact absurd h.1 (field_ne_nil field')
    | cons field fields ih =>
      cases fields' with
      | nil =>
        rw [List.flatMap_nil, List.flatMap_cons, List.append_eq_nil_iff] at h
        exact absurd h.1 (field_ne_nil field)
      | cons field' fields' =>
        rw [List.forall_mem_cons] at hshort hshort'
        rw [List.flatMap_cons, List.flatMap_cons] at h
        rcases field_append_inj hshort.1 hshort'.1 h with ⟨rfl, hrest⟩
        rw [ih hshort.2 hshort'.2 hrest]
  . intro h
    rw [h]

theorem encode_eq_iff {k : Key} {fields : List Bytes}
    (hfields : k.fields = fields.map k.type.canonicalField)
    (hshort : ∀ field ∈ fields, field.length < 256 ^ 4) :
    k.encode = k.type.tag :: fields.flatMap Bytes.field ↔
      ∀ field ∈ fields, k.type.canonicalField field = field := by
  have hshort' : ∀ field ∈ k.fields, field.length < 256 ^ 4 := by
    intro field hfield
    rw [hfields] at hfield
    rcases List.mem_map.mp hfield with ⟨field', hfield', rfl⟩
    exact Nat.lt_of_le_of_lt (length_canonicalField_le k.type field') (hshort field' hfield')
  have hsame := List.map_inj_left (f := k.type.canonicalField) (g := id) (l := fields)
  rw [List.map_id] at hsame
  unfold encode
  rw [List.cons.injEq, flatMap_field_inj hshort' hshort, hfields, hsame]
  simp

theorem encoding_canonical :
    (∀ k : Key, k.Built → k.ShortFields → decode k.encode = .ok k) ∧
    (∀ bs k, decode bs = .ok k → ∃ fields : List Bytes,
      fields.length = k.type.fieldCount ∧ (∀ field ∈ fields, field.length < 2 ^ 32) ∧
      bs = k.type.tag :: fields.flatMap Bytes.field ∧
      k.encode = k.type.tag :: (fields.map k.type.canonicalField).flatMap Bytes.field ∧
      (k.type = .aes ∨ k.type = .hmac → k.encode = bs) ∧
      (k.type ≠ .aes → k.type ≠ .hmac →
        (k.encode = bs ↔ ∀ field ∈ fields, field.head? ≠ some 0)) ∧
      decode k.encode = .ok k) ∧
    (∀ bs bs' k k', decode bs = .ok k → decode bs' = .ok k' → bs <+: bs' → bs = bs') := by
  refine ⟨?_, ?_, ?_⟩
  . intro k hk hshort
    exact decode_encode_of_loadable hshort hk.loadable
  . intro bs k h
    rcases decode_eq_ok_iff.mp h with ⟨fields, hlength, hshort, rfl, hkey⟩
    have hfields := (eq_of_ofFields_eq_ok hkey).2.1
    refine ⟨fields, ?_, hshort, rfl, ?_, ?_, ?_, ?_⟩
    . rw [hlength, KeyType.length_fieldSteps]
    . unfold encode
      rw [hfields]
    . intro hsymmetric
      rw [encode_eq_iff hfields hshort]
      intro field _
      exact KeyType.canonicalField_eq_self hsymmetric field
    . intro haes hhmac
      rw [encode_eq_iff hfields hshort]
      simp only [KeyType.canonicalField_eq_stripZeros haes hhmac, Bytes.stripZeros_eq_self_iff]
    . exact decode_encode_of_loadable (shortFields_of_decode_eq_ok h) (loadable_of_decode_eq_ok h)
  . intro bs bs' k k' h h'
    exact eq_of_prefix decode_append h h'

def smallDsa : DsaPublicKey :=
  ⟨23, 11, 2, 2, by decide +kernel⟩

/-- The encoding of a key, except that a number has a leading zero byte. -/
def padded : Bytes :=
  [6, 0, 0, 0, 2, 0, 23, 0, 0, 0, 1, 11, 0, 0, 0, 1, 2, 0, 0, 0, 1, 2]

theorem decode_padded : decode padded = .ok (.dsaPublic smallDsa) := by
  have hkey : DsaPublicKey.ofComponents [0, 23] [11] [2] [2] = .ok smallDsa :=
    DsaPublicKey.ofComponents_eq_ok_iff.mpr ⟨rfl, rfl, rfl, rfl⟩
  rw [decode_eq_ok_iff]
  refine ⟨[[0, 23], [11], [2], [2]], rfl, by decide, rfl, ?_⟩
  unfold ofFields type
  dsimp only
  rw [hkey]
  rfl

theorem encoding_canonical_padded :
    decode padded = .ok (.dsaPublic smallDsa) ∧ (dsaPublic smallDsa).encode ≠ padded ∧
      decode (dsaPublic smallDsa).encode = .ok (.dsaPublic smallDsa) ∧
      ∀ b k, decode (padded ++ [b]) ≠ .ok k := by
  rcases encoding_canonical with ⟨_, haccepted, hbegins⟩
  rcases haccepted _ _ decode_padded with ⟨_, _, _, _, _, _, _, hagain⟩
  refine ⟨decode_padded, by decide +kernel, hagain, ?_⟩
  intro b k h
  have heq := hbegins _ _ _ _ decode_padded h (List.prefix_append _ _)
  simp at heq

end Key

end Keyring
