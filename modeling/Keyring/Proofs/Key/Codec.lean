import Keyring.Key.Codec
import Keyring.Proofs.Bytes
import Keyring.Proofs.Outcome
/-!
This module contains the laws of encoded keys. What decodes is the byte of a type and then fields
that make a key of the type, with nothing behind them. Every key decodes from its encoding, except
for public RSA keys beyond the size that is accepted for a public key on its own.
-/

namespace Keyring

/-- A search by tag finds what has the tag, if every value is found by its own. -/
theorem find?_tag_eq_some_iff {α : Type} {tag : α → UInt8} {values : List α}
    (hself : ∀ a, values.find? (fun b => tag b == tag a) = some a) {t : UInt8} {a : α} :
    values.find? (fun b => tag b == t) = some a ↔ tag a = t := by
  constructor
  . intro h
    simpa using List.find?_some h
  . rintro rfl
    exact hself a

theorem KeyType.ofTag?_eq_some_iff {tag : UInt8} {type : KeyType} :
    ofTag? tag = some type ↔ type.tag = tag := by
  exact find?_tag_eq_some_iff ofTag?_tag

theorem KeyType.decode_eq_ok_iff {tag : UInt8} {type : KeyType} :
    KeyType.decode tag = .ok type ↔ type.tag = tag := by
  rw [← ofTag?_eq_some_iff, KeyType.decode]
  cases ofTag? tag with
  | none => simp
  | some found => simp

theorem KeyType.decode_tag (type : KeyType) : KeyType.decode type.tag = .ok type := by
  rw [decode_eq_ok_iff]

theorem HmacKey.ofBytes_eq_ok_iff {bs : Bytes} {k : HmacKey} :
    HmacKey.ofBytes bs = .ok k ↔ k.bytes = bs := by
  unfold ofBytes
  rw [dite_error_eq_ok_iff]
  constructor
  . rintro ⟨_, rfl⟩
    rfl
  . rintro rfl
    exact ⟨k.size_le, rfl⟩

theorem AesKey.ofBytes_eq_ok_iff {bs : Bytes} {hmac : HmacKey} {k : AesKey} :
    AesKey.ofBytes bs hmac = .ok k ↔ k.bytes = bs ∧ k.hmac = hmac := by
  unfold ofBytes
  rw [dite_error_eq_ok_iff]
  constructor
  . rintro ⟨_, rfl⟩
    exact ⟨rfl, rfl⟩
  . rintro ⟨rfl, rfl⟩
    exact ⟨k.size_mem, rfl⟩

theorem RsaPublicKey.ofComponents_eq_ok_iff {n e : Bytes} {k : RsaPublicKey} :
    RsaPublicKey.ofComponents n e = .ok k ↔
      k.modulus = Bytes.toNat n ∧ k.exponent = Bytes.toNat e ∧ k.modulus.log2 < maxBits := by
  unfold ofComponents
  dsimp only
  constructor
  . intro h
    split at h
    . split at h
      . next hbits =>
        rw [Except.ok.injEq] at h
        subst h
        exact ⟨rfl, rfl, hbits⟩
      . simp at h
    . simp at h
  . rintro ⟨hn, he, hbits⟩
    rw [← hn, ← he, dif_pos k.valid, if_pos hbits]

theorem RsaPublicKey.ofComponents_eq_error_of_le {k : RsaPublicKey}
    (h : maxBits ≤ k.modulus.log2) :
    RsaPublicKey.ofComponents (Bytes.ofNat k.modulus) (Bytes.ofNat k.exponent) =
      .error .badKey := by
  unfold ofComponents
  simp only [Bytes.toNat_ofNat]
  rw [dif_pos k.valid, if_neg (Nat.not_lt.mpr h)]

theorem RsaPrivateKey.ofComponents_eq_ok_iff {n e d p q : Bytes} {k : RsaPrivateKey} :
    RsaPrivateKey.ofComponents n e d p q = .ok k ↔
      k.publicKey.modulus = Bytes.toNat n ∧ k.publicKey.exponent = Bytes.toNat e ∧
        k.exponent = Bytes.toNat d ∧ k.p = Bytes.toNat p ∧ k.q = Bytes.toNat q := by
  unfold ofComponents ofNumbers
  constructor
  . intro h
    split at h
    . rw [dite_error_eq_ok_iff] at h
      rcases h with ⟨_, rfl⟩
      exact ⟨rfl, rfl, rfl, rfl, rfl⟩
    . simp at h
  . rintro ⟨hn, he, hd, hp, hq⟩
    rw [← hn, ← he, ← hd, ← hp, ← hq, dif_pos k.publicKey.valid, dif_pos k.valid]

theorem DsaPublicKey.ofComponents_eq_ok_iff {p q g y : Bytes} {k : DsaPublicKey} :
    DsaPublicKey.ofComponents p q g y = .ok k ↔
      k.p = Bytes.toNat p ∧ k.q = Bytes.toNat q ∧ k.g = Bytes.toNat g ∧ k.y = Bytes.toNat y := by
  unfold ofComponents ofNumbers
  rw [dite_error_eq_ok_iff]
  constructor
  . rintro ⟨_, rfl⟩
    exact ⟨rfl, rfl, rfl, rfl⟩
  . rintro ⟨hp, hq, hg, hy⟩
    rw [← hp, ← hq, ← hg, ← hy]
    exact ⟨k.valid, rfl⟩

theorem DsaPrivateKey.ofComponents_eq_ok_iff {p q g y x : Bytes} {k : DsaPrivateKey} :
    DsaPrivateKey.ofComponents p q g y x = .ok k ↔
      DsaPublicKey.ofComponents p q g y = .ok k.publicKey ∧ k.x = Bytes.toNat x := by
  unfold ofComponents ofPublic
  simp only [bind_eq_ok_iff, dite_error_eq_ok_iff]
  constructor
  . rintro ⟨_, hpublic, _, rfl⟩
    exact ⟨hpublic, rfl⟩
  . rintro ⟨hpublic, hx⟩
    refine ⟨k.publicKey, hpublic, ?_⟩
    rw [← hx]
    exact ⟨k.valid, rfl⟩

/-- A field as encoding writes it. -/
def KeyType.canonicalField (type : KeyType) (field : Bytes) : Bytes :=
  match type with
  | .aes | .hmac => field
  | .rsaPrivate | .rsaPublic | .dsaPrivate | .dsaPublic => Bytes.stripZeros field

namespace Key

/-- Whether a key is accepted on its own. Only large public RSA keys are not. -/
def Loadable : Key → Prop
  | .rsaPublic k => k.modulus.log2 < RsaPublicKey.maxBits
  | .aes _ | .hmac _ | .rsaPrivate _ | .dsaPrivate _ | .dsaPublic _ => True

/-- Fields short enough for the length in front of them. -/
def ShortFields (k : Key) : Prop :=
  ∀ field ∈ k.fields, field.length < 256 ^ 4

/-- What a key set is meant to hold: symmetric keys of any reasonable size, and asymmetric keys that
were decoded or are the public half of a key that was. -/
def Storable (k : Key) : Prop :=
  match k with
  | .aes _ | .hmac _ => k.ShortFields
  | .rsaPrivate _ | .rsaPublic _ | .dsaPrivate _ | .dsaPublic _ =>
    ∃ bs whole, decode bs = .ok whole ∧ (whole = k ∨ whole.publicHalf = .ok k)

theorem eq_of_ofFields_eq_ok {type : KeyType} {fields : List Bytes} {k : Key}
    (h : ofFields type fields = .ok k) :
    k.type = type ∧ k.fields = fields.map type.canonicalField ∧ k.Loadable := by
  unfold ofFields at h
  split at h
  . simp only [bind_eq_ok_iff, pure_eq_ok, Except.ok.injEq, HmacKey.ofBytes_eq_ok_iff,
      AesKey.ofBytes_eq_ok_iff] at h
    rcases h with ⟨_, rfl, _, ⟨rfl, rfl⟩, rfl⟩
    exact ⟨rfl, rfl, trivial⟩
  . simp only [bind_eq_ok_iff, pure_eq_ok, Except.ok.injEq, HmacKey.ofBytes_eq_ok_iff] at h
    rcases h with ⟨_, rfl, rfl⟩
    exact ⟨rfl, rfl, trivial⟩
  . simp only [bind_eq_ok_iff, pure_eq_ok, Except.ok.injEq,
      RsaPrivateKey.ofComponents_eq_ok_iff] at h
    rcases h with ⟨key, ⟨hn, he, hd, hp, hq⟩, rfl⟩
    refine ⟨rfl, ?_, trivial⟩
    simp [Key.fields, KeyType.canonicalField, Bytes.ofNat_toNat, hn, he, hd, hp, hq]
  . simp only [bind_eq_ok_iff, pure_eq_ok, Except.ok.injEq,
      RsaPublicKey.ofComponents_eq_ok_iff] at h
    rcases h with ⟨key, ⟨hn, he, hbits⟩, rfl⟩
    refine ⟨rfl, ?_, hbits⟩
    simp [Key.fields, KeyType.canonicalField, Bytes.ofNat_toNat, hn, he]
  . simp only [bind_eq_ok_iff, pure_eq_ok, Except.ok.injEq, DsaPrivateKey.ofComponents_eq_ok_iff,
      DsaPublicKey.ofComponents_eq_ok_iff] at h
    rcases h with ⟨key, ⟨⟨hp, hq, hg, hy⟩, hx⟩, rfl⟩
    refine ⟨rfl, ?_, trivial⟩
    simp [Key.fields, KeyType.canonicalField, Bytes.ofNat_toNat, hp, hq, hg, hy, hx]
  . simp only [bind_eq_ok_iff, pure_eq_ok, Except.ok.injEq,
      DsaPublicKey.ofComponents_eq_ok_iff] at h
    rcases h with ⟨key, ⟨hp, hq, hg, hy⟩, rfl⟩
    refine ⟨rfl, ?_, trivial⟩
    simp [Key.fields, KeyType.canonicalField, Bytes.ofNat_toNat, hp, hq, hg, hy]
  . simp at h

theorem ofFields_fields {k : Key} (h : k.Loadable) : ofFields k.type k.fields = .ok k := by
  cases k with
  | aes k =>
    have hmac : HmacKey.ofBytes k.hmac.bytes = .ok k.hmac := HmacKey.ofBytes_eq_ok_iff.mpr rfl
    have haes : AesKey.ofBytes k.bytes k.hmac = .ok k := AesKey.ofBytes_eq_ok_iff.mpr ⟨rfl, rfl⟩
    simp [type, fields, ofFields, hmac, haes]
  | hmac k =>
    have hmac : HmacKey.ofBytes k.bytes = .ok k := HmacKey.ofBytes_eq_ok_iff.mpr rfl
    simp [type, fields, ofFields, hmac]
  | rsaPrivate k =>
    simp [type, fields, ofFields, bind_eq_ok_iff, RsaPrivateKey.ofComponents_eq_ok_iff]
  | rsaPublic k =>
    have hbits : k.modulus.log2 < RsaPublicKey.maxBits := h
    simp [type, fields, ofFields, bind_eq_ok_iff, RsaPublicKey.ofComponents_eq_ok_iff, hbits]
  | dsaPrivate k =>
    simp [type, fields, ofFields, bind_eq_ok_iff, DsaPrivateKey.ofComponents_eq_ok_iff,
      DsaPublicKey.ofComponents_eq_ok_iff]
  | dsaPublic k =>
    simp [type, fields, ofFields, bind_eq_ok_iff, DsaPublicKey.ofComponents_eq_ok_iff]

theorem ofFields_fields_of_not_loadable {k : Key} (h : ¬k.Loadable) :
    ofFields k.type k.fields = .error .badKey := by
  cases k with
  | rsaPublic k =>
    simp [type, fields, ofFields, RsaPublicKey.ofComponents_eq_error_of_le (Nat.not_lt.mp h)]
  | aes _ | hmac _ | rsaPrivate _ | dsaPrivate _ | dsaPublic _ => exact absurd trivial h

theorem readField_eq_ok_iff {step : String} {data field rest : Bytes} :
    readField step data = .ok (field, rest) ↔
      field.length < 256 ^ 4 ∧ data = Bytes.field field ++ rest := by
  unfold readField Bytes.field
  dsimp only
  constructor
  . intro h
    rw [ite_error_eq_ok_iff, ite_error_eq_ok_iff, Except.ok.injEq, Prod.mk.injEq] at h
    rcases h with ⟨hfour, hsize, rfl, rfl⟩
    have hlength : (data.take 4).length = 4 := by
      rw [List.length_take]
      omega
    have hfield : ((data.drop 4).take (Bytes.toNat (data.take 4))).length =
        Bytes.toNat (data.take 4) := by
      rw [List.length_take]
      omega
    have hlt := Bytes.toNat_lt (data.take 4)
    have hsame := Bytes.bigEndian_toNat (data.take 4)
    rw [hlength] at hlt hsame
    rw [hfield]
    refine ⟨hlt, ?_⟩
    rw [hsame, List.append_assoc, List.take_append_drop, List.take_append_drop]
  . rintro ⟨hlt, rfl⟩
    have hfour := Bytes.length_bigEndian 4 field.length
    rw [List.append_assoc, if_neg, List.take_left' hfour, List.drop_left' hfour,
      Bytes.toNat_bigEndian_of_lt hlt, if_neg, List.take_left, List.drop_left]
    . rw [List.length_append]
      omega
    . rw [List.length_append, hfour]
      omega

theorem readFields_eq_ok_iff {steps : List String} {data rest : Bytes} {fields : List Bytes} :
    readFields steps data = .ok (fields, rest) ↔
      fields.length = steps.length ∧ (∀ field ∈ fields, field.length < 256 ^ 4) ∧
        data = fields.flatMap Bytes.field ++ rest := by
  induction steps generalizing data fields with
  | nil =>
    rw [readFields, Except.ok.injEq, Prod.mk.injEq, List.length_nil, List.length_eq_zero_iff,
      eq_comm]
    apply and_congr_right
    rintro rfl
    simp
  | cons step steps ih =>
    unfold readFields
    simp only [bind_eq_ok_iff, Prod.exists, readField_eq_ok_iff, pure_eq_ok, Except.ok.injEq,
      Prod.mk.injEq]
    constructor
    . rintro ⟨first, _, ⟨hfirst, rfl⟩, others, _, hothers, rfl, rfl⟩
      rcases ih.mp hothers with ⟨hlength, hshort, rfl⟩
      rw [List.length_cons, List.length_cons, hlength, List.flatMap_cons, List.append_assoc]
      exact ⟨rfl, List.forall_mem_cons.mpr ⟨hfirst, hshort⟩, rfl⟩
    . rintro ⟨hlength, hshort, rfl⟩
      cases fields with
      | nil => simp at hlength
      | cons first others =>
        rw [List.forall_mem_cons] at hshort
        rw [List.flatMap_cons, List.append_assoc]
        exact ⟨first, _, ⟨hshort.1, rfl⟩, others, rest,
          ih.mpr ⟨Nat.succ.inj hlength, hshort.2, rfl⟩, rfl, rfl⟩

theorem length_fieldSteps (k : Key) : k.type.fieldSteps.length = k.fields.length := by
  cases k <;> rfl

theorem decode_fields_append {type : KeyType} {fields : List Bytes}
    (hlength : fields.length = type.fieldSteps.length)
    (hshort : ∀ field ∈ fields, field.length < 256 ^ 4) (rest : Bytes) :
    decode (type.tag :: (fields.flatMap Bytes.field ++ rest)) = (ofFields type fields >>= fun k =>
      if rest.isEmpty then .ok k else .error (.badLength "end of key fields" 0 rest.length)) := by
  have hread : readFields type.fieldSteps (fields.flatMap Bytes.field ++ rest) =
      .ok (fields, rest) := readFields_eq_ok_iff.mpr ⟨hlength, hshort, rfl⟩
  unfold decode
  dsimp only
  rw [KeyType.decode_tag, ok_bind, hread, ok_bind]
  rfl

theorem decode_fields {type : KeyType} {fields : List Bytes}
    (hlength : fields.length = type.fieldSteps.length)
    (hshort : ∀ field ∈ fields, field.length < 256 ^ 4) :
    decode (type.tag :: fields.flatMap Bytes.field) = ofFields type fields := by
  have hdecode := decode_fields_append hlength hshort []
  rw [List.append_nil] at hdecode
  rw [hdecode]
  cases ofFields type fields with
  | error e => rfl
  | ok key => rfl

theorem decode_encode {k : Key} (h : k.ShortFields) :
    decode k.encode = ofFields k.type k.fields := by
  exact decode_fields k.length_fieldSteps.symm h

theorem decode_encode_of_loadable {k : Key} (h : k.ShortFields) (hload : k.Loadable) :
    decode k.encode = .ok k := by
  rw [decode_encode h, ofFields_fields hload]

theorem decode_encode_of_not_loadable {k : Key} (h : k.ShortFields) (hload : ¬k.Loadable) :
    decode k.encode = .error .badKey := by
  rw [decode_encode h, ofFields_fields_of_not_loadable hload]

theorem decode_eq_ok_iff {bs : Bytes} {k : Key} :
    decode bs = .ok k ↔ ∃ fields, fields.length = k.type.fieldSteps.length ∧
      (∀ field ∈ fields, field.length < 256 ^ 4) ∧
      bs = k.type.tag :: fields.flatMap Bytes.field ∧ ofFields k.type fields = .ok k := by
  constructor
  . intro h
    cases bs with
    | nil => simp [decode] at h
    | cons tag data =>
      unfold decode at h
      simp only [bind_eq_ok_iff, Prod.exists, KeyType.decode_eq_ok_iff, readFields_eq_ok_iff] at h
      rcases h with ⟨type, rfl, fields, rest, ⟨hlength, hshort, rfl⟩, key, hkey, h⟩
      split at h
      . next hrest =>
        rw [pure_eq_ok, Except.ok.injEq] at h
        subst h
        rw [List.isEmpty_iff.mp hrest, List.append_nil, (eq_of_ofFields_eq_ok hkey).1]
        exact ⟨fields, hlength, hshort, rfl, hkey⟩
      . simp at h
  . rintro ⟨fields, hlength, hshort, rfl, hkey⟩
    rw [decode_fields hlength hshort, hkey]

theorem decode_append {bs : Bytes} {k : Key} (h : decode bs = .ok k) (rest : Bytes) :
    decode (bs ++ rest) =
      if rest.isEmpty then .ok k else .error (.badLength "end of key fields" 0 rest.length) := by
  rcases decode_eq_ok_iff.mp h with ⟨fields, hlength, hshort, rfl, hkey⟩
  rw [List.cons_append, decode_fields_append hlength hshort, hkey, ok_bind]

theorem length_canonicalField_le (type : KeyType) (field : Bytes) :
    (type.canonicalField field).length ≤ field.length := by
  cases type with
  | aes | hmac => exact Nat.le_refl _
  | rsaPrivate | rsaPublic | dsaPrivate | dsaPublic =>
    exact (List.dropWhile_sublist _).length_le

theorem shortFields_of_decode_eq_ok {bs : Bytes} {k : Key} (h : decode bs = .ok k) :
    k.ShortFields := by
  rcases decode_eq_ok_iff.mp h with ⟨fields, _, hshort, _, hkey⟩
  intro field hfield
  -- A number loses its leading zero bytes, which makes no field longer.
  rw [(eq_of_ofFields_eq_ok hkey).2.1] at hfield
  rcases List.mem_map.mp hfield with ⟨field', hfield', rfl⟩
  exact Nat.lt_of_le_of_lt (length_canonicalField_le k.type field') (hshort field' hfield')

theorem exists_fields_eq_append_of_publicHalf_eq_ok {k k' : Key} (h : k.publicHalf = .ok k') :
    ∃ secret, k.fields = k'.fields ++ secret := by
  cases k with
  | aes _ | hmac _ => simp [publicHalf] at h
  | rsaPrivate _ | rsaPublic _ | dsaPrivate _ | dsaPublic _ =>
    rw [publicHalf, Except.ok.injEq] at h
    subst h
    exact ⟨_, rfl⟩

theorem Storable.shortFields {k : Key} (h : k.Storable) : k.ShortFields := by
  have hdecoded : (∃ bs whole, decode bs = .ok whole ∧ (whole = k ∨ whole.publicHalf = .ok k)) →
      k.ShortFields := by
    rintro ⟨bs, whole, hwhole, hk⟩
    have hshort := shortFields_of_decode_eq_ok hwhole
    cases hk with
    | inl heq => exact heq ▸ hshort
    | inr hpublic =>
      rcases exists_fields_eq_append_of_publicHalf_eq_ok hpublic with ⟨secret, heq⟩
      -- The fields of a public half come first among those of the key.
      intro field hfield
      apply hshort field
      rw [heq]
      exact List.mem_append_left secret hfield
  cases k with
  | aes _ | hmac _ => exact h
  | rsaPrivate _ | rsaPublic _ | dsaPrivate _ | dsaPublic _ => exact hdecoded h

end Key

end Keyring
