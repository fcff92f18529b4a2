import Keyring.Proofs.Metadata.Codec
/-!
This module contains the bijection between the metadata that there are and the byte strings that
decode. No metadata has two encodings, no two metadata share one, and none is the start of another.
-/

namespace Keyring.Metadata

/-- The metadata that there are: new ones, decoded ones, and what changes make of them. -/
inductive Arises : Metadata → Prop where
  | new {name : String} {purpose : Purpose} {keyType : KeyType} {m : Metadata} :
      Metadata.new name purpose keyType = .ok m → Arises m
  | decode {bs : Bytes} {m : Metadata} : Metadata.decode bs = .ok m → Arises m
  | pushVersion {v : KeyVersion} {m m' : Metadata} :
      Arises m → m.pushVersion v = .ok m' → Arises m'
  | removeVersion {m : Metadata} (version : UInt32) : Arises m → Arises (m.removeVersion version)
  | setStatus {m : Metadata} (version : UInt32) (status : Status) :
      Arises m → Arises (m.setStatus version status)
  | withPurpose {purpose : Purpose} {keyType : KeyType} {m m' : Metadata} :
      Arises m → m.withPurpose purpose keyType = .ok m' → Arises m'

theorem Arises.valid {m : Metadata} (h : m.Arises) : m.Valid := by
  induction h with
  | new hnew => exact Valid.of_new hnew
  | decode hdecode => exact valid_of_decode_eq_ok hdecode
  | pushVersion _ hpush ih => exact ih.pushVersion hpush
  | removeVersion version _ ih => exact ih.removeVersion version
  | setStatus version status _ ih =>
    rw [setStatus_eq_relabel]
    apply ih.relabel
  | withPurpose _ hpurpose ih => exact ih.withPurpose hpurpose

theorem decode_eq_ok_iff {bs : Bytes} {m : Metadata} :
    Metadata.decode bs = .ok m ↔ m.Arises ∧ m.encode = bs := by
  constructor
  . intro h
    exact ⟨.decode h, (eq_encode_of_decode_eq_ok h).2.symm⟩
  . rintro ⟨harises, rfl⟩
    exact decode_encode harises.valid

theorem encoding_bijective :
    (∀ m : Metadata, m.Arises → decode m.encode = .ok m ∧
      (Text.Utf8.encode m.name).length < 2 ^ 16 ∧ m.versions.length < 2 ^ 32) ∧
    (∀ bs m, decode bs = .ok m → m.Arises ∧ m.encode = bs) ∧
    (∀ m m' : Metadata, m.Arises → m'.Arises → m.encode = m'.encode → m = m') ∧
    (∀ bs bs' m m', decode bs = .ok m → decode bs' = .ok m' → bs <+: bs' → bs = bs') := by
  refine ⟨?_, ?_, ?_, ?_⟩
  . intro m hm
    have hdecode : decode m.encode = .ok m := decode_eq_ok_iff.mpr ⟨hm, rfl⟩
    exact ⟨hdecode, hm.valid.length_name_lt, hm.valid.length_versions_lt⟩
  . intro bs m h
    exact decode_eq_ok_iff.mp h
  . intro m m' hm hm' heq
    have hdecode : decode m.encode = .ok m := decode_eq_ok_iff.mpr ⟨hm, rfl⟩
    rw [decode_eq_ok_iff.mpr ⟨hm', heq.symm⟩] at hdecode
    exact (Except.ok.inj hdecode).symm
  . intro bs bs' m m' h h'
    exact eq_of_prefix decode_append h h'

/-- Metadata whose last version has been removed. -/
def gapped : Metadata :=
  ⟨"clés", .signAndVerify, .hmac, 9, [⟨2, .scheduledForRevocation, false⟩, ⟨5, .primary, true⟩]⟩

theorem arises_gapped : gapped.Arises := by
  have hnew : Arises ⟨"clés", .signAndVerify, .hmac, 0, []⟩ :=
    @Arises.new "clés" .signAndVerify .hmac _ (by decide +kernel)
  have htwo := hnew.pushVersion (v := ⟨2, .scheduledForRevocation, false⟩) rfl
  have hfive := htwo.pushVersion (v := ⟨5, .primary, true⟩) rfl
  have hnine := hfive.pushVersion (v := ⟨9, .scheduledForRevocation, false⟩) rfl
  exact hnine.removeVersion 9

theorem encoding_bijective_gapped :
    gapped.Arises ∧ decode gapped.encode = .ok gapped ∧
      (∀ m : Metadata, m.Arises → m.encode = gapped.encode → m = gapped) ∧
      ∀ b m, decode (gapped.encode ++ [b]) ≠ .ok m := by
  rcases encoding_bijective with ⟨hround, _, hinj, hbegins⟩
  have hdecode := (hround gapped arises_gapped).1
  refine ⟨arises_gapped, hdecode, ?_, ?_⟩
  . intro m hm
    exact hinj m gapped hm arises_gapped
  . intro b m h
    have heq := hbegins _ _ _ _ hdecode h (List.prefix_append _ _)
    simp at heq

end Keyring.Metadata
