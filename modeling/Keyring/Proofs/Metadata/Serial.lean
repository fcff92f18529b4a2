import Keyring.Proofs.Metadata.Canonical
import Keyring.Proofs.Serial.Basic
import Keyring.Serial.Metadata
/-!
This module contains the serialized forms of metadata. Both are read back up to the check that the
encoding has to pass too, so the three forms of some fields are accepted or refused alike.
-/

namespace Keyring

open Serial

namespace KeyVersion

theorem isExact_toValue (v : KeyVersion) : (toValue v).IsExact := by
  have hversion : v.version.toNat < UInt64.size :=
    Nat.lt_trans v.version.toNat_lt (by decide)
  apply Json.Value.IsExact.object
  simp only [List.forall_mem_cons, List.not_mem_nil, false_implies, implies_true, and_true]
  exact ⟨.number hversion, .text _, .boolean _⟩

theorem ofDraft_ofValue (v : KeyVersion) : ofDraft (Json.Draft.ofValue (toValue v)) = .ok v := by
  simp [ofDraft, toValue, Json.Draft.ofValue, Json.Draft.ofMembers, Draft.readMembers, readMember,
    Draft.readOnce, readUInt32_number, readChoice_text, Draft.readBool, Draft.close, Draft.required]

theorem readCompact_append (v : KeyVersion) (rest : Bytes) :
    readCompact (toCompact v ++ rest) = .ok (v, rest) := by
  simp only [readCompact, toCompact, List.append_assoc, Compact.readUInt32_append,
    Compact.readChoice_append, Compact.readBool_append, ok_bind, pure_eq_ok]

instance : LawfulSerial KeyVersion :=
  ⟨isExact_toValue, ofDraft_ofValue, readCompact_append⟩

end KeyVersion

namespace Metadata

theorem isExact_toValue (m : Metadata) : (toValue m).IsExact := by
  have hlast : m.lastVersion.toNat < UInt64.size :=
    Nat.lt_trans m.lastVersion.toNat_lt (by decide)
  have hversions : ∀ v ∈ m.versions.map KeyVersion.toValue, v.IsExact :=
    List.forall_mem_map.mpr fun v _ => v.isExact_toValue
  apply Json.Value.IsExact.object
  simp only [List.forall_mem_cons, List.not_mem_nil, false_implies, implies_true, and_true]
  exact ⟨.text _, .text _, .text _, .number hlast, .array hversions⟩

theorem readVersionList_ofItems (versions : List KeyVersion) :
    readVersionList (.array (Json.Draft.ofItems (versions.map KeyVersion.toValue)) true) =
      .ok versions := by
  have hitems : (Json.Draft.ofItems (versions.map KeyVersion.toValue)).mapM KeyVersion.ofDraft =
      .ok versions := mapM_ofItems versions
  rw [readVersionList, hitems]
  rfl

theorem ofDraft_ofValue (m : Metadata) : ofDraft (Json.Draft.ofValue (toValue m)) = ofParts m := by
  simp [ofDraft, toValue, Json.Draft.ofValue, Json.Draft.ofMembers, Draft.readMembers, readMember,
    Draft.readOnce, readUInt32_number, readChoice_text, Draft.readText, readVersionList_ofItems,
    Draft.close, Draft.required]

theorem readCompact_append {m : Metadata} (hname : m.name.utf8ByteSize < 256 ^ 8)
    (hversions : m.versions.length < 256 ^ 8) (rest : Bytes) :
    readCompact (toCompact m ++ rest) = (ofParts m).map fun m => (m, rest) := by
  have hread : ∀ (v : KeyVersion) (rest : Bytes),
      KeyVersion.readCompact (v.toCompact ++ rest) = .ok (v, rest) :=
    LawfulSerial.readCompact_append
  simp only [readCompact, toCompact, List.append_assoc, Compact.readText_append hname,
    Compact.readChoice_append, Compact.readUInt32_append,
    Compact.readList_append hread hversions, ok_bind]
  cases ofParts m with
  | error refusal => rfl
  | ok m => rfl

theorem ofJson_toJson (m : Metadata) : Serial.ofJson (Serial.toJson m) = ofParts m := by
  have hread := ofJson_toJson_eq (a := m) (isExact_toValue m)
  rw [hread]
  exact ofDraft_ofValue m

theorem ofCompact_toCompact {m : Metadata} (hname : m.name.utf8ByteSize < 256 ^ 8)
    (hversions : m.versions.length < 256 ^ 8) :
    Serial.ofCompact (Serial.toCompact m) = ofParts m := by
  have hread := readCompact_append hname hversions []
  rw [List.append_nil] at hread
  exact ofCompact_eq_of_readCompact hread

theorem ofParts_eq_ok_iff {m m' : Metadata} : ofParts m = .ok m' ↔ m.Valid ∧ m' = m := by
  rw [← check_eq_ok_iff, ofParts]
  cases m.check with
  | error e => simp
  | ok m => simp

theorem Valid.arises {m : Metadata} (h : m.Valid) : m.Arises := by
  exact .decode (decode_encode h)

theorem ensures_ofParts (m : Metadata) : Ensures Arises (ofParts m) := by
  intro m' h
  rcases ofParts_eq_ok_iff.mp h with ⟨hvalid, rfl⟩
  exact hvalid.arises

-- Both ways to read metadata end with the check, whatever is read before it.
theorem ensures_ofDraft (d : Json.Draft) : Ensures Arises (ofDraft d) := by
  unfold ofDraft
  split
  case h_3 => apply ensures_error
  all_goals
    repeat
      with_reducible apply Ensures.bind_right
      intro _
    apply ensures_ofParts

theorem ensures_readCompact (bs : Bytes) :
    Ensures (fun read => read.1.Arises) (readCompact bs) := by
  unfold readCompact
  iterate 5
    apply Ensures.bind_right
    intro _
  refine (ensures_ofParts _).bind ?_
  intro m hm
  exact ensures_pure.mpr hm

/-- Each of the three forms of some fields leads to the check, if their lengths can be written. -/
theorem forms_eq {m : Metadata} (hname : m.name.utf8ByteSize ≤ 65535)
    (hversions : m.versions.length < 2 ^ 32) :
    decode m.encode = m.check ∧ Serial.ofJson (Serial.toJson m) = ofParts m ∧
      Serial.ofCompact (Serial.toCompact m) = ofParts m := by
  refine ⟨decode_encode_eq_check ?_ hversions, ofJson_toJson m, ofCompact_toCompact ?_ ?_⟩
  all_goals omega

/-- What arises is read back from both forms, and nothing else is ever read from them. The JSON form
is JSON whatever the name is. The three forms of fields of any origin are accepted alike, or refused
alike and for the same cause. -/
theorem serial_forms_agree :
    (∀ m : Metadata, m.Arises → Serial.ofJson (Serial.toJson m) = .ok m ∧
      Serial.ofCompact (Serial.toCompact m) = .ok m) ∧
    (∀ m : Metadata, Json.Value.ofText? (Serial.toJson m) = some m.toValue) ∧
    (∀ (text : String) (m : Metadata), Serial.ofJson text = .ok m → m.Arises) ∧
    (∀ (bs : Bytes) (m : Metadata), Serial.ofCompact bs = .ok m → m.Arises) ∧
    (∀ m : Metadata, m.name.utf8ByteSize ≤ 65535 → m.versions.length < 2 ^ 32 →
      (decode m.encode = .ok m ∧ Serial.ofJson (Serial.toJson m) = .ok m ∧
        Serial.ofCompact (Serial.toCompact m) = .ok m) ∨
      ∃ (error : Error) (fault : Fault), decode m.encode = .error error ∧
        Serial.ofJson (α := Metadata) (Serial.toJson m) = .error (.fault fault) ∧
        Serial.ofCompact (α := Metadata) (Serial.toCompact m) = .error (.fault fault) ∧
        fault.message = error.message) := by
  refine ⟨?_, ?_, ?_, ?_, ?_⟩
  . intro m hm
    have hparts : ofParts m = .ok m := ofParts_eq_ok_iff.mpr ⟨hm.valid, rfl⟩
    rcases forms_eq hm.valid.name_le hm.valid.length_versions_lt with ⟨_, hjson, hcompact⟩
    rw [hjson, hcompact]
    exact ⟨hparts, hparts⟩
  . intro m
    exact Json.Value.ofText?_toText m.isExact_toValue
  . exact ensures_ofJson ensures_ofDraft
  . exact ensures_ofCompact ensures_readCompact
  . intro m hname hversions
    rcases forms_eq hname hversions with ⟨hdecode, hjson, hcompact⟩
    rw [hdecode, hjson, hcompact, ofParts]
    cases hcheck : m.check with
    | ok m' =>
      rcases check_eq_ok_iff.mp hcheck with ⟨_, rfl⟩
      exact .inl ⟨rfl, rfl, rfl⟩
    | error error => exact .inr ⟨error, .invalid error, rfl, rfl, rfl, rfl⟩

/-- Metadata whose name has all kinds of characters. -/
def escaped : Metadata :=
  { gapped with name := "\"cl\\és\"\n\x01" }

/-- The same versions in descending order. -/
def descending : Metadata :=
  { escaped with versions := escaped.versions.reverse }

theorem serial_forms_agree_escaped :
    escaped.Arises ∧ Serial.ofJson (Serial.toJson escaped) = .ok escaped ∧
      Serial.ofCompact (Serial.toCompact escaped) = .ok escaped ∧
      ∃ fault : Fault,
        Serial.ofJson (α := Metadata) (Serial.toJson descending) = .error (.fault fault) ∧
        Serial.ofCompact (α := Metadata) (Serial.toCompact descending) = .error (.fault fault) ∧
        fault.message =
          (Error.badFormat "version numbers must be positive and ascending").message := by
  have hescaped : decode escaped.encode = .ok escaped := by decide +kernel
  have hdescending : decode descending.encode =
      .error (.badFormat "version numbers must be positive and ascending") := by
    decide +kernel
  rcases serial_forms_agree with ⟨hround, _, hjson, _, hforms⟩
  have hread := hround escaped (.decode hescaped)
  refine ⟨hjson _ _ hread.1, hread.1, hread.2, ?_⟩
  rcases hforms descending (by decide) (by decide) with
    ⟨hok, _⟩ | ⟨error, fault, herror, hrefused⟩
  . simp [hdescending] at hok
  . rw [hdescending, Except.error.injEq] at herror
    rw [herror]
    exact ⟨fault, hrefused⟩

end Metadata

end Keyring
