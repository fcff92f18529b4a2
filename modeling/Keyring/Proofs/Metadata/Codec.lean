import Keyring.Metadata.Codec
import Keyring.Proofs.Key.Codec
import Keyring.Proofs.Metadata.Valid
/-!
This module contains the laws of encoded metadata. What each reader accepts is what its writer makes
with any bytes behind it, so decoding accepts the encodings of valid metadata and nothing else.
-/

namespace Keyring

theorem Purpose.ofTag?_eq_some_iff {tag : UInt8} {purpose : Purpose} :
    ofTag? tag = some purpose ↔ purpose.tag = tag := by
  exact find?_tag_eq_some_iff ofTag?_tag

theorem Purpose.decode_eq_ok_iff {tag : UInt8} {purpose : Purpose} :
    Purpose.decode tag = .ok purpose ↔ purpose.tag = tag := by
  rw [← ofTag?_eq_some_iff, Purpose.decode]
  cases ofTag? tag with
  | none => simp
  | some found => simp

theorem Purpose.decode_tag (purpose : Purpose) : Purpose.decode purpose.tag = .ok purpose := by
  rw [decode_eq_ok_iff]

theorem Status.ofTag?_eq_some_iff {tag : UInt8} {status : Status} :
    ofTag? tag = some status ↔ status.tag = tag := by
  exact find?_tag_eq_some_iff ofTag?_tag

theorem Status.decode_eq_ok_iff {tag : UInt8} {status : Status} :
    Status.decode tag = .ok status ↔ status.tag = tag := by
  rw [← ofTag?_eq_some_iff, Status.decode]
  cases ofTag? tag with
  | none => simp
  | some found => simp

namespace Metadata

theorem readByte_eq_ok_iff {step : String} {data rest : Bytes} {b : UInt8} :
    readByte step data = .ok (b, rest) ↔ data = b :: rest := by
  cases data with
  | nil => simp [readByte]
  | cons => simp [readByte]

theorem readByte_cons (step : String) (b : UInt8) (rest : Bytes) :
    readByte step (b :: rest) = .ok (b, rest) := by
  rw [readByte_eq_ok_iff]

theorem readBytes_eq_ok_iff {step : String} {n : Nat} {data bs rest : Bytes} :
    readBytes step n data = .ok (bs, rest) ↔ bs.length = n ∧ data = bs ++ rest := by
  unfold readBytes
  rw [ite_error_eq_ok_iff, Except.ok.injEq, Prod.mk.injEq]
  constructor
  . rintro ⟨hlength, rfl, rfl⟩
    rw [List.length_take] at hlength
    refine ⟨?_, (List.take_append_drop n data).symm⟩
    rw [List.length_take]
    omega
  . rintro ⟨rfl, rfl⟩
    simp

theorem readBytes_append (step : String) (bs rest : Bytes) :
    readBytes step bs.length (bs ++ rest) = .ok (bs, rest) := by
  rw [readBytes_eq_ok_iff]
  exact ⟨rfl, rfl⟩

theorem readNumber_eq_ok_iff {step : String} {width n : Nat} {data rest : Bytes} :
    readNumber step width data = .ok (n, rest) ↔
      n < 256 ^ width ∧ data = Bytes.bigEndian width n ++ rest := by
  unfold readNumber
  simp only [bind_eq_ok_iff, Prod.exists, readBytes_eq_ok_iff, pure_eq_ok, Except.ok.injEq,
    Prod.mk.injEq]
  constructor
  . rintro ⟨bs, _, ⟨rfl, rfl⟩, rfl, rfl⟩
    refine ⟨Bytes.toNat_lt bs, ?_⟩
    rw [Bytes.bigEndian_toNat]
  . rintro ⟨hn, rfl⟩
    exact ⟨_, _, ⟨Bytes.length_bigEndian width n, rfl⟩, Bytes.toNat_bigEndian_of_lt hn, rfl⟩

theorem readNumber_append {step : String} {width n : Nat} (h : n < 256 ^ width) (rest : Bytes) :
    readNumber step width (Bytes.bigEndian width n ++ rest) = .ok (n, rest) := by
  rw [readNumber_eq_ok_iff]
  exact ⟨h, rfl⟩

theorem readVersion_eq_ok_iff {data rest : Bytes} {v : KeyVersion} :
    readVersion data = .ok (v, rest) ↔ data = v.encode ++ rest := by
  unfold readVersion
  simp only [bind_eq_ok_iff, Prod.exists, readNumber_eq_ok_iff, readByte_eq_ok_iff,
    Status.decode_eq_ok_iff]
  constructor
  . rintro ⟨number, _, ⟨hnumber, rfl⟩, _, _, rfl, status, rfl, flag, _, rfl, h⟩
    split at h
    . next hflag =>
      rw [pure_eq_ok, Except.ok.injEq, Prod.mk.injEq] at h
      rcases h with ⟨rfl, rfl⟩
      have hbit : (if decide (flag = 1) then 1 else 0) = flag := by
        grind
      unfold KeyVersion.encode
      rw [UInt32.toNat_ofNat_of_lt' hnumber, hbit, List.append_assoc]
      rfl
    . simp at h
  . rintro rfl
    unfold KeyVersion.encode
    rw [List.append_assoc]
    refine ⟨_, _, ⟨v.version.toNat_lt, rfl⟩, _, _, rfl, _, rfl, _, _, rfl, ?_⟩
    cases v with
    | mk version status exportable =>
      cases exportable with
      | false => simp
      | true => simp

theorem readVersions_eq_ok_iff {n : Nat} {data rest : Bytes} {versions : List KeyVersion} :
    readVersions n data = .ok (versions, rest) ↔
      versions.length = n ∧ data = versions.flatMap KeyVersion.encode ++ rest := by
  induction n generalizing data versions with
  | zero =>
    rw [readVersions, Except.ok.injEq, Prod.mk.injEq, List.length_eq_zero_iff, eq_comm]
    apply and_congr_right
    rintro rfl
    rfl
  | succ n ih =>
    unfold readVersions
    simp only [bind_eq_ok_iff, Prod.exists, readVersion_eq_ok_iff, pure_eq_ok, Except.ok.injEq,
      Prod.mk.injEq]
    constructor
    . rintro ⟨v, _, rfl, vs, _, hvs, rfl, rfl⟩
      rcases ih.mp hvs with ⟨rfl, rfl⟩
      rw [List.flatMap_cons, List.append_assoc]
      exact ⟨rfl, rfl⟩
    . rintro ⟨hlength, rfl⟩
      cases versions with
      | nil => simp at hlength
      | cons v vs =>
        rw [List.flatMap_cons, List.append_assoc]
        exact ⟨v, _, rfl, vs, _, ih.mpr ⟨Nat.succ.inj hlength, rfl⟩, rfl, rfl⟩

theorem readVersions_append (versions : List KeyVersion) (rest : Bytes) :
    readVersions versions.length (versions.flatMap KeyVersion.encode ++ rest) =
      .ok (versions, rest) := by
  rw [readVersions_eq_ok_iff]
  exact ⟨rfl, rfl⟩

theorem length_add_le_of_ascending {a last : UInt32} {numbers : List UInt32}
    (h : (a :: numbers).Pairwise (· < ·)) (hlast : ∀ n ∈ a :: numbers, n ≤ last) :
    numbers.length + a.toNat ≤ last.toNat := by
  induction numbers generalizing a with
  | nil =>
    have ha := UInt32.le_iff_toNat_le.mp (hlast a List.mem_cons_self)
    simpa using ha
  | cons b numbers ih =>
    rw [List.pairwise_cons] at h
    have hab := UInt32.lt_iff_toNat_lt.mp (h.1 b List.mem_cons_self)
    have hb := ih h.2 fun n hn => hlast n (List.mem_cons_of_mem a hn)
    rw [List.length_cons]
    omega

theorem Valid.length_versions_le {m : Metadata} (h : m.Valid) :
    m.versions.length ≤ m.lastVersion.toNat := by
  have hascending : (0 :: m.numbers).Pairwise (· < ·) :=
    List.pairwise_cons.mpr ⟨h.positive, h.ascending⟩
  have hle := @length_add_le_of_ascending 0 m.lastVersion m.numbers hascending ?_
  . simpa [numbers] using hle
  . intro n hn
    cases List.mem_cons.mp hn with
    | inl heq =>
      rw [heq]
      exact UInt32.zero_le
    | inr hmem => exact h.le_last n hmem

theorem Valid.length_versions_lt {m : Metadata} (h : m.Valid) : m.versions.length < 256 ^ 4 := by
  apply Nat.lt_of_le_of_lt h.length_versions_le
  exact m.lastVersion.toNat_lt

theorem Valid.length_name_lt {m : Metadata} (h : m.Valid) :
    (Text.Utf8.encode m.name).length < 256 ^ 2 := by
  have hle := h.name_le
  rw [Text.Utf8.length_encode]
  unfold maxNameSize at hle
  omega

/-- Fields of any origin are decoded up to the check, if their lengths can be written. -/
theorem decode_encode_append_eq {m : Metadata} (hname : (Text.Utf8.encode m.name).length < 256 ^ 2)
    (hversions : m.versions.length < 256 ^ 4) (rest : Bytes) :
    decode (m.encode ++ rest) =
      if rest.isEmpty then m.check else .error (.badLength "end of metadata" 0 rest.length) := by
  have hlast : m.lastVersion.toNat < 256 ^ 4 := m.lastVersion.toNat_lt
  unfold decode encode
  simp only [List.cons_append, List.append_assoc, List.nil_append, readByte_cons, ok_bind, ne_eq,
    not_true_eq_false, ↓reduceIte]
  simp only [readNumber_append hname, readBytes_append, Text.Utf8.decode?_encode,
    readByte_cons, Purpose.decode_tag, KeyType.decode_tag, ok_bind]
  simp only [readNumber_append hlast, readNumber_append hversions,
    readVersions_append, UInt32.ofNat_toNat, ok_bind]
  rfl

theorem decode_encode_eq_check {m : Metadata} (hname : m.name.utf8ByteSize < 256 ^ 2)
    (hversions : m.versions.length < 256 ^ 4) : decode m.encode = m.check := by
  have hdecode := decode_encode_append_eq hname hversions []
  rw [List.append_nil] at hdecode
  exact hdecode

theorem decode_encode_append {m : Metadata} (h : m.Valid) (rest : Bytes) :
    decode (m.encode ++ rest) =
      if rest.isEmpty then .ok m else .error (.badLength "end of metadata" 0 rest.length) := by
  have hcheck : m.check = .ok m := check_eq_ok_iff.mpr ⟨h, rfl⟩
  rw [decode_encode_append_eq h.length_name_lt h.length_versions_lt, hcheck]

theorem eq_encode_of_decode_eq_ok {bs : Bytes} {m : Metadata} (h : decode bs = .ok m) :
    m.Valid ∧ bs = m.encode := by
  unfold decode at h
  simp only [bind_eq_ok_iff, throw_eq_error, error_bind, ite_error_eq_ok_iff, Prod.exists,
    readByte_eq_ok_iff, readNumber_eq_ok_iff, readBytes_eq_ok_iff] at h
  rcases h with ⟨_, _, rfl, hformat, _, _, ⟨hsize, rfl⟩, _, _, ⟨rfl, rfl⟩, h⟩
  split at h
  . next name hname =>
    simp only [bind_eq_ok_iff, Prod.exists, readByte_eq_ok_iff, readNumber_eq_ok_iff,
      Purpose.decode_eq_ok_iff, KeyType.decode_eq_ok_iff, readVersions_eq_ok_iff] at h
    rcases h with ⟨_, _, rfl, purpose, rfl, _, _, rfl, keyType, rfl, last, _, ⟨hlast, rfl⟩,
      count, _, ⟨hcount, rfl⟩, versions, rest, ⟨rfl, rfl⟩, h⟩
    split at h
    . next hrest =>
      rcases check_eq_ok_iff.mp h with ⟨hvalid, rfl⟩
      refine ⟨hvalid, ?_⟩
      unfold encode
      dsimp only
      rw [not_not.mp hformat, Text.Utf8.encode_of_decode?_eq_some hname,
        UInt32.toNat_ofNat_of_lt' hlast, List.isEmpty_iff.mp hrest, List.append_nil]
      simp only [List.cons_append, List.append_assoc, List.nil_append]
    . simp at h
  . simp at h

theorem decode_encode {m : Metadata} (h : m.Valid) : decode m.encode = .ok m := by
  have hdecode := decode_encode_append h []
  rw [List.append_nil] at hdecode
  exact hdecode

theorem decode_append {bs : Bytes} {m : Metadata} (h : decode bs = .ok m) (rest : Bytes) :
    decode (bs ++ rest) =
      if rest.isEmpty then .ok m else .error (.badLength "end of metadata" 0 rest.length) := by
  rcases eq_encode_of_decode_eq_ok h with ⟨hvalid, rfl⟩
  exact decode_encode_append hvalid rest

theorem valid_of_decode_eq_ok {bs : Bytes} {m : Metadata} (h : decode bs = .ok m) : m.Valid := by
  exact (eq_encode_of_decode_eq_ok h).1

end Metadata

end Keyring
