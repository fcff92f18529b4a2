import Keyring.Envelope.Seal
import Keyring.Proofs.KeySet.Invariant
import Keyring.Proofs.Stream.Setup
/-!
This module contains how headers decide which key of a set is asked: signatures and ciphertexts that
carry the same hash fare alike in all sets that agree on the key with that hash.
-/

namespace Keyring

namespace Header

@[simp]
theorem length_encode (h : Header) : h.encode.length = size := by
  simp [encode, size, h.hash.length_bytes]

theorem decode_eq_ok_iff {short : Error} {data rest : Bytes} {h : Header} :
    decode short data = .ok (h, rest) ↔ data = h.encode ++ rest := by
  constructor
  . intro hdecode
    unfold decode at hdecode
    split at hdecode
    . split at hdecode
      . next hversion =>
        simp only [Except.ok.injEq, Prod.mk.injEq] at hdecode
        rcases hdecode with ⟨rfl, rfl⟩
        rw [hversion]
        rfl
      . simp at hdecode
    . simp at hdecode
  . rintro rfl
    rcases h with ⟨⟨bytes, hlength⟩⟩
    match bytes, hlength with
    | [_, _, _, _], _ => rfl

theorem decode_encode_append (short : Error) (h : Header) (rest : Bytes) :
    decode short (h.encode ++ rest) = .ok (h, rest) := by
  rw [decode_eq_ok_iff]

theorem hash_of_decode_eq_ok {short : Error} {data rest : Bytes} {h : Header}
    (hdecode : decode short data = .ok (h, rest)) : h.hash.bytes = (data.drop 1).take 4 := by
  rw [decode_eq_ok_iff] at hdecode
  rw [hdecode, encode, List.cons_append, List.drop_succ_cons, List.drop_zero, List.take_left']
  exact h.hash.length_bytes

theorem decode_of_length_lt (short : Error) {data : Bytes} (h : data.length < size) :
    decode short data = .error short := by
  unfold decode
  split
  . simp only [List.length_cons, size] at h
    omega
  . rfl

theorem decode_of_head?_ne (short : Error) {data : Bytes} {version : UInt8}
    (hlong : size ≤ data.length) (hhead : data.head? = some version)
    (hversion : version ≠ formatVersion) : decode short data = .error (.badVersion version) := by
  match data, hlong, hhead with
  | _ :: _ :: _ :: _ :: _ :: _, _, rfl => exact if_neg hversion

theorem exists_encode_append {data : Bytes} (hlong : size ≤ data.length)
    (hhead : data.head? = some formatVersion) :
    ∃ h : Header, h.hash.bytes = (data.drop 1).take 4 ∧ data = h.encode ++ data.drop size := by
  match data, hlong, hhead with
  | _ :: b₁ :: b₂ :: b₃ :: b₄ :: rest, _, rfl =>
    exact ⟨⟨⟨[b₁, b₂, b₃, b₄], rfl⟩⟩, rfl, rfl⟩

end Header

namespace KeyHash

theorem bytes_inj {h h' : KeyHash} : h.bytes = h'.bytes ↔ h = h' := by
  cases h
  cases h'
  simp

end KeyHash

namespace KeySet

variable {s s' : KeySet} {hash : KeyHash}

theorem keyOf_congr (h : s'.keyByHash? hash = s.keyByHash? hash) :
    s'.keyOf ⟨hash⟩ = s.keyOf ⟨hash⟩ := by
  unfold keyOf
  rw [h]

theorem keyOf_eq_ok_iff {header : Header} {key : Key} :
    s.keyOf header = .ok key ↔ s.keyByHash? header.hash = some key := by
  unfold keyOf
  split
  . next k hk => simp [hk]
  . next hnone => simp [hnone]

theorem keyOf_of_keyByHash?_eq_none (h : s.keyByHash? hash = none) :
    s.keyOf ⟨hash⟩ = .error (.keyNotFound hash) := by
  unfold keyOf
  rw [h]

theorem verify_congr (h : s'.keyByHash? hash = s.keyByHash? hash) {signature : Bytes}
    (hname : (signature.drop 1).take 4 = hash.bytes) (message : Bytes) :
    s'.verify message signature = s.verify message signature := by
  unfold verify
  cases hdecode : Header.decode .shortSignature signature with
  | error e => rfl
  | ok parts =>
    rcases parts with ⟨⟨named⟩, trailer⟩
    have hnamed := Header.hash_of_decode_eq_ok hdecode
    rw [hname, KeyHash.bytes_inj] at hnamed
    subst hnamed
    simp only [ok_bind, keyOf_congr h]

theorem decrypt_congr (h : s'.keyByHash? hash = s.keyByHash? hash) (hconfig : s'.config = s.config)
    {ciphertext : Bytes} (hname : (ciphertext.drop 1).take 4 = hash.bytes) :
    s'.decrypt ciphertext = s.decrypt ciphertext := by
  unfold decrypt
  cases hdecode : Header.decode .shortCiphertext ciphertext with
  | error e => rfl
  | ok parts =>
    rcases parts with ⟨⟨named⟩, rest⟩
    have hnamed := Header.hash_of_decode_eq_ok hdecode
    rw [hname, KeyHash.bytes_inj] at hnamed
    subst hnamed
    simp only [ok_bind, keyOf_congr h, hconfig]

theorem Consistent.keyOf_eq_ok (h : s.Consistent) {version : UInt32} {key : Key}
    (hkey : (version, key) ∈ s.keys) : s.keyOf ⟨key.hash⟩ = .ok key := by
  rw [keyOf_eq_ok_iff, h.keyByHash?_eq_some_iff]
  exact ⟨rfl, version, hkey⟩

theorem Consistent.verify_eq (h : s.Consistent) {version : UInt32} {key : Key}
    (hkey : (version, key) ∈ s.keys) (message trailer : Bytes) :
    s.verify message ((Header.mk key.hash).encode ++ trailer) =
      if trailer.length < key.digestSize then
        .error .shortSignature
      else
        .ok (((key.verification.update (Header.mk key.hash).encode).update message).verify
          trailer) := by
  unfold verify
  rw [Header.decode_encode_append, ok_bind]
  dsimp only
  rw [h.keyOf_eq_ok hkey, ok_bind, List.take_left' (Header.length_encode _),
    key.verifyStream_eq_ok]
  split
  . rfl
  . rfl

theorem Consistent.verify_eq_ok_iff (h : s.Consistent) {message signature : Bytes} {verdict : Bool} :
    s.verify message signature = .ok verdict ↔ ∃ version key trailer,
      (version, key) ∈ s.keys ∧ signature = (Header.mk key.hash).encode ++ trailer ∧
        key.digestSize ≤ trailer.length ∧
        ((key.verification.update (Header.mk key.hash).encode).update message).verify trailer =
          verdict := by
  constructor
  . intro hverify
    have hverify' := hverify
    unfold verify at hverify'
    simp only [bind_eq_ok_iff, Prod.exists, Header.decode_eq_ok_iff, keyOf_eq_ok_iff,
      h.keyByHash?_eq_some_iff] at hverify'
    rcases hverify' with ⟨⟨_⟩, trailer, rfl, key, ⟨rfl, version, hkey⟩, _⟩
    rw [h.verify_eq hkey, ite_error_eq_ok_iff, Except.ok.injEq, Nat.not_lt] at hverify
    exact ⟨version, key, trailer, hkey, rfl, hverify⟩
  . rintro ⟨version, key, trailer, hkey, rfl, hlength, hverdict⟩
    rw [h.verify_eq hkey, if_neg (Nat.not_lt.mpr hlength), hverdict]

theorem verify_of_keyByHash?_eq_none (h : s.keyByHash? hash = none) (message rest : Bytes) :
    s.verify message ((Header.mk hash).encode ++ rest) = .error (.keyNotFound hash) := by
  unfold verify
  simp only [Header.decode_encode_append, ok_bind, keyOf_of_keyByHash?_eq_none h, error_bind]

theorem decrypt_of_keyByHash?_eq_none (h : s.keyByHash? hash = none) (rest : Bytes) :
    s.decrypt ((Header.mk hash).encode ++ rest) = .error (.keyNotFound hash) := by
  unfold decrypt
  simp only [Header.decode_encode_append, ok_bind, keyOf_of_keyByHash?_eq_none h, error_bind]

end KeySet

end Keyring
