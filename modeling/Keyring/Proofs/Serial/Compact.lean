import Keyring.Proofs.Bytes
import Keyring.Proofs.Choice
import Keyring.Proofs.Outcome
import Keyring.Serial.Compact
/-!
This module contains the laws of the parts of the compact form. Each reader takes what its writer
made off the front, whatever comes after it.
-/

namespace Keyring.Serial.Compact

variable {α : Type}

theorem readBytes_append (bs rest : Bytes) : readBytes bs.length (bs ++ rest) = .ok (bs, rest) := by
  simp [readBytes]

theorem readNatural_append {width n : Nat} (h : n < 256 ^ width) (rest : Bytes) :
    readNatural width (Bytes.littleEndian width n ++ rest) = .ok (n, rest) := by
  have hread := readBytes_append (Bytes.littleEndian width n) rest
  rw [Bytes.length_littleEndian] at hread
  simp only [readNatural, hread, ok_bind, Bytes.toNatLE_littleEndian, Nat.mod_eq_of_lt h,
    pure_eq_ok]

theorem readBytes_eq_ok_iff {n : Nat} {bs data rest : Bytes} :
    readBytes n bs = .ok (data, rest) ↔ data.length = n ∧ bs = data ++ rest := by
  constructor
  . intro h
    rw [readBytes, ite_error_eq_ok_iff, Except.ok.injEq, Prod.mk.injEq] at h
    rcases h with ⟨hlength, rfl, rfl⟩
    rw [List.length_take, List.take_append_drop]
    exact ⟨by omega, rfl⟩
  . rintro ⟨rfl, rfl⟩
    exact readBytes_append data rest

theorem readNatural_eq_ok_iff {width n : Nat} {bs rest : Bytes} :
    readNatural width bs = .ok (n, rest) ↔
      n < 256 ^ width ∧ bs = Bytes.littleEndian width n ++ rest := by
  constructor
  . intro h
    simp only [readNatural, bind_eq_ok_iff, Prod.exists, readBytes_eq_ok_iff, pure_eq_ok,
      Except.ok.injEq, Prod.mk.injEq] at h
    rcases h with ⟨data, _, ⟨rfl, rfl⟩, rfl, rfl⟩
    rw [Bytes.littleEndian_toNatLE]
    exact ⟨Bytes.toNatLE_lt data, rfl⟩
  . rintro ⟨hlt, rfl⟩
    exact readNatural_append hlt rest

theorem readBlob_eq_ok_iff {bs data rest : Bytes} :
    readBlob bs = .ok (data, rest) ↔ data.length < 256 ^ 8 ∧ bs = writeBlob data ++ rest := by
  simp only [readBlob, writeBlob, bind_eq_ok_iff, Prod.exists, readNatural_eq_ok_iff,
    readBytes_eq_ok_iff]
  constructor
  . rintro ⟨_, _, ⟨hlt, rfl⟩, rfl, rfl⟩
    rw [List.append_assoc]
    exact ⟨hlt, rfl⟩
  . rintro ⟨hlt, rfl⟩
    rw [List.append_assoc]
    exact ⟨_, _, ⟨hlt, rfl⟩, rfl, rfl⟩

theorem readUInt32_append (n : UInt32) (rest : Bytes) :
    readUInt32 (writeUInt32 n ++ rest) = .ok (n, rest) := by
  have hlt : n.toNat < 256 ^ 4 := n.toNat_lt
  simp only [readUInt32, writeUInt32, readNatural_append hlt, ok_bind, UInt32.ofNat_toNat,
    pure_eq_ok]

theorem readUInt64_append (n : UInt64) (rest : Bytes) :
    readUInt64 (writeUInt64 n ++ rest) = .ok (n, rest) := by
  have hlt : n.toNat < 256 ^ 8 := n.toNat_lt
  simp only [readUInt64, writeUInt64, readNatural_append hlt, ok_bind, UInt64.ofNat_toNat,
    pure_eq_ok]

theorem readBlob_append {data : Bytes} (h : data.length < 256 ^ 8) (rest : Bytes) :
    readBlob (writeBlob data ++ rest) = .ok (data, rest) := by
  simp only [readBlob, writeBlob, List.append_assoc, readNatural_append h, ok_bind,
    readBytes_append]

theorem readText_append {s : String} (h : s.utf8ByteSize < 256 ^ 8) (rest : Bytes) :
    readText (writeText s ++ rest) = .ok (s, rest) := by
  have hlt : (Text.Utf8.encode s).length < 256 ^ 8 := h
  simp only [readText, writeText, readBlob_append hlt, ok_bind, Text.Utf8.decode?_encode,
    pure_eq_ok]

theorem readBool_append (b : Bool) (rest : Bytes) :
    readBool (writeBool b ++ rest) = .ok (b, rest) := by
  cases b <;> rfl

theorem readChoice_append [Choice α] [BEq α] [LawfulBEq α] [LawfulChoice α] (a : α)
    (rest : Bytes) : readChoice (writeChoice a ++ rest) = .ok (a, rest) := by
  have hlt : Choice.index a < 256 ^ 4 := LawfulChoice.index_lt a
  simp only [readChoice, writeChoice, readNatural_append hlt, ok_bind, choiceOfIndex,
    LawfulChoice.ofIndex?_index, liftFault, pure_eq_ok]

section

variable {read : Bytes → Except Refusal (α × Bytes)} {write : α → Bytes}

theorem readItems_append (h : ∀ a rest, read (write a ++ rest) = .ok (a, rest)) (items : List α)
    (rest : Bytes) :
    readItems read items.length (items.flatMap write ++ rest) = .ok (items, rest) := by
  induction items with
  | nil => rfl
  | cons item items ih =>
    simp only [List.length_cons, readItems, List.flatMap_cons, List.append_assoc, h, ok_bind, ih,
      pure_eq_ok]

theorem readList_append (h : ∀ a rest, read (write a ++ rest) = .ok (a, rest)) {items : List α}
    (hlength : items.length < 256 ^ 8) (rest : Bytes) :
    readList read (writeList write items ++ rest) = .ok (items, rest) := by
  simp only [readList, writeList, List.append_assoc, readNatural_append hlength, ok_bind,
    readItems_append h]

end

end Keyring.Serial.Compact
