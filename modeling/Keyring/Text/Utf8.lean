import Keyring.Bytes
/-!
This module contains UTF-8, the bytes of texts.
-/

namespace Keyring.Text.Utf8

def encode (text : String) : Bytes :=
  text.toByteArray.data.toList

/-- The text with some bytes, if they are well formed. -/
def decode? (bs : Bytes) : Option String :=
  String.fromUTF8? ⟨bs.toArray⟩

@[simp]
theorem decode?_encode (text : String) : decode? (encode text) = some text := by
  simp [decode?, encode, String.fromUTF8?, String.fromUTF8, text.isValidUTF8]

theorem encode_of_decode?_eq_some {bs : Bytes} {text : String} (h : decode? bs = some text) :
    encode text = bs := by
  unfold decode? String.fromUTF8? at h
  split at h
  . rw [Option.some.injEq] at h
    rw [← h]
    rfl
  . simp at h

@[simp]
theorem length_encode (text : String) : (encode text).length = text.utf8ByteSize := by
  rfl

def isContinuation (b : UInt8) : Bool :=
  0x80 ≤ b ∧ b ≤ 0xbf

/-- How many bytes a character that starts with some byte has, with the least and the greatest byte
that can come second. -/
def shape (b : UInt8) : Option (Nat × UInt8 × UInt8) :=
  if 0xc2 ≤ b ∧ b ≤ 0xdf then some (2, 0x80, 0xbf)
  else if b = 0xe0 then some (3, 0xa0, 0xbf)
  else if b = 0xed then some (3, 0x80, 0x9f)
  else if 0xe1 ≤ b ∧ b ≤ 0xef then some (3, 0x80, 0xbf)
  else if b = 0xf0 then some (4, 0x90, 0xbf)
  else if 0xf1 ≤ b ∧ b ≤ 0xf3 then some (4, 0x80, 0xbf)
  else if b = 0xf4 then some (4, 0x80, 0x8f)
  else none

/-- How many of the bytes after a first one continue its character, and how many it needs. -/
def continuation (b : UInt8) (rest : Bytes) : Nat × Nat :=
  match shape b with
  | none => (0, if b < 0x80 then 0 else 1)
  | some (size, low, high) =>
    match rest with
    | second :: more =>
      if low ≤ second ∧ second ≤ high then
        (1 + ((more.take (size - 2)).takeWhile isContinuation).length, size - 1)
      else
        (0, size - 1)
    | [] => (0, size - 1)

/-- The characters of some bytes, where each start of a character that breaks off, and each byte that
starts none, is one replacement character. -/
def decodeLossy : Bytes → List Char
  | [] => []
  | b :: rest =>
    let (has, needs) := continuation b rest
    let chars :=
      if has = needs then
        ((decode? (b :: rest.take has)).map String.toList).getD ['\ufffd']
      else
        ['\ufffd']
    chars ++ decodeLossy (rest.drop has)
termination_by bs => bs.length
decreasing_by
  simp only [List.length_drop, List.length_cons]
  omega

end Keyring.Text.Utf8
