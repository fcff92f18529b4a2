import Keyring.Serial.Refusal
import Keyring.Text.Utf8
/-!
This module contains the parts of the compact form: little-endian numbers of fixed width, texts and
byte strings after their length in eight bytes, choices as their position in four bytes, and truth
values as a byte.
-/

namespace Keyring.Serial.Compact

def readBytes (n : Nat) (bs : Bytes) : Except Refusal (Bytes × Bytes) :=
  if bs.length < n then .error .truncated else .ok (bs.take n, bs.drop n)

def readNatural (width : Nat) (bs : Bytes) : Except Refusal (Nat × Bytes) := do
  let (n, bs) ← readBytes width bs
  return (Bytes.toNatLE n, bs)

def writeUInt32 (n : UInt32) : Bytes :=
  Bytes.littleEndian 4 n.toNat

def readUInt32 (bs : Bytes) : Except Refusal (UInt32 × Bytes) := do
  let (n, bs) ← readNatural 4 bs
  return (UInt32.ofNat n, bs)

def writeUInt64 (n : UInt64) : Bytes :=
  Bytes.littleEndian 8 n.toNat

def readUInt64 (bs : Bytes) : Except Refusal (UInt64 × Bytes) := do
  let (n, bs) ← readNatural 8 bs
  return (UInt64.ofNat n, bs)

def writeBlob (data : Bytes) : Bytes :=
  Bytes.littleEndian 8 data.length ++ data

def readBlob (bs : Bytes) : Except Refusal (Bytes × Bytes) := do
  let (n, bs) ← readNatural 8 bs
  readBytes n bs

def writeText (s : String) : Bytes :=
  writeBlob (Text.Utf8.encode s)

def readText (bs : Bytes) : Except Refusal (String × Bytes) := do
  let (data, bs) ← readBlob bs
  match Text.Utf8.decode? data with
  | some s => return (s, bs)
  | none => throw .badText

def writeBool (b : Bool) : Bytes :=
  [if b then 1 else 0]

def readBool : Bytes → Except Refusal (Bool × Bytes)
  | [] => .error .truncated
  | b :: bs => if b ≤ 1 then .ok (b = 1, bs) else .error .badBoolean

def writeChoice {α : Type} [Choice α] [BEq α] (a : α) : Bytes :=
  Bytes.littleEndian 4 (Choice.index a)

def readChoice {α : Type} [Choice α] (bs : Bytes) : Except Refusal (α × Bytes) := do
  let (i, bs) ← readNatural 4 bs
  return (← liftFault (choiceOfIndex i), bs)

def writeList {α : Type} (write : α → Bytes) (items : List α) : Bytes :=
  Bytes.littleEndian 8 items.length ++ items.flatMap write

/-- Reads `n` items, each of which takes at least one byte. -/
def readItems {α : Type} (read : Bytes → Except Refusal (α × Bytes)) :
    Nat → Bytes → Except Refusal (List α × Bytes)
  | 0, bs => .ok ([], bs)
  | n + 1, bs => do
    let (item, bs) ← read bs
    let (items, bs) ← readItems read n bs
    return (item :: items, bs)

def readList {α : Type} (read : Bytes → Except Refusal (α × Bytes)) (bs : Bytes) :
    Except Refusal (List α × Bytes) := do
  let (n, bs) ← readNatural 8 bs
  readItems read n bs

end Keyring.Serial.Compact
