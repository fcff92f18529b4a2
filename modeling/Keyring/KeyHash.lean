import Keyring.Digest.Sha1
import Keyring.Text.Base58
import Keyring.Text.Hex
/-!
This module contains key hashes, the four bytes by which headers and key sets name a key. A hash is
the start of a digest over the fields of a key, each of which follows its length, so that no two
lists of fields feed the same bytes into the digest.
-/

namespace Keyring

/-- The four bytes that name a key. -/
structure KeyHash where
  bytes : Bytes
  length_bytes : bytes.length = 4
deriving DecidableEq

namespace KeyHash

def size : Nat := 4

def ofBytes? (bs : Bytes) : Option KeyHash :=
  if h : bs.length = 4 then some ⟨bs, h⟩ else none

/-- The hash as a big-endian number, by which key sets look keys up. -/
def toUInt32 (h : KeyHash) : UInt32 :=
  UInt32.ofNat (Bytes.toNat h.bytes)

/-- Builds a hash one field at a time. -/
structure Hasher where
  fed : Bytes := []

namespace Hasher

def updateField (h : Hasher) (bs : Bytes) : Hasher :=
  ⟨h.fed ++ Bytes.field bs⟩

/-- Adds a big-endian number, whose leading zero bytes do not count. -/
def updateInteger (h : Hasher) (bs : Bytes) : Hasher :=
  h.updateField (Bytes.stripZeros bs)

def finish (h : Hasher) : KeyHash :=
  ⟨(Digest.Sha1.digest h.fed).take 4, by simp [Digest.Sha1.size]⟩

end Hasher

def ofFields (fields : List Bytes) : KeyHash :=
  (fields.foldl Hasher.updateField {}).finish

def toBase58 (h : KeyHash) : String :=
  Text.Base58.encode h.bytes

/-- A description such as `KeyHash([2b, 24, 6d, 37])`. -/
def describe (h : KeyHash) : String :=
  let bytes := ", ".intercalate (h.bytes.map fun b => Text.Hex.encode [b])
  s!"KeyHash([{bytes}])"

end KeyHash

end Keyring
