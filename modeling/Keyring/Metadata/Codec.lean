import Keyring.Metadata.Basic
import Keyring.Key.Codec
import Keyring.Text.Utf8
/-!
This module contains the encoding of metadata: a byte for the format, the name after its length in
two bytes, a byte each for purpose and key type, the last version number that was assigned, and the
number of versions before their entries. An entry is a version number, a byte for the status and a
byte for whether the version may be exported. Numbers are big-endian.
-/

namespace Keyring

namespace Purpose

def decode (tag : UInt8) : Except Error Purpose :=
  match ofTag? tag with
  | some purpose => .ok purpose
  | none => .error (.unsupportedType tag)

end Purpose

namespace Status

def decode (tag : UInt8) : Except Error Status :=
  match ofTag? tag with
  | some status => .ok status
  | none => .error (.unsupportedType tag)

end Status

namespace KeyVersion

def encode (v : KeyVersion) : Bytes :=
  Bytes.bigEndian 4 v.version.toNat ++ [v.status.tag, if v.exportable then 1 else 0]

end KeyVersion

namespace Metadata

def formatVersion : UInt8 := 0

def encode (m : Metadata) : Bytes :=
  let name := Text.Utf8.encode m.name
  formatVersion :: Bytes.bigEndian 2 name.length ++ name ++ [m.purpose.tag, m.keyType.tag] ++
    Bytes.bigEndian 4 m.lastVersion.toNat ++ Bytes.bigEndian 4 m.versions.length ++
    m.versions.flatMap KeyVersion.encode

def readBytes (step : String) (n : Nat) (data : Bytes) : Except Error (Bytes × Bytes) :=
  if (data.take n).length < n then
    .error (.badLength step 1 0)
  else
    .ok (data.take n, data.drop n)

def readByte (step : String) : Bytes → Except Error (UInt8 × Bytes)
  | [] => .error (.badLength step 1 0)
  | b :: data => .ok (b, data)

def readNumber (step : String) (n : Nat) (data : Bytes) : Except Error (Nat × Bytes) := do
  let (bs, data) ← readBytes step n data
  return (Bytes.toNat bs, data)

def readVersion (data : Bytes) : Except Error (KeyVersion × Bytes) := do
  let (version, data) ← readNumber "get version number" 4 data
  let (tag, data) ← readByte "get status" data
  let status ← Status.decode tag
  let (flag, data) ← readByte "get exportable flag" data
  if flag ≤ 1 then
    return (⟨UInt32.ofNat version, status, flag = 1⟩, data)
  else
    throw (.badFormat "exportable flag is not 0 or 1")

def readVersions : Nat → Bytes → Except Error (List KeyVersion × Bytes)
  | 0, data => .ok ([], data)
  | n + 1, data => do
    let (v, data) ← readVersion data
    let (vs, data) ← readVersions n data
    return (v :: vs, data)

/-- Reads encoded metadata and checks that it is consistent. -/
def decode (data : Bytes) : Except Error Metadata := do
  let (format, data) ← readByte "get metadata codec version" data
  if format ≠ formatVersion then
    throw (.unsupportedType format)
  let (nameSize, data) ← readNumber "get name length" 2 data
  let (nameBytes, data) ← readBytes "get name" nameSize data
  let some name := Text.Utf8.decode? nameBytes | throw (.badFormat "name is not UTF-8")
  let (tag, data) ← readByte "get purpose" data
  let purpose ← Purpose.decode tag
  let (tag, data) ← readByte "get key type" data
  let keyType ← KeyType.decode tag
  let (lastVersion, data) ← readNumber "get last version" 4 data
  let (count, data) ← readNumber "get version count" 4 data
  let (versions, data) ← readVersions count data
  if data.isEmpty then
    check ⟨name, purpose, keyType, UInt32.ofNat lastVersion, versions⟩
  else
    throw (.badLength "end of metadata" 0 data.length)

end Metadata

end Keyring
