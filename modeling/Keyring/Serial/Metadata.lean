import Keyring.Metadata.Basic
import Keyring.Serial.Basic
/-!
This module contains the JSON form and the compact form of metadata. Metadata is checked for
consistency after it is read, a version on its own is not.
-/

namespace Keyring

namespace KeyVersion

open Serial

/-- The members of a version that have been read. -/
structure Draft where
  version : Option UInt32 := none
  status : Option Status := none
  exportable : Option Bool := none

def toValue (v : KeyVersion) : Json.Value :=
  .object [
    ("version", .number (.natural v.version.toNat)),
    ("status", .text (Choice.name v.status)),
    ("exportable", .boolean v.exportable)]

def readMember (s : Draft) (key : String) (d : Json.Draft) : Except Refusal Draft := do
  match key with
  | "version" => return { s with version := ← Draft.readOnce key s.version Draft.readUInt32 d }
  | "status" => return { s with status := ← Draft.readOnce key s.status Draft.readChoice d }
  | "exportable" =>
    return { s with exportable := ← Draft.readOnce key s.exportable Draft.readBool d }
  | _ =>
    Draft.skip d
    return s

/-- Reads an object of members in any order or an array of them in order. -/
def ofDraft : Json.Draft → Except Refusal KeyVersion
  | .object members isClosed => do
    let s ← Draft.readMembers readMember isClosed {} members
    let version ← Draft.required "version" s.version
    let status ← Draft.required "status" s.status
    let exportable ← Draft.required "exportable" s.exportable
    return { version, status, exportable }
  | .array items isClosed => do
    let expected := "struct KeyVersion with 3 elements"
    let (d, items) ← Draft.nextItem expected 0 isClosed items
    let version ← Draft.readUInt32 d
    let (d, items) ← Draft.nextItem expected 1 isClosed items
    let status ← Draft.readChoice d
    let (d, items) ← Draft.nextItem expected 2 isClosed items
    let exportable ← Draft.readBool d
    Draft.endItems isClosed items
    return { version, status, exportable }
  | d => .error (unexpected "struct KeyVersion" d)

def toCompact (v : KeyVersion) : Bytes :=
  Compact.writeUInt32 v.version ++ Compact.writeChoice v.status ++ Compact.writeBool v.exportable

def readCompact (bs : Bytes) : Except Refusal (KeyVersion × Bytes) := do
  let (version, bs) ← Compact.readUInt32 bs
  let (status, bs) ← Compact.readChoice bs
  let (exportable, bs) ← Compact.readBool bs
  return ({ version, status, exportable }, bs)

instance : Serial KeyVersion := ⟨toValue, ofDraft, toCompact, readCompact⟩

end KeyVersion

namespace Metadata

open Serial

/-- The members of metadata that have been read. -/
structure Draft where
  name : Option String := none
  purpose : Option Purpose := none
  keyType : Option KeyType := none
  lastVersion : Option UInt32 := none
  versions : Option (List KeyVersion) := none

def toValue (m : Metadata) : Json.Value :=
  .object [
    ("name", .text m.name),
    ("purpose", .text (Choice.name m.purpose)),
    ("key_type", .text (Choice.name m.keyType)),
    ("last_version", .number (.natural m.lastVersion.toNat)),
    ("versions", .array (m.versions.map KeyVersion.toValue))]

def readVersionList : Json.Draft → Except Refusal (List KeyVersion)
  | .array items isClosed => do
    let versions ← items.mapM KeyVersion.ofDraft
    Draft.close isClosed
    return versions
  | d => .error (unexpected "a sequence" d)

def readMember (s : Draft) (key : String) (d : Json.Draft) : Except Refusal Draft := do
  match key with
  | "name" => return { s with name := ← Draft.readOnce key s.name (Draft.readText "a string") d }
  | "purpose" => return { s with purpose := ← Draft.readOnce key s.purpose Draft.readChoice d }
  | "key_type" => return { s with keyType := ← Draft.readOnce key s.keyType Draft.readChoice d }
  | "last_version" =>
    return { s with lastVersion := ← Draft.readOnce key s.lastVersion Draft.readUInt32 d }
  | "versions" =>
    return { s with versions := ← Draft.readOnce key s.versions readVersionList d }
  | _ =>
    Draft.skip d
    return s

def ofParts (m : Metadata) : Except Refusal Metadata :=
  match m.check with
  | .ok m => .ok m
  | .error error => .error (.fault (.invalid error))

/-- Reads an object of members in any order or an array of them in order. -/
def ofDraft : Json.Draft → Except Refusal Metadata
  | .object members isClosed => do
    let s ← Draft.readMembers readMember isClosed {} members
    let name ← Draft.required "name" s.name
    let purpose ← Draft.required "purpose" s.purpose
    let keyType ← Draft.required "key_type" s.keyType
    let lastVersion ← Draft.required "last_version" s.lastVersion
    let versions ← Draft.required "versions" s.versions
    ofParts { name, purpose, keyType, lastVersion, versions }
  | .array items isClosed => do
    let expected := "struct RawMetadata with 5 elements"
    let (d, items) ← Draft.nextItem expected 0 isClosed items
    let name ← Draft.readText "a string" d
    let (d, items) ← Draft.nextItem expected 1 isClosed items
    let purpose ← Draft.readChoice d
    let (d, items) ← Draft.nextItem expected 2 isClosed items
    let keyType ← Draft.readChoice d
    let (d, items) ← Draft.nextItem expected 3 isClosed items
    let lastVersion ← Draft.readUInt32 d
    let (d, items) ← Draft.nextItem expected 4 isClosed items
    let versions ← readVersionList d
    Draft.endItems isClosed items
    ofParts { name, purpose, keyType, lastVersion, versions }
  | d => .error (unexpected "struct RawMetadata" d)

def toCompact (m : Metadata) : Bytes :=
  Compact.writeText m.name ++ Compact.writeChoice m.purpose ++ Compact.writeChoice m.keyType ++
    Compact.writeUInt32 m.lastVersion ++ Compact.writeList KeyVersion.toCompact m.versions

def readCompact (bs : Bytes) : Except Refusal (Metadata × Bytes) := do
  let (name, bs) ← Compact.readText bs
  let (purpose, bs) ← Compact.readChoice bs
  let (keyType, bs) ← Compact.readChoice bs
  let (lastVersion, bs) ← Compact.readUInt32 bs
  let (versions, bs) ← Compact.readList KeyVersion.readCompact bs
  return (← ofParts { name, purpose, keyType, lastVersion, versions }, bs)

instance : Serial Metadata := ⟨toValue, ofDraft, toCompact, readCompact⟩

end Metadata

end Keyring
