import Keyring.Error
/-!
This module contains the metadata of key sets: a name, a purpose, a key type, and the versions with
their status. Version numbers start at 1 and are never assigned twice.
-/

namespace Keyring

inductive Status where
  /-- Makes all new signatures and ciphertexts. At most one version is primary. -/
  | primary
  /-- Verifies and decrypts only. -/
  | active
  /-- Still verifies and decrypts, but may be removed. -/
  | scheduledForRevocation
deriving DecidableEq, Repr

namespace Status

instance : Choice Status where
  all := [.primary, .active, .scheduledForRevocation]
  name
    | .primary => "primary"
    | .active => "active"
    | .scheduledForRevocation => "scheduled_for_revocation"

def tag : Status → UInt8
  | .primary => 0
  | .active => 1
  | .scheduledForRevocation => 2

def ofTag? (tag : UInt8) : Option Status :=
  Choice.all.find? fun s : Status => s.tag == tag

@[simp]
theorem ofTag?_tag (s : Status) : ofTag? s.tag = some s := by
  cases s <;> rfl

def title : Status → String
  | .primary => "Primary"
  | .active => "Active"
  | .scheduledForRevocation => "ScheduledForRevocation"

end Status

structure KeyVersion where
  version : UInt32
  status : Status
  exportable : Bool := false
deriving DecidableEq, Repr

/-- What a key set records besides its keys. -/
structure Metadata where
  name : String
  purpose : Purpose
  keyType : KeyType
  /-- The highest version number that was ever assigned. -/
  lastVersion : UInt32 := 0
  /-- The versions in ascending order. -/
  versions : List KeyVersion := []
deriving DecidableEq

namespace Metadata

def maxNameSize : Nat := 65535

/-- Checks that a purpose admits a key type and that a name is not too long. -/
def checkHeader (name : String) (purpose : Purpose) (keyType : KeyType) : Except Error Unit :=
  if purpose.accepts keyType then
    if name.utf8ByteSize ≤ maxNameSize then
      .ok ()
    else
      .error (.badLength "key set name" maxNameSize name.utf8ByteSize)
  else
    .error (.unacceptablePurpose purpose "purpose does not allow this key type")

def new (name : String) (purpose : Purpose) (keyType : KeyType) : Except Error Metadata := do
  checkHeader name purpose keyType
  return { name, purpose, keyType }

/-- Checks that version numbers ascend from above `last`, and returns the last of them. -/
def checkVersions (last : UInt32) : List KeyVersion → Except Error UInt32
  | [] => .ok last
  | v :: versions =>
    if v.version ≤ last then
      .error (.badFormat "version numbers must be positive and ascending")
    else
      checkVersions v.version versions

/-- Metadata with fields of any origin, if they are consistent. -/
def check (m : Metadata) : Except Error Metadata := do
  checkHeader m.name m.purpose m.keyType
  let last ← checkVersions 0 m.versions
  if m.lastVersion < last then
    throw (.badFormat "last assigned version is below an existing version")
  return m

def version? (m : Metadata) (version : UInt32) : Option KeyVersion :=
  m.versions.find? (·.version == version)

def primaryVersion? (m : Metadata) : Option KeyVersion :=
  m.versions.find? (·.status == .primary)

/-- The version number that is assigned next. -/
def nextVersion (m : Metadata) : Except Error UInt32 :=
  if m.lastVersion = 0xffffffff then
    .error (.badFormat "version numbers exhausted")
  else
    .ok (m.lastVersion + 1)

/-- Adds a version with a number that was never assigned. -/
def pushVersion (m : Metadata) (v : KeyVersion) : Except Error Metadata :=
  if v.version ≤ m.lastVersion then
    .error (.badFormat "version number was already assigned")
  else
    .ok { m with lastVersion := v.version, versions := m.versions ++ [v] }

def removeVersion (m : Metadata) (version : UInt32) : Metadata :=
  { m with versions := m.versions.filter (·.version != version) }

def setStatus (m : Metadata) (version : UInt32) (status : Status) : Metadata :=
  { m with versions := m.versions.map fun v =>
      if v.version = version then { v with status } else v }

/-- The same versions under another purpose and key type. -/
def withPurpose (m : Metadata) (purpose : Purpose) (keyType : KeyType) :
    Except Error Metadata := do
  checkHeader m.name purpose keyType
  return { m with purpose, keyType }

end Metadata

end Keyring
