import Keyring.Key.Generate
import Keyring.Metadata.Basic
/-!
This module contains key sets: versions of keys of one type, found by their number and by their
hash, one of which may be primary. An operation that fails leaves the set that it was asked of as it
was, because it returns no other.
-/

namespace Keyring

/-- A named set of keys of one type. -/
structure KeySet where
  metadata : Metadata
  config : Config
  /-- The keys with their versions, in ascending order. -/
  keys : List (UInt32 × Key) := []
  /-- The versions by the hashes of their keys. -/
  index : List (UInt32 × UInt32) := []
  primary : Option UInt32 := none
deriving DecidableEq

namespace KeySet

def new (name : String) (purpose : Purpose) (keyType : KeyType) (config : Config) :
    Except Error KeySet := do
  config.validate
  let metadata ← Metadata.new name purpose keyType
  return { metadata, config }

def name (s : KeySet) : String :=
  s.metadata.name

def purpose (s : KeySet) : Purpose :=
  s.metadata.purpose

def keyType (s : KeySet) : KeyType :=
  s.metadata.keyType

def versions (s : KeySet) : List KeyVersion :=
  s.metadata.versions

/-- The proof that the purpose of a set suits a class of operations, or the error that it does
not. -/
def accepting (s : KeySet) (operations : OperationClass) :
    Except Error (PLift (operations.accepts s.purpose)) :=
  if h : operations.accepts s.purpose then
    .ok ⟨h⟩
  else
    .error (.unacceptablePurpose s.purpose "purpose does not permit this operation")

def checkPurpose (s : KeySet) (operations : OperationClass) : Except Error Unit := do
  let _ ← s.accepting operations

def keyByVersion? (s : KeySet) (version : UInt32) : Option Key :=
  s.keys.lookup version

def keyByHash? (s : KeySet) (hash : KeyHash) : Option Key := do
  s.keyByVersion? (← s.index.lookup hash.toUInt32)

def hasHash (s : KeySet) (hash : KeyHash) : Bool :=
  (s.index.lookup hash.toUInt32).isSome

/-- The key that makes new signatures and ciphertexts. -/
def primaryKey (s : KeySet) : Except Error Key :=
  match s.primary.bind s.keyByVersion? with
  | some key => .ok key
  | none => .error .noPrimaryKey

def status (s : KeySet) (version : UInt32) : Except Error Status :=
  match s.metadata.version? version with
  | some v => .ok v.status
  | none => .error (.versionNotFound version)

def setStatus (s : KeySet) (version : UInt32) (status : Status) : KeySet :=
  { s with metadata := s.metadata.setStatus version status }

/-- Makes a version primary and the former primary version active. -/
def promote (s : KeySet) (version : UInt32) : Except Error KeySet := do
  if (← s.status version) = .primary then
    return s
  let s := match s.primary with
    | some former => s.setStatus former .active
    | none => s
  return { s.setStatus version .primary with primary := some version }

/-- Takes a version one step down, from primary to active, which leaves no primary version, and from
active to scheduled for revocation. -/
def demote (s : KeySet) (version : UInt32) : Except Error KeySet := do
  match ← s.status version with
  | .primary => return { s.setStatus version .active with primary := none }
  | .active | .scheduledForRevocation => return s.setStatus version .scheduledForRevocation

def revoke (s : KeySet) (version : UInt32) : Except Error KeySet := do
  if (← s.status version) ≠ .scheduledForRevocation then
    throw (.invalidStatusForRevocation version)
  let index := match s.keyByVersion? version with
    | some key => s.index.filter (·.1 != key.hash.toUInt32)
    | none => s.index
  return { s with
    metadata := s.metadata.removeVersion version
    keys := s.keys.filter (·.1 != version)
    index }

/-- Adds a key as the next version, unless its hash is taken. -/
def tryInsert (s : KeySet) (status : Status) (key : Key) :
    Except Error (Option (UInt32 × KeySet)) := do
  if key.type ≠ s.keyType then
    throw (.unsupportedType key.type.tag)
  if s.hasHash key.hash then
    return none
  let version ← s.metadata.nextVersion
  let metadata ← s.metadata.pushVersion ⟨version, .active, false⟩
  let s := { s with
    metadata
    keys := s.keys ++ [(version, key)]
    index := s.index ++ [(key.hash.toUInt32, version)] }
  match status with
  | .primary => return some (version, ← s.promote version)
  | .scheduledForRevocation => return some (version, s.setStatus version status)
  | .active => return some (version, s)

/-- Adds the first key out of a generator whose hash is not taken as the next version. The generator
is asked at most as often as the settings say. -/
def addVersionWith {σ : Type} (s : KeySet) (status : Status) (generate : EStateM Error σ Key) :
    EStateM Error σ (UInt32 × KeySet) :=
  go s.config.maxGenerationAttempts.toNat
where
  go : Nat → EStateM Error σ (UInt32 × KeySet)
    | 0 => throw (.exhaustedKeyGeneration s.config.maxGenerationAttempts)
    | attempts + 1 => do
      let key ← generate
      match ← MonadExcept.ofExcept (s.tryInsert status key) with
      | some added => return added
      | none => go attempts

def addVersion (s : KeySet) (status : Status) : Drawing (UInt32 × KeySet) :=
  s.addVersionWith status (Key.generate s.keyType s.config)

/-- The set with the public halves of all keys, under the same versions. -/
def publicHalf (s : KeySet) : Except Error KeySet := do
  let purpose ← match s.purpose, s.keyType with
    | .signAndVerify, .rsaPrivate | .signAndVerify, .dsaPrivate => pure Purpose.verify
    | .decryptAndEncrypt, .rsaPrivate => pure Purpose.encrypt
    | purpose, _ =>
      throw (.unacceptablePurpose purpose "key set has no public keys to export")
  let some keyType := s.keyType.publicHalf?
    | throw (.notExportable "key type has no public half")
  let metadata ← s.metadata.withPurpose purpose keyType
  let keys ← s.keys.mapM fun (version, key) => return (version, ← key.publicHalf)
  return { s with metadata, keys }

end KeySet

end Keyring
