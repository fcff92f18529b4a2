import Keyring.KeySet.Basic
import Keyring.Metadata.Codec
/-!
This module contains the saving and loading of key sets. A source hands out encoded metadata and
encoded keys; a bundle is a source in memory, such as an exported key set.
-/

namespace Keyring

structure Source where
  metadata : Except Error Bytes
  key : UInt32 → Except Error Bytes

/-- Encoded metadata and keys in memory. -/
structure Bundle where
  metadata : Bytes
  keys : List (UInt32 × Bytes)
deriving DecidableEq

namespace Bundle

def toSource (b : Bundle) : Source where
  metadata := .ok b.metadata
  key version :=
    match b.keys.lookup version with
    | some bs => .ok bs
    | none => .error (.readerError s!"no key data for version {version}")

end Bundle

namespace KeySet

def bundle (s : KeySet) : Bundle :=
  ⟨s.metadata.encode, s.keys.map fun (version, key) => (version, key.encode)⟩

/-- Adds the key of a version that the metadata lists. -/
def loadVersion (source : Source) (s : KeySet) (v : KeyVersion) : Except Error KeySet := do
  let key ← Key.decode (← source.key v.version)
  if key.type ≠ s.keyType then
    throw (.unsupportedType key.type.tag)
  if s.hasHash key.hash then
    throw (.duplicateKeyIdentifier key.hash)
  if v.status = .primary ∧ s.primary.isSome then
    throw .multiplePrimaryKeys
  return { s with
    keys := s.keys ++ [(v.version, key)]
    index := s.index ++ [(key.hash.toUInt32, v.version)]
    primary := if v.status = .primary then some v.version else s.primary }

def load (source : Source) (operations : OperationClass) (config : Config) :
    Except Error KeySet := do
  config.validate
  let metadata ← Metadata.decode (← source.metadata)
  let empty : KeySet := { metadata, config }
  empty.checkPurpose operations
  metadata.versions.foldlM (loadVersion source) empty

end KeySet

end Keyring
