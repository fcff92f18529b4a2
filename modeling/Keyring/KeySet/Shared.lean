import Keyring.KeySet.Basic
/-!
This module contains key sets that are changed while others use them. A new key is generated from
the type and the settings that the set has at the start, and the set itself is looked at only to
insert the key.
-/

namespace Keyring

structure SharedKeySet where
  inner : KeySet
deriving DecidableEq

namespace SharedKeySet

def addVersion (s : SharedKeySet) (status : Status) : Drawing (UInt32 × SharedKeySet) :=
  let keyType := s.inner.keyType
  let config := s.inner.config
  go keyType config config.maxGenerationAttempts.toNat
where
  go (keyType : KeyType) (config : Config) : Nat → Drawing (UInt32 × SharedKeySet)
    | 0 => throw (.exhaustedKeyGeneration config.maxGenerationAttempts)
    | attempts + 1 => do
      let key ← Key.generate keyType config
      match ← MonadExcept.ofExcept (s.inner.tryInsert status key) with
      | some (version, inner) => return (version, ⟨inner⟩)
      | none => go keyType config attempts

def promote (s : SharedKeySet) (version : UInt32) : Except Error SharedKeySet :=
  return ⟨← s.inner.promote version⟩

def demote (s : SharedKeySet) (version : UInt32) : Except Error SharedKeySet :=
  return ⟨← s.inner.demote version⟩

def revoke (s : SharedKeySet) (version : UInt32) : Except Error SharedKeySet :=
  return ⟨← s.inner.revoke version⟩

end SharedKeySet

end Keyring
