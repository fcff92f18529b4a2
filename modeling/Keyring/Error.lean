import Keyring.KeyHash
import Keyring.Purpose
/-!
This module contains the causes for which an operation on keys, key sets, signatures or ciphertexts
fails, and their wording.
-/

namespace Keyring

/-- Why an operation fails. None of these is transient. -/
inductive Error where
  /-- A signature or ciphertext starts with the byte of an unknown format. -/
  | badVersion (version : UInt8)
  /-- A signature has no room for a header and the trailer of its key. -/
  | shortSignature
  /-- A ciphertext has no room for a header and the trailer of its key. -/
  | shortCiphertext
  /-- No key of the set has the hash that a header names. -/
  | keyNotFound (hash : KeyHash)
  | duplicateKeyIdentifier (hash : KeyHash)
  | multiplePrimaryKeys
  /-- The purpose of a set does not permit an operation or a key type. -/
  | unacceptablePurpose (purpose : Purpose) (context : String)
  /-- An integrity trailer does not match. -/
  | invalidSignature
  /-- A primitive failed while it ran. -/
  | cryptoOperationFailed (operation : String)
  /-- A primitive cannot be set up. -/
  | algorithmUnavailable (algorithm : String)
  | noPrimaryKey
  | versionNotFound (version : UInt32)
  /-- Only versions that are scheduled for revocation can be revoked. -/
  | invalidStatusForRevocation (version : UInt32)
  /-- Every key that was generated has the hash of a key in the set. -/
  | exhaustedKeyGeneration (attempts : UInt32)
  /-- The source of a key set does not provide what it is asked for. -/
  | readerError (reason : String)
  | badLength (step : String) (expected actual : Nat)
  | badFormat (reason : String)
  | compressionFailed (reason : String)
  /-- Key material is weak or inconsistent. -/
  | badKey
  /-- A byte stands for no key type, purpose or status, or for one that does not fit. -/
  | unsupportedType (tag : UInt8)
  | unsupportedKeySize (algorithm : String) (size : Nat)
  | notExportable (reason : String)
deriving DecidableEq

namespace Error

def kind : Error → String
  | badVersion _ => "BadVersion"
  | shortSignature => "ShortSignature"
  | shortCiphertext => "ShortCiphertext"
  | keyNotFound _ => "KeyNotFound"
  | duplicateKeyIdentifier _ => "DuplicateKeyIdentifier"
  | multiplePrimaryKeys => "MultiplePrimaryKeys"
  | unacceptablePurpose _ _ => "UnacceptablePurpose"
  | invalidSignature => "InvalidSignature"
  | cryptoOperationFailed _ => "CryptoOperationFailed"
  | algorithmUnavailable _ => "AlgorithmUnavailable"
  | noPrimaryKey => "NoPrimaryKey"
  | versionNotFound _ => "VersionNotFound"
  | invalidStatusForRevocation _ => "InvalidStatusForRevocation"
  | exhaustedKeyGeneration _ => "ExhaustedKeyGeneration"
  | readerError _ => "ReaderError"
  | badLength _ _ _ => "BadLength"
  | badFormat _ => "BadFormat"
  | compressionFailed _ => "CompressionFailed"
  | badKey => "BadKey"
  | unsupportedType _ => "UnsupportedType"
  | unsupportedKeySize _ _ => "UnsupportedKeySize"
  | notExportable _ => "NotExportable"

def message : Error → String
  | badVersion version => s!"Unrecognized format version byte: {version}"
  | shortSignature => "Signature is too short"
  | shortCiphertext => "Ciphertext is too short"
  | keyNotFound hash => s!"No key in the set has hash {hash.toBase58}"
  | duplicateKeyIdentifier hash => s!"Two keys in the set share the hash {hash.toBase58}"
  | multiplePrimaryKeys => "Key set has more than one primary version"
  | unacceptablePurpose purpose context =>
    s!"Key set purpose {purpose.title} is unacceptable: {context}"
  | invalidSignature => "Signature or integrity trailer failed verification"
  | cryptoOperationFailed operation => s!"Cryptographic operation failed: {operation}"
  | algorithmUnavailable algorithm => s!"Algorithm unavailable: {algorithm}"
  | noPrimaryKey => "Key set has no primary version"
  | versionNotFound version => s!"Version {version} is not in the key set"
  | invalidStatusForRevocation version =>
    s!"Version {version} must be scheduled for revocation before it can be revoked"
  | exhaustedKeyGeneration attempts =>
    s!"Gave up generating a key with a unique hash after {attempts} attempts"
  | readerError reason => s!"Key set reader failed: {reason}"
  | badLength step expected actual =>
    s!"Expected length {expected}, got {actual} on step [{step}]"
  | badFormat reason => s!"Format of data is wrong: {reason}"
  | compressionFailed reason => s!"Compression failed: {reason}"
  | badKey => "Crypto key is weak or invalid"
  | unsupportedType tag => s!"Unsupported type tag: {tag}"
  | unsupportedKeySize algorithm size => s!"Unsupported key size {size} for {algorithm}"
  | notExportable reason => s!"Key cannot be exported: {reason}"

end Error

namespace KeyHash

def ofBytes (bs : Bytes) : Except Error KeyHash :=
  match ofBytes? bs with
  | some h => .ok h
  | none => .error (.badLength "get key hash" size bs.length)

def ofBase58 (text : String) : Except Error KeyHash :=
  match Text.Base58.decode? text with
  | some bs => ofBytes bs
  | none => .error (.badFormat "Not valid Base58")

end KeyHash

end Keyring
