import Keyring.Config
import Keyring.Serial.Basic
/-!
This module contains the JSON form and the compact form of settings. In JSON what is not given has
its default.
-/

namespace Keyring.Config

open Serial

/-- The members of settings that have been read. -/
structure Draft where
  aesKeyBits : Option UInt64 := none
  hmacKeyBits : Option UInt64 := none
  rsaKeyBits : Option UInt64 := none
  dsaKeyBits : Option UInt64 := none
  maxGenerationAttempts : Option UInt32 := none
  encoding : Option Encoding := none
  compression : Option Compression := none

/-- The settings with some members and the default for all others. -/
def ofMembers (s : Draft) : Config :=
  let default : Config := {}
  { aesKeyBits := s.aesKeyBits.getD default.aesKeyBits
    hmacKeyBits := s.hmacKeyBits.getD default.hmacKeyBits
    rsaKeyBits := s.rsaKeyBits.getD default.rsaKeyBits
    dsaKeyBits := s.dsaKeyBits.getD default.dsaKeyBits
    maxGenerationAttempts := s.maxGenerationAttempts.getD default.maxGenerationAttempts
    encoding := s.encoding.getD default.encoding
    compression := s.compression.getD default.compression }

def toValue (c : Config) : Json.Value :=
  .object [
    ("aes_key_bits", .number (.natural c.aesKeyBits.toNat)),
    ("hmac_key_bits", .number (.natural c.hmacKeyBits.toNat)),
    ("rsa_key_bits", .number (.natural c.rsaKeyBits.toNat)),
    ("dsa_key_bits", .number (.natural c.dsaKeyBits.toNat)),
    ("max_generation_attempts", .number (.natural c.maxGenerationAttempts.toNat)),
    ("encoding", .text (Choice.name c.encoding)),
    ("compression", .text (Choice.name c.compression))]

def readMember (s : Draft) (key : String) (d : Json.Draft) : Except Refusal Draft := do
  match key with
  | "aes_key_bits" =>
    return { s with aesKeyBits := ← Draft.readOnce key s.aesKeyBits Draft.readUInt64 d }
  | "hmac_key_bits" =>
    return { s with hmacKeyBits := ← Draft.readOnce key s.hmacKeyBits Draft.readUInt64 d }
  | "rsa_key_bits" =>
    return { s with rsaKeyBits := ← Draft.readOnce key s.rsaKeyBits Draft.readUInt64 d }
  | "dsa_key_bits" =>
    return { s with dsaKeyBits := ← Draft.readOnce key s.dsaKeyBits Draft.readUInt64 d }
  | "max_generation_attempts" =>
    return { s with
      maxGenerationAttempts := ← Draft.readOnce key s.maxGenerationAttempts Draft.readUInt32 d }
  | "encoding" =>
    return { s with encoding := ← Draft.readOnce key s.encoding Draft.readChoice d }
  | "compression" =>
    return { s with compression := ← Draft.readOnce key s.compression Draft.readChoice d }
  | _ =>
    Draft.skip d
    return s

def memberNames : List String :=
  ["aes_key_bits", "hmac_key_bits", "rsa_key_bits", "dsa_key_bits", "max_generation_attempts",
    "encoding", "compression"]

/-- Reads an object of members in any order or an array of the first of them in order. -/
def ofDraft : Json.Draft → Except Refusal Config
  | .object members isClosed => ofMembers <$> Draft.readMembers readMember isClosed {} members
  | .array items isClosed => do
    let s ← (memberNames.zip items).foldlM (fun s (key, d) => readMember s key d) {}
    Draft.endItems isClosed (items.drop memberNames.length)
    return ofMembers s
  | d => .error (unexpected "struct KeysetConfig" d)

def toCompact (c : Config) : Bytes :=
  Compact.writeUInt64 c.aesKeyBits ++ Compact.writeUInt64 c.hmacKeyBits ++
    Compact.writeUInt64 c.rsaKeyBits ++ Compact.writeUInt64 c.dsaKeyBits ++
    Compact.writeUInt32 c.maxGenerationAttempts ++ Compact.writeChoice c.encoding ++
    Compact.writeChoice c.compression

def readCompact (bs : Bytes) : Except Refusal (Config × Bytes) := do
  let (aesKeyBits, bs) ← Compact.readUInt64 bs
  let (hmacKeyBits, bs) ← Compact.readUInt64 bs
  let (rsaKeyBits, bs) ← Compact.readUInt64 bs
  let (dsaKeyBits, bs) ← Compact.readUInt64 bs
  let (maxGenerationAttempts, bs) ← Compact.readUInt32 bs
  let (encoding, bs) ← Compact.readChoice bs
  let (compression, bs) ← Compact.readChoice bs
  return (⟨aesKeyBits, hmacKeyBits, rsaKeyBits, dsaKeyBits, maxGenerationAttempts, encoding,
    compression⟩, bs)

instance : Serial Config := ⟨toValue, ofDraft, toCompact, readCompact⟩

end Keyring.Config
