import Keyring.Compression
import Keyring.Encoding
/-!
This module contains the settings of a key set: the sizes of new keys, how often a new key is tried,
and how plaintexts are compressed and outputs are written as text.
-/

namespace Keyring

/-- The settings of a key set. Sizes are in bits. -/
structure Config where
  aesKeyBits : UInt64 := 128
  hmacKeyBits : UInt64 := 256
  rsaKeyBits : UInt64 := 2048
  dsaKeyBits : UInt64 := 2048
  /-- How often a key is generated anew because its hash is taken. -/
  maxGenerationAttempts : UInt32 := 32
  encoding : Encoding := .webSafeBase64
  compression : Compression := .none
deriving DecidableEq

namespace Config

/-- The size of new keys of a type. Public types have the size of their private counterpart. -/
def keyBits (c : Config) : KeyType → UInt64
  | .aes => c.aesKeyBits
  | .hmac => c.hmacKeyBits
  | .rsaPrivate | .rsaPublic => c.rsaKeyBits
  | .dsaPrivate | .dsaPublic => c.dsaKeyBits

def validate (c : Config) : Except Error Unit :=
  if c.maxGenerationAttempts = 0 then
    .error (.badFormat "max_generation_attempts must be at least 1")
  else
    .ok ()

end Config

end Keyring
