import Keyring.Choice
/-!
This module contains the types of keys, one for each family and half.
-/

namespace Keyring

/-- The type of a key. All keys of a set have the same type. -/
inductive KeyType where
  | aes
  | hmac
  | rsaPrivate
  | rsaPublic
  | dsaPrivate
  | dsaPublic
deriving DecidableEq, Repr

namespace KeyType

instance : Choice KeyType where
  all := [.aes, .hmac, .rsaPrivate, .rsaPublic, .dsaPrivate, .dsaPublic]
  name
    | .aes => "aes"
    | .hmac => "hmac"
    | .rsaPrivate => "rsa_private"
    | .rsaPublic => "rsa_public"
    | .dsaPrivate => "dsa_private"
    | .dsaPublic => "dsa_public"

def tag : KeyType → UInt8
  | .aes => 1
  | .hmac => 2
  | .rsaPrivate => 3
  | .rsaPublic => 4
  | .dsaPrivate => 5
  | .dsaPublic => 6

def ofTag? (tag : UInt8) : Option KeyType :=
  Choice.all.find? fun t : KeyType => t.tag == tag

@[simp]
theorem ofTag?_tag (t : KeyType) : ofTag? t.tag = some t := by
  cases t <;> rfl

def title : KeyType → String
  | .aes => "AES"
  | .hmac => "HMAC-SHA1"
  | .rsaPrivate => "RSA private"
  | .rsaPublic => "RSA public"
  | .dsaPrivate => "DSA private"
  | .dsaPublic => "DSA public"

/-- The name of a type in descriptions of keys and key sets. -/
def label : KeyType → String
  | .aes => "Aes"
  | .hmac => "Hmac"
  | .rsaPrivate => "RsaPrivate"
  | .rsaPublic => "RsaPublic"
  | .dsaPrivate => "DsaPrivate"
  | .dsaPublic => "DsaPublic"

/-- Whether keys of this type are generated rather than derived from a private key. -/
def isGeneratable : KeyType → Bool
  | .rsaPublic | .dsaPublic => false
  | _ => true

def publicHalf? : KeyType → Option KeyType
  | .rsaPrivate => some .rsaPublic
  | .dsaPrivate => some .dsaPublic
  | _ => none

end KeyType

end Keyring
