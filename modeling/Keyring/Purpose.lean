import Keyring.KeyType
/-!
This module contains what a key set is for: its purpose, which decides the key types it may hold,
and the classes of operations, each of which accepts some purposes.
-/

namespace Keyring

/-- What a key set may be used for, fixed when the set is made. -/
inductive Purpose where
  | decryptAndEncrypt
  | encrypt
  | signAndVerify
  | verify
  | test
deriving DecidableEq, Repr

namespace Purpose

instance : Choice Purpose where
  all := [.decryptAndEncrypt, .encrypt, .signAndVerify, .verify, .test]
  name
    | .decryptAndEncrypt => "decrypt_and_encrypt"
    | .encrypt => "encrypt"
    | .signAndVerify => "sign_and_verify"
    | .verify => "verify"
    | .test => "test"

def tag : Purpose → UInt8
  | .decryptAndEncrypt => 0
  | .encrypt => 1
  | .signAndVerify => 2
  | .verify => 3
  | .test => 127

def ofTag? (tag : UInt8) : Option Purpose :=
  Choice.all.find? fun p : Purpose => p.tag == tag

@[simp]
theorem ofTag?_tag (p : Purpose) : ofTag? p.tag = some p := by
  cases p <;> rfl

def title : Purpose → String
  | .decryptAndEncrypt => "DecryptAndEncrypt"
  | .encrypt => "Encrypt"
  | .signAndVerify => "SignAndVerify"
  | .verify => "Verify"
  | .test => "Test"

/-- Whether a set with this purpose may hold keys of a type. -/
def accepts : Purpose → KeyType → Bool
  | .decryptAndEncrypt, .aes | .decryptAndEncrypt, .rsaPrivate => true
  | .encrypt, .rsaPublic => true
  | .signAndVerify, .hmac | .signAndVerify, .rsaPrivate | .signAndVerify, .dsaPrivate => true
  | .verify, .rsaPublic | .verify, .dsaPublic => true
  | .test, _ => true
  | _, _ => false

end Purpose

/-- The kind of front end that a key set is loaded for. -/
inductive OperationClass where
  | verifier
  | signer
  | encrypter
  | crypter
  | admin
deriving DecidableEq, Repr

namespace OperationClass

instance : Choice OperationClass where
  all := [.verifier, .signer, .encrypter, .crypter, .admin]
  name
    | .verifier => "verifier"
    | .signer => "signer"
    | .encrypter => "encrypter"
    | .crypter => "crypter"
    | .admin => "admin"

/-- Whether a set with some purpose can back this class of operation. Sets for tests can back any,
and administration accepts any. -/
def accepts : OperationClass → Purpose → Bool
  | .admin, _ => true
  | _, .test => true
  | .verifier, .signAndVerify | .verifier, .verify => true
  | .signer, .signAndVerify => true
  | .encrypter, .decryptAndEncrypt | .encrypter, .encrypt => true
  | .crypter, .decryptAndEncrypt => true
  | _, _ => false

theorem verifier_accepts_of_signer {p : Purpose} (h : signer.accepts p) : verifier.accepts p := by
  cases p <;> simp_all [accepts]

theorem encrypter_accepts_of_crypter {p : Purpose} (h : crypter.accepts p) :
    encrypter.accepts p := by
  cases p <;> simp_all [accepts]

end OperationClass

end Keyring
