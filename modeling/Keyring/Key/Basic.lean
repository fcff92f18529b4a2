import Keyring.Key.Symmetric
import Keyring.Rsa.Signature
import Keyring.Rsa.Oaep
import Keyring.Dsa.Signature
/-!
This module contains keys of every family, with what all of them have in common: a type, a hash,
sizes and capabilities.
-/

namespace Keyring

inductive Key where
  | aes (key : AesKey)
  | hmac (key : HmacKey)
  | rsaPrivate (key : RsaPrivateKey)
  | rsaPublic (key : RsaPublicKey)
  | dsaPrivate (key : DsaPrivateKey)
  | dsaPublic (key : DsaPublicKey)
deriving DecidableEq

/-- The operations that a key has streams for. -/
structure Capabilities where
  sign : Bool := false
  verify : Bool := false
  encrypt : Bool := false
  decrypt : Bool := false
deriving DecidableEq

namespace Capabilities

/-- The capabilities as the bits of a number, signing lowest. -/
def bits (c : Capabilities) : Nat :=
  c.sign.toNat + 2 * c.verify.toNat + 4 * c.encrypt.toNat + 8 * c.decrypt.toNat

def names (c : Capabilities) : List String :=
  [(c.sign, "sign"), (c.verify, "verify"), (c.encrypt, "encrypt"), (c.decrypt, "decrypt")].filterMap
    fun (has, name) => if has then some name else none

end Capabilities

namespace Key

def type : Key → KeyType
  | .aes _ => .aes
  | .hmac _ => .hmac
  | .rsaPrivate _ => .rsaPrivate
  | .rsaPublic _ => .rsaPublic
  | .dsaPrivate _ => .dsaPrivate
  | .dsaPublic _ => .dsaPublic

/-- The identifier that goes into the headers of signatures and ciphertexts. -/
def hash : Key → KeyHash
  | .aes k => k.hash
  | .hmac k => k.hash
  | .rsaPrivate k => k.hash
  | .rsaPublic k => k.hash
  | .dsaPrivate k => k.hash
  | .dsaPublic k => k.hash

/-- The size of the cipher key, or of the modulus of an asymmetric key, in bits. -/
def bits : Key → Nat
  | .aes k => k.bits
  | .hmac k => k.bits
  | .rsaPrivate k => k.publicKey.bits
  | .rsaPublic k => k.bits
  | .dsaPrivate k => k.publicKey.bits
  | .dsaPublic k => k.bits

def capabilities : Key → Capabilities
  | .aes _ | .rsaPrivate _ => ⟨true, true, true, true⟩
  | .hmac _ | .dsaPrivate _ => ⟨true, true, false, false⟩
  | .rsaPublic _ => ⟨false, true, true, false⟩
  | .dsaPublic _ => ⟨false, true, false, false⟩

/-- The size of the trailer that signing makes. -/
def digestSize : Key → Nat
  | .aes _ | .hmac _ => Digest.Sha1.size
  | .rsaPrivate k => k.publicKey.size
  | .rsaPublic k => k.size
  | .dsaPrivate k => k.publicKey.signatureSize
  | .dsaPublic k => k.signatureSize

/-- The size of the integrity trailer on ciphertexts. Only those of AES keys have one. -/
def ciphertextDigestSize : Key → Nat
  | .aes _ => Digest.Sha1.size
  | _ => 0

/-- The size of what comes out for an input of some size: a ciphertext without its header if the key
encrypts, otherwise the trailer of a signature. -/
def maxOutputSize (k : Key) (inputSize : Nat) : Nat :=
  match k with
  | .aes _ => AesKey.outputSize inputSize
  | _ => k.digestSize

def publicHalf : Key → Except Error Key
  | .rsaPrivate k => .ok (.rsaPublic k.publicKey)
  | .dsaPrivate k => .ok (.dsaPublic k.publicKey)
  | .rsaPublic k => .ok (.rsaPublic k)
  | .dsaPublic k => .ok (.dsaPublic k)
  | .aes _ | .hmac _ => .error (.notExportable "symmetric keys have no public half")

def describe : Key → String
  | .aes k => s!"Aes(AesKey \x7b bits: {k.bits}, hash: {k.hash.describe}, hmac: {hmacText k.hmac} \x7d)"
  | .hmac k => s!"Hmac({hmacText k})"
  | .rsaPrivate k => s!"RsaPrivate(RsaPrivKey \x7b public: {rsaText k.publicKey}, .. \x7d)"
  | .rsaPublic k => s!"RsaPublic({rsaText k})"
  | .dsaPrivate k => s!"DsaPrivate(DsaPrivKey \x7b public: {dsaText k.publicKey}, .. \x7d)"
  | .dsaPublic k => s!"DsaPublic({dsaText k})"
where
  hmacText (k : HmacKey) : String :=
    s!"HmacKey \x7b bits: {k.bits}, hash: {k.hash.describe} \x7d"
  rsaText (k : RsaPublicKey) : String :=
    s!"RsaPubKey \x7b bits: {k.bits}, hash: {k.hash.describe} \x7d"
  dsaText (k : DsaPublicKey) : String :=
    s!"DsaPubKey \x7b bits: {k.bits}, hash: {k.hash.describe} \x7d"

end Key

end Keyring
