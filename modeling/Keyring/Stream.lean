import Keyring.Cipher.Cbc
import Keyring.Key.Basic
/-!
This module contains streams. A key makes a new stream for every message. The stream takes the
message in pieces of any size and ends with one last call: a trailer, the verdict on a trailer, or
the rest of a ciphertext or plaintext.
-/

namespace Keyring

namespace HmacKey

/-- A digest that signs or checks a message. -/
def stream (k : HmacKey) : Except Error Digest.Hmac.State :=
  match Digest.Hmac.start? k.bytes with
  | some s => .ok s
  | none => .error (.algorithmUnavailable "HMAC-SHA1")

end HmacKey

namespace AesKey

/-- A digest under the integrity key. -/
def integrityStream (k : AesKey) : Except Error Digest.Hmac.State :=
  k.hmac.stream

end AesKey

inductive SignStream where
  | hmac (digest : Digest.Hmac.State)
  | rsa (key : RsaPrivateKey) (fed : Bytes)
  | dsa (key : DsaPrivateKey) (fed : Bytes)

namespace SignStream

def update (s : SignStream) (data : Bytes) : SignStream :=
  match s with
  | .hmac digest => .hmac (digest.update data)
  | .rsa key fed => .rsa key (fed ++ data)
  | .dsa key fed => .dsa key (fed ++ data)

/-- The trailer over everything that was fed in. -/
def sign : SignStream → Except Error Bytes
  | .hmac digest => .ok digest.finish
  | .rsa key fed => Rsa.Signature.sign key fed
  | .dsa key fed => Dsa.Signature.sign key fed

def describe : SignStream → String
  | .hmac _ => "SignStream(\"Hmac\")"
  | .rsa _ _ => "SignStream(\"Rsa\")"
  | .dsa _ _ => "SignStream(\"Dsa\")"

end SignStream

/-- The check of a trailer under way. -/
inductive VerifyStream where
  | hmac (digest : Digest.Hmac.State)
  | rsa (key : RsaPublicKey) (fed : Bytes)
  | dsa (key : DsaPublicKey) (fed : Bytes)

namespace VerifyStream

def update (s : VerifyStream) (data : Bytes) : VerifyStream :=
  match s with
  | .hmac digest => .hmac (digest.update data)
  | .rsa key fed => .rsa key (fed ++ data)
  | .dsa key fed => .dsa key (fed ++ data)

/-- Whether a trailer fits everything that was fed in. One of the wrong size does not. -/
def verify (s : VerifyStream) (trailer : Bytes) : Bool :=
  match s with
  | .hmac digest => trailer = digest.finish
  | .rsa key fed => Rsa.Signature.verify key fed trailer
  | .dsa key fed => Dsa.Signature.verify key fed trailer

def describe : VerifyStream → String
  | .hmac _ => "VerifyStream(\"Hmac\")"
  | .rsa _ _ => "VerifyStream(\"Rsa\")"
  | .dsa _ _ => "VerifyStream(\"Dsa\")"

end VerifyStream

inductive EncryptStream where
  /-- The initial block is handed out once. -/
  | aes (iv : Bytes) (ivTaken : Bool) (cipher : Cipher.Cbc.Encryptor)
  | rsa (key : RsaPublicKey) (fed : Bytes)

namespace EncryptStream

/-- What goes in front of the ciphertext, if it has not been asked for before. -/
def init : EncryptStream → EncryptStream × Bytes
  | .aes iv false cipher => (.aes iv true cipher, iv)
  | s => (s, [])

/-- Takes plaintext and returns the ciphertext that is ready. -/
def update (s : EncryptStream) (data : Bytes) : EncryptStream × Bytes :=
  match s with
  | .aes iv ivTaken cipher =>
    let (cipher, out) := cipher.update data
    (.aes iv ivTaken cipher, out)
  | .rsa key fed => (.rsa key (fed ++ data), [])

def finish : EncryptStream → Drawing Bytes
  | .aes _ _ cipher => return cipher.finish
  | .rsa key fed => Rsa.Oaep.encrypt key fed

def describe : EncryptStream → String
  | .aes _ _ _ => "EncryptStream(\"Aes\")"
  | .rsa _ _ => "EncryptStream(\"Rsa\")"

end EncryptStream

inductive DecryptStream where
  | aes (cipher : Cipher.Cbc.Decryptor)
  | rsa (key : RsaPrivateKey) (fed : Bytes)

namespace DecryptStream

/-- Takes ciphertext and returns the plaintext that is ready. -/
def update (s : DecryptStream) (data : Bytes) : Except Error (DecryptStream × Bytes) :=
  match s with
  | .aes cipher => do
    let (cipher, out) ← cipher.update data
    return (.aes cipher, out)
  | .rsa key fed => .ok (.rsa key (fed ++ data), [])

def finish : DecryptStream → Except Error Bytes
  | .aes cipher => cipher.finish
  | .rsa key fed => Rsa.Oaep.decrypt key fed

def describe : DecryptStream → String
  | .aes _ => "DecryptStream(\"Aes\")"
  | .rsa _ _ => "DecryptStream(\"Rsa\")"

end DecryptStream

namespace AesKey

/-- The descriptions of the streams of a key on their own: encryption, decryption, integrity. -/
def streamDescriptions (k : AesKey) (iv : Bytes) : Except Error (List String) := do
  let encryption ← Cipher.Cbc.Encryptor.start k.bytes iv
  let integrity ← k.integrityStream
  return [encryption.describe, (Cipher.Cbc.Decryptor.start k.bytes).describe, integrity.describe]

end AesKey

namespace Key

/-- A stream that signs. An AES key signs with its integrity key. -/
def signStream : Key → Except Error SignStream
  | .aes k => return .hmac (← k.integrityStream)
  | .hmac k => return .hmac (← k.stream)
  | .rsaPrivate k => .ok (.rsa k [])
  | .dsaPrivate k => .ok (.dsa k [])
  | .rsaPublic _ | .dsaPublic _ => .error (.algorithmUnavailable "public keys cannot sign")

def verifyStream : Key → Except Error VerifyStream
  | .aes k => return .hmac (← k.integrityStream)
  | .hmac k => return .hmac (← k.stream)
  | .rsaPrivate k => .ok (.rsa k.publicKey [])
  | .rsaPublic k => .ok (.rsa k [])
  | .dsaPrivate k => .ok (.dsa k.publicKey [])
  | .dsaPublic k => .ok (.dsa k [])

/-- A stream that encrypts. An AES key draws its initial block at once. -/
def encryptStream : Key → Drawing EncryptStream
  | .aes k => do
    let iv ← Drawing.bytes Cipher.Aes.blockSize
    return .aes iv false (← MonadExcept.ofExcept (Cipher.Cbc.Encryptor.start k.bytes iv))
  | .rsaPrivate k => return .rsa k.publicKey []
  | .rsaPublic k => return .rsa k []
  | _ => throw (.algorithmUnavailable "key cannot encrypt")

def decryptStream : Key → Except Error DecryptStream
  | .aes k => .ok (.aes (.start k.bytes))
  | .rsaPrivate k => .ok (.rsa k [])
  | _ => .error (.algorithmUnavailable "key cannot decrypt")

end Key

end Keyring
