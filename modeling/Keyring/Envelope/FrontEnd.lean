import Keyring.Envelope.Seal
/-!
This module contains the front ends of key sets. Each checks the purpose of its set once, when it is
made, and offers the operations that the purpose permits.
-/

namespace Keyring

structure Verifier where
  keySet : KeySet
  accepted : OperationClass.verifier.accepts keySet.purpose

structure Signer where
  keySet : KeySet
  accepted : OperationClass.signer.accepts keySet.purpose

/-- Verifies trailers without headers by trying every key. -/
structure UnversionedVerifier where
  keySet : KeySet
  accepted : OperationClass.verifier.accepts keySet.purpose

/-- Makes trailers without headers, for formats that have a framing of their own. -/
structure UnversionedSigner where
  keySet : KeySet
  accepted : OperationClass.signer.accepts keySet.purpose

structure Encrypter where
  keySet : KeySet
  accepted : OperationClass.encrypter.accepts keySet.purpose

structure Crypter where
  keySet : KeySet
  accepted : OperationClass.crypter.accepts keySet.purpose

namespace KeySet

def verifier (s : KeySet) : Except Error Verifier :=
  return ⟨s, (← s.accepting .verifier).down⟩

def signer (s : KeySet) : Except Error Signer :=
  return ⟨s, (← s.accepting .signer).down⟩

def unversionedVerifier (s : KeySet) : Except Error UnversionedVerifier :=
  return ⟨s, (← s.accepting .verifier).down⟩

def unversionedSigner (s : KeySet) : Except Error UnversionedSigner :=
  return ⟨s, (← s.accepting .signer).down⟩

def encrypter (s : KeySet) : Except Error Encrypter :=
  return ⟨s, (← s.accepting .encrypter).down⟩

def crypter (s : KeySet) : Except Error Crypter :=
  return ⟨s, (← s.accepting .crypter).down⟩

end KeySet

namespace Verifier

def verify (v : Verifier) (message signature : Bytes) : Except Error Bool :=
  v.keySet.verify message signature

def verifyEncoded (v : Verifier) (message : Bytes) (signature : String) : Except Error Bool := do
  v.verify message (← v.keySet.config.encoding.decode signature)

end Verifier

namespace Signer

def sign (s : Signer) (message : Bytes) : Except Error Bytes :=
  s.keySet.sign message

def signEncoded (s : Signer) (message : Bytes) : Except Error String :=
  return s.keySet.config.encoding.encode (← s.sign message)

def toVerifier (s : Signer) : Verifier :=
  ⟨s.keySet, OperationClass.verifier_accepts_of_signer s.accepted⟩

def verify (s : Signer) (message signature : Bytes) : Except Error Bool :=
  s.toVerifier.verify message signature

def verifyEncoded (s : Signer) (message : Bytes) (signature : String) : Except Error Bool :=
  s.toVerifier.verifyEncoded message signature

end Signer

/-- Whether a trailer over the message alone fits a key. -/
def Key.fits (k : Key) (message trailer : Bytes) : Except Error Bool :=
  return ((← k.verifyStream).update message).verify trailer

namespace UnversionedVerifier

/-- Tries the keys one after another until a trailer over the message alone fits. -/
def verify (v : UnversionedVerifier) (message trailer : Bytes) : Except Error Bool :=
  v.keySet.keys.anyM fun (_, key) => key.fits message trailer

def verifyEncoded (v : UnversionedVerifier) (message : Bytes) (trailer : String) :
    Except Error Bool := do
  v.verify message (← v.keySet.config.encoding.decode trailer)

end UnversionedVerifier

namespace UnversionedSigner

/-- The trailer of the primary key over the message alone. -/
def sign (s : UnversionedSigner) (message : Bytes) : Except Error Bytes := do
  let key ← s.keySet.primaryKey
  let stream ← key.signStream
  (stream.update message).sign

def signEncoded (s : UnversionedSigner) (message : Bytes) : Except Error String :=
  return s.keySet.config.encoding.encode (← s.sign message)

def toVerifier (s : UnversionedSigner) : UnversionedVerifier :=
  ⟨s.keySet, OperationClass.verifier_accepts_of_signer s.accepted⟩

def verify (s : UnversionedSigner) (message trailer : Bytes) : Except Error Bool :=
  s.toVerifier.verify message trailer

end UnversionedSigner

namespace Encrypter

def encrypt (e : Encrypter) (message : Bytes) : Drawing Bytes :=
  e.keySet.encrypt message

def encryptEncoded (e : Encrypter) (message : Bytes) : Drawing String :=
  return e.keySet.config.encoding.encode (← e.encrypt message)

end Encrypter

namespace Crypter

def toEncrypter (c : Crypter) : Encrypter :=
  ⟨c.keySet, OperationClass.encrypter_accepts_of_crypter c.accepted⟩

def encrypt (c : Crypter) (message : Bytes) : Drawing Bytes :=
  c.toEncrypter.encrypt message

def encryptEncoded (c : Crypter) (message : Bytes) : Drawing String :=
  c.toEncrypter.encryptEncoded message

def decrypt (c : Crypter) (ciphertext : Bytes) : Except Error Bytes :=
  c.keySet.decrypt ciphertext

def decryptEncoded (c : Crypter) (ciphertext : String) : Except Error Bytes := do
  c.decrypt (← c.keySet.config.encoding.decode ciphertext)

end Crypter

end Keyring
