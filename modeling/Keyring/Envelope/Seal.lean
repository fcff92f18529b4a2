import Keyring.Envelope.Header
import Keyring.KeySet.Basic
import Keyring.Stream
/-!
This module contains the signatures and ciphertexts that a key set makes and accepts:

* a signature is a header and a trailer over the header and the message
* a ciphertext is a header, what the cipher starts with, its body, and for some keys a trailer over
  all of these

A trailer on a ciphertext is checked before anything is decrypted.
-/

namespace Keyring.KeySet

def sign (s : KeySet) (message : Bytes) : Except Error Bytes := do
  let key ← s.primaryKey
  let header := (Header.mk key.hash).encode
  let stream ← key.signStream
  return header ++ (← ((stream.update header).update message).sign)

def keyOf (s : KeySet) (h : Header) : Except Error Key :=
  match s.keyByHash? h.hash with
  | some key => .ok key
  | none => .error (.keyNotFound h.hash)

/-- Whether a signature fits a message. Errors are for signatures that have no verdict. -/
def verify (s : KeySet) (message signature : Bytes) : Except Error Bool := do
  let (header, trailer) ← Header.decode .shortSignature signature
  let key ← s.keyOf header
  if trailer.length < key.digestSize then
    throw .shortSignature
  let stream ← key.verifyStream
  return ((stream.update (signature.take Header.size)).update message).verify trailer

def encrypt (s : KeySet) (message : Bytes) : Drawing Bytes := do
  let key ← MonadExcept.ofExcept s.primaryKey
  let message ← MonadExcept.ofExcept (s.config.compression.compress message)
  let header := (Header.mk key.hash).encode
  let stream ← key.encryptStream
  let (stream, start) := stream.init
  let (stream, body) := stream.update message
  let out := header ++ start ++ body ++ (← stream.finish)
  if key.ciphertextDigestSize > 0 then
    let integrity ← MonadExcept.ofExcept key.signStream
    return out ++ (← MonadExcept.ofExcept (integrity.update out).sign)
  else
    return out

/-- What lies between header and trailer, if the trailer fits. -/
def openTrailer (key : Key) (ciphertext rest : Bytes) : Except Error Bytes :=
  let size := key.ciphertextDigestSize
  if size = 0 then
    .ok rest
  else if rest.length < size then
    .error .shortCiphertext
  else do
    let signed := ciphertext.take (ciphertext.length - size)
    let trailer := ciphertext.drop (ciphertext.length - size)
    let integrity ← key.verifyStream
    if (integrity.update signed).verify trailer then
      return signed.drop Header.size
    else
      throw .invalidSignature

def decrypt (s : KeySet) (ciphertext : Bytes) : Except Error Bytes := do
  let (header, rest) ← Header.decode .shortCiphertext ciphertext
  let key ← s.keyOf header
  let body ← openTrailer key ciphertext rest
  let stream ← key.decryptStream
  let (stream, start) ← stream.update body
  s.config.compression.decompress (start ++ (← stream.finish))

end Keyring.KeySet
