import Keyring.Key.Basic
/-!
This module contains the encoding of keys as a byte for the type and then a fixed number of fields,
each after its length:

* AES: the AES key, the HMAC key
* HMAC: the key
* RSA private: `n`, `e`, `d`, `p`, `q`
* RSA public: `n`, `e`
* DSA private: `p`, `q`, `g`, `y`, `x`
* DSA public: `p`, `q`, `g`, `y`

Numbers are big-endian. They are written without leading zero bytes, but read with any.
-/

namespace Keyring

namespace KeyType

def decode (tag : UInt8) : Except Error KeyType :=
  match ofTag? tag with
  | some type => .ok type
  | none => .error (.unsupportedType tag)

/-- What the fields of a key are called when one of them cannot be read. -/
def fieldSteps : KeyType → List String
  | .aes => ["get AES key", "get HMAC key"]
  | .hmac => ["get HMAC key"]
  | .rsaPrivate =>
    ["get RSA modulus", "get RSA public exponent", "get RSA private exponent", "get RSA prime p",
      "get RSA prime q"]
  | .rsaPublic => ["get RSA modulus", "get RSA public exponent"]
  | .dsaPrivate => ["get DSA p", "get DSA q", "get DSA g", "get DSA y", "get DSA x"]
  | .dsaPublic => ["get DSA p", "get DSA q", "get DSA g", "get DSA y"]

end KeyType

namespace Key

def fields : Key → List Bytes
  | .aes k => [k.bytes, k.hmac.bytes]
  | .hmac k => [k.bytes]
  | .rsaPrivate k =>
    [k.publicKey.modulus, k.publicKey.exponent, k.exponent, k.p, k.q].map Bytes.ofNat
  | .rsaPublic k => [k.modulus, k.exponent].map Bytes.ofNat
  | .dsaPrivate k =>
    [k.publicKey.p, k.publicKey.q, k.publicKey.g, k.publicKey.y, k.x].map Bytes.ofNat
  | .dsaPublic k => [k.p, k.q, k.g, k.y].map Bytes.ofNat

/-- Builds a key out of its fields, if they are valid. -/
def ofFields : KeyType → List Bytes → Except Error Key
  | .aes, [cipherKey, integrityKey] => do
    let integrityKey ← HmacKey.ofBytes integrityKey
    return .aes (← AesKey.ofBytes cipherKey integrityKey)
  | .hmac, [key] => return .hmac (← HmacKey.ofBytes key)
  | .rsaPrivate, [n, e, d, p, q] => return .rsaPrivate (← RsaPrivateKey.ofComponents n e d p q)
  | .rsaPublic, [n, e] => return .rsaPublic (← RsaPublicKey.ofComponents n e)
  | .dsaPrivate, [p, q, g, y, x] => return .dsaPrivate (← DsaPrivateKey.ofComponents p q g y x)
  | .dsaPublic, [p, q, g, y] => return .dsaPublic (← DsaPublicKey.ofComponents p q g y)
  | _, _ => .error .badKey

def encode (k : Key) : Bytes :=
  k.type.tag :: k.fields.flatMap Bytes.field

def readField (step : String) (data : Bytes) : Except Error (Bytes × Bytes) :=
  if data.length < 4 then
    .error (.badLength step 4 data.length)
  else
    let size := Bytes.toNat (data.take 4)
    let rest := data.drop 4
    if rest.length < size then
      .error (.badLength step size rest.length)
    else
      .ok (rest.take size, rest.drop size)

def readFields : List String → Bytes → Except Error (List Bytes × Bytes)
  | [], data => .ok ([], data)
  | step :: steps, data => do
    let (field, data) ← readField step data
    let (fields, data) ← readFields steps data
    return (field :: fields, data)

/-- Reads an encoded key. Faults of the key come before bytes that follow it. -/
def decode : Bytes → Except Error Key
  | [] => .error (.badLength "get key type" 1 0)
  | tag :: data => do
    let type ← KeyType.decode tag
    let (fields, rest) ← readFields type.fieldSteps data
    let key ← ofFields type fields
    if rest.isEmpty then
      return key
    else
      throw (.badLength "end of key fields" 0 rest.length)

end Key

end Keyring
