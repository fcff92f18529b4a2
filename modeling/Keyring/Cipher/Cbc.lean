import Keyring.Cipher.Aes
import Keyring.Cipher.Padding
import Keyring.Error
/-!
This module contains AES in the mode that adds each block of ciphertext to the next block of
plaintext, for whole messages and for messages that arrive in pieces.
-/

namespace Keyring.Cipher.Cbc

/-- The blocks of ciphertext, the first of which follows the block `chain`. -/
def encryptBlocks (keys : List Bytes) : Bytes → List Bytes → List Bytes
  | _, [] => []
  | chain, block :: blocks =>
    let block := Aes.encryptBlock keys (Bytes.xor block chain)
    block :: encryptBlocks keys block blocks

/-- The blocks of plaintext, the first of which follows the block `chain` of ciphertext. -/
def decryptBlocks (keys : List Bytes) : Bytes → List Bytes → List Bytes
  | _, [] => []
  | chain, block :: blocks =>
    Bytes.xor (Aes.decryptBlock keys block) chain :: decryptBlocks keys block blocks

/-- The ciphertext of a whole message, without its initial block. -/
def encrypt (key iv message : Bytes) : Bytes :=
  let blocks := Bytes.blocks Aes.blockSize (Padding.pad Aes.blockSize message)
  (encryptBlocks (Aes.roundKeys key) iv blocks).flatten

/-- The variants of the cipher, one for each size of keys. -/
inductive Variant where
  | aes128
  | aes192
  | aes256

namespace Variant

def keySize : Variant → Nat
  | .aes128 => 16
  | .aes192 => 24
  | .aes256 => 32

def ofKeySize? : Nat → Option Variant
  | 16 => some .aes128
  | 24 => some .aes192
  | 32 => some .aes256
  | _ => none

/-- The round keys for a message, if key and initial block have the sizes that the variant needs. -/
def roundKeys? (v : Variant) (key iv : Bytes) : Option (List Bytes) :=
  if key.length = v.keySize ∧ iv.length = Aes.blockSize then
    some (Aes.roundKeys key)
  else
    none

end Variant

def unavailable : Error :=
  .algorithmUnavailable "AES-CBC"

/-- The round keys for a message with the initial block `iv`. The size of the key decides the
variant. -/
def setUp (key iv : Bytes) : Except Error (List Bytes) :=
  match Variant.ofKeySize? key.length with
  | some v =>
    match v.roundKeys? key iv with
    | some keys => .ok keys
    | none => .error unavailable
  | none => .error unavailable

/-- An encryption under way, which holds back a partial block until more data completes it. -/
structure Encryptor where
  keys : List Bytes
  /-- The last block of ciphertext so far. -/
  chain : Bytes
  pending : Bytes := []

namespace Encryptor

def start (key iv : Bytes) : Except Error Encryptor :=
  return ⟨← setUp key iv, iv, []⟩

def update (e : Encryptor) (data : Bytes) : Encryptor × Bytes :=
  let data := e.pending ++ data
  let ready := data.length - data.length % Aes.blockSize
  let blocks := encryptBlocks e.keys e.chain (Bytes.blocks Aes.blockSize (data.take ready))
  ({ e with chain := blocks.getLastD e.chain, pending := data.drop ready }, blocks.flatten)

def finish (e : Encryptor) : Bytes :=
  let blocks := Bytes.blocks Aes.blockSize (Padding.pad Aes.blockSize e.pending)
  (encryptBlocks e.keys e.chain blocks).flatten

def describe (e : Encryptor) : String :=
  s!"AesEncryptStream \x7b pending: {e.pending.length}, .. \x7d"

end Encryptor

/-- A decryption under way. Its first block is the initial block, and it holds back the last full
block, which carries the padding. -/
inductive Decryptor where
  | awaitingIv (key : Bytes) (collected : Bytes)
  | running (keys : List Bytes) (chain : Bytes) (pending : Bytes)

namespace Decryptor

def start (key : Bytes) : Decryptor :=
  .awaitingIv key []

def decryptReady (keys : List Bytes) (chain pending : Bytes) : Decryptor × Bytes :=
  let ready := (pending.length - 1) / Aes.blockSize * Aes.blockSize
  let blocks := Bytes.blocks Aes.blockSize (pending.take ready)
  (.running keys (blocks.getLastD chain) (pending.drop ready),
    (decryptBlocks keys chain blocks).flatten)

def update (d : Decryptor) (data : Bytes) : Except Error (Decryptor × Bytes) :=
  match d with
  | .awaitingIv key collected =>
    let collected := collected ++ data
    if collected.length < Aes.blockSize then
      .ok (.awaitingIv key collected, [])
    else do
      let iv := collected.take Aes.blockSize
      let keys ← setUp key iv
      return decryptReady keys iv (collected.drop Aes.blockSize)
  | .running keys chain pending => .ok (decryptReady keys chain (pending ++ data))

def finish (d : Decryptor) : Except Error Bytes :=
  match d with
  | .awaitingIv _ _ => .error .shortCiphertext
  | .running keys chain pending =>
    if pending.length = Aes.blockSize then
      match Padding.unpad? Aes.blockSize (Bytes.xor (Aes.decryptBlock keys pending) chain) with
      | some bs => .ok bs
      | none => .error (.cryptoOperationFailed "bad padding")
    else
      .error (.cryptoOperationFailed "ciphertext is not a whole number of blocks")

def describe (_ : Decryptor) : String :=
  "AesDecryptStream \x7b .. \x7d"

end Decryptor

end Keyring.Cipher.Cbc
