import Keyring.Error
/-!
This module contains the header of signatures and ciphertexts, a byte for their format and the hash
of the key that made them.
-/

namespace Keyring

structure Header where
  hash : KeyHash
deriving DecidableEq

namespace Header

def size : Nat := 5

def formatVersion : UInt8 := 0

def encode (h : Header) : Bytes :=
  formatVersion :: h.hash.bytes

/-- Splits a header off the front. Where there are too few bytes the error is `short`. -/
def decode (short : Error) (data : Bytes) : Except Error (Header × Bytes) :=
  match data with
  | version :: b₁ :: b₂ :: b₃ :: b₄ :: rest =>
    if version = formatVersion then
      .ok (⟨⟨[b₁, b₂, b₃, b₄], rfl⟩⟩, rest)
    else
      .error (.badVersion version)
  | _ => .error short

def describe (h : Header) : String :=
  s!"Header \x7b hash: {h.hash.describe} \x7d"

end Header

end Keyring
