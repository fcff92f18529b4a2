import Keyring.Bytes
/-!
This module contains the hexadecimal text of byte strings.
-/

namespace Keyring.Text.Hex

def lowerDigits : List Char := "0123456789abcdef".toList

def upperDigits : List Char := "0123456789ABCDEF".toList

def digitsOf (digits : List Char) (b : UInt8) : List Char :=
  [digits.getD (b.toNat / 16) '0', digits.getD (b.toNat % 16) '0']

def encode (bs : Bytes) : String :=
  String.ofList (bs.flatMap (digitsOf lowerDigits))

def encodeUpper (bs : Bytes) : String :=
  String.ofList (bs.flatMap (digitsOf upperDigits))

def digit? (c : Char) : Option Nat :=
  if '0' ≤ c ∧ c ≤ '9' then some (c.toNat - '0'.toNat)
  else if 'a' ≤ c ∧ c ≤ 'f' then some (c.toNat - 'a'.toNat + 10)
  else if 'A' ≤ c ∧ c ≤ 'F' then some (c.toNat - 'A'.toNat + 10)
  else none

/-- Reads pairs of digits of either case. -/
def decode? : List Char → Option Bytes
  | [] => some []
  | [_] => none
  | hi :: lo :: rest => do
    let hi ← digit? hi
    let lo ← digit? lo
    let rest ← decode? rest
    return UInt8.ofNat (16 * hi + lo) :: rest

end Keyring.Text.Hex
