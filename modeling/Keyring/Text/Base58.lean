import Keyring.Bytes
/-!
This module contains base 58: a byte string as a number written over 58 digits that are hard to
mistake for one another, with one `1` in front for each leading zero byte.
-/

namespace Keyring.Text.Base58

def alphabet : List Char :=
  "123456789ABCDEFGHJKLMNPQRSTUVWXYZabcdefghijkmnopqrstuvwxyz".toList

def digit? (c : Char) : Option Nat :=
  alphabet.idxOf? c

def charOf (digit : Nat) : Char :=
  alphabet.getD digit '1'

/-- The digits of a number, most significant first. Zero has none. -/
def digitsOf (n : Nat) : List Nat :=
  go n []
where
  go (n : Nat) (acc : List Nat) : List Nat :=
    if n = 0 then acc else go (n / 58) (n % 58 :: acc)
  termination_by n
  decreasing_by omega

/-- The number that digits spell, most significant first. -/
def value (digits : List Nat) : Nat :=
  digits.foldl (fun n d => n * 58 + d) 0

def encode (bs : Bytes) : String :=
  let zeros := (bs.takeWhile (· == 0)).length
  String.ofList (List.replicate zeros '1' ++ (digitsOf (Bytes.toNat bs)).map charOf)

/-- Reads a text over the alphabet. Each leading `1` is a zero byte, and the rest is a number. -/
def decode? (text : String) : Option Bytes := do
  let digits ← text.toList.mapM digit?
  let zeros := (digits.takeWhile (· == 0)).length
  return List.replicate zeros 0 ++ Bytes.ofNat (value digits)

end Keyring.Text.Base58
