import Keyring.Bytes
/-!
This module contains base 64 in its two spellings: the standard alphabet with padding to a multiple
of four characters, and the URL-safe alphabet without padding. Reading is strict. Only what writing
produces is read, so padding is neither optional nor tolerated, and the unused bits of the last
character are zero.
-/

namespace Keyring.Text.Base64

/-- A spelling of base 64: its digits 62 and 63, and whether the last group is padded. -/
structure Spelling where
  plus : Char
  slash : Char
  padded : Bool

def standard : Spelling := ⟨'+', '/', true⟩

def webSafe : Spelling := ⟨'-', '_', false⟩

namespace Spelling

/-- The character of a digit below 64. -/
def charOf (sp : Spelling) (d : Nat) : Char :=
  if d < 26 then Char.ofNat ('A'.toNat + d)
  else if d < 52 then Char.ofNat ('a'.toNat + (d - 26))
  else if d < 62 then Char.ofNat ('0'.toNat + (d - 52))
  else if d = 62 then sp.plus
  else sp.slash

def digit? (sp : Spelling) (c : Char) : Option Nat :=
  if 'A' ≤ c ∧ c ≤ 'Z' then some (c.toNat - 'A'.toNat)
  else if 'a' ≤ c ∧ c ≤ 'z' then some (c.toNat - 'a'.toNat + 26)
  else if '0' ≤ c ∧ c ≤ '9' then some (c.toNat - '0'.toNat + 52)
  else if c = sp.plus then some 62
  else if c = sp.slash then some 63
  else none

def padding (sp : Spelling) (n : Nat) : List Char :=
  if sp.padded then List.replicate n '=' else []

/-- Three bytes make four characters; one or two bytes left over make two or three. -/
def encodeChars (sp : Spelling) : Bytes → List Char
  | [] => []
  | [a] =>
    let n := a.toNat * 16
    sp.charOf (n / 64) :: sp.charOf (n % 64) :: sp.padding 2
  | [a, b] =>
    let n := (a.toNat * 256 + b.toNat) * 4
    sp.charOf (n / 4096) :: sp.charOf (n / 64 % 64) :: sp.charOf (n % 64) :: sp.padding 1
  | a :: b :: c :: rest =>
    let n := (a.toNat * 256 + b.toNat) * 256 + c.toNat
    sp.charOf (n / 262144) :: sp.charOf (n / 4096 % 64) :: sp.charOf (n / 64 % 64) ::
      sp.charOf (n % 64) :: encodeChars sp rest

/-- One byte out of two digits, whose last four bits are unused. -/
def oneByte? (d₁ d₂ : Nat) : Option Bytes :=
  if d₂ % 16 = 0 then some [UInt8.ofNat (d₁ * 4 + d₂ / 16)] else none

/-- Two bytes out of three digits, whose last two bits are unused. -/
def twoBytes? (d₁ d₂ d₃ : Nat) : Option Bytes :=
  if d₃ % 4 = 0 then
    some [UInt8.ofNat (d₁ * 4 + d₂ / 16), UInt8.ofNat (d₂ * 16 + d₃ / 4)]
  else
    none

def threeBytes (d₁ d₂ d₃ d₄ : Nat) : Bytes :=
  [UInt8.ofNat (d₁ * 4 + d₂ / 16), UInt8.ofNat (d₂ * 16 + d₃ / 4), UInt8.ofNat (d₃ * 64 + d₄)]

/-- Reads the characters of a whole text, four at a time. -/
def decodeChars? (sp : Spelling) : List Char → Option Bytes
  | [] => some []
  | [_] => none
  | [c₁, c₂] => do
    if sp.padded then none
    oneByte? (← sp.digit? c₁) (← sp.digit? c₂)
  | [c₁, c₂, c₃] => do
    if sp.padded then none
    twoBytes? (← sp.digit? c₁) (← sp.digit? c₂) (← sp.digit? c₃)
  | c₁ :: c₂ :: c₃ :: c₄ :: rest =>
    if sp.padded ∧ rest = [] ∧ c₄ = '=' then do
      if c₃ = '=' then
        oneByte? (← sp.digit? c₁) (← sp.digit? c₂)
      else
        twoBytes? (← sp.digit? c₁) (← sp.digit? c₂) (← sp.digit? c₃)
    else do
      let group := threeBytes (← sp.digit? c₁) (← sp.digit? c₂) (← sp.digit? c₃) (← sp.digit? c₄)
      return group ++ (← decodeChars? sp rest)

def encode (sp : Spelling) (bs : Bytes) : String :=
  String.ofList (sp.encodeChars bs)

def decode? (sp : Spelling) (text : String) : Option Bytes :=
  sp.decodeChars? text.toList

end Spelling

end Keyring.Text.Base64
