import Keyring.Bytes
/-!
This module contains the bits of compressed data. Each byte gives its lowest bit first, numbers come
lowest bit first, and the words of a prefix code come highest bit first.
-/

namespace Keyring.Deflate

abbrev Bits := List Bool

namespace Bits

/-- The low `n` bits of a number, lowest first. -/
def ofNumber : Nat → Nat → Bits
  | 0, _ => []
  | n + 1, v => (v % 2 == 1) :: ofNumber n (v / 2)

/-- The low `n` bits of a number, highest first. -/
def ofWord (n v : Nat) : Bits :=
  (ofNumber n v).reverse

def readNumber : Nat → Bits → Option (Nat × Bits)
  | 0, bits => some (0, bits)
  | _ + 1, [] => none
  | n + 1, b :: bits => do
    let (v, bits) ← readNumber n bits
    return (b.toNat + 2 * v, bits)

def readNumbers (width : Nat) : Nat → Bits → Option (List Nat × Bits)
  | 0, bits => some ([], bits)
  | n + 1, bits => do
    let (v, bits) ← readNumber width bits
    let (vs, bits) ← readNumbers width n bits
    return (v :: vs, bits)

def ofBytes (bs : Bytes) : Bits :=
  bs.flatMap fun b => ofNumber 8 b.toNat

def toNumber : Bits → Nat
  | [] => 0
  | b :: bits => b.toNat + 2 * toNumber bits

/-- The bytes that hold the bits, the last of which is filled up with zeros. -/
def toBytes : Bits → Bytes
  | b₀ :: b₁ :: b₂ :: b₃ :: b₄ :: b₅ :: b₆ :: b₇ :: bits =>
    UInt8.ofNat (toNumber [b₀, b₁, b₂, b₃, b₄, b₅, b₆, b₇]) :: toBytes bits
  | [] => []
  | bits => [UInt8.ofNat (toNumber bits)]

theorem length_of_readNumber {n : Nat} {bits rest : Bits} {v : Nat}
    (h : readNumber n bits = some (v, rest)) : rest.length ≤ bits.length := by
  induction n generalizing bits v with
  | zero => simp_all [readNumber]
  | succ n ih =>
    cases bits with
    | nil => simp [readNumber] at h
    | cons b bits =>
      simp only [readNumber, Option.bind_eq_bind, Option.bind_eq_some_iff] at h
      obtain ⟨⟨w, rest'⟩, h₁, h₂⟩ := h
      obtain ⟨rfl, rfl⟩ : b.toNat + 2 * w = v ∧ rest' = rest := by simpa using h₂
      exact Nat.le_succ_of_le (ih h₁)

theorem length_of_readNumbers {width n : Nat} {bits rest : Bits} {vs : List Nat}
    (h : readNumbers width n bits = some (vs, rest)) : rest.length ≤ bits.length := by
  induction n generalizing bits vs with
  | zero => simp_all [readNumbers]
  | succ n ih =>
    simp only [readNumbers, Option.bind_eq_bind, Option.bind_eq_some_iff] at h
    obtain ⟨⟨v, rest₁⟩, h₁, ⟨vs', rest₂⟩, h₂, h₃⟩ := h
    obtain ⟨rfl, rfl⟩ : v :: vs' = vs ∧ rest₂ = rest := by simpa using h₃
    exact Nat.le_trans (ih h₂) (length_of_readNumber h₁)

end Bits

end Keyring.Deflate
