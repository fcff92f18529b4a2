import Keyring.Deflate.PrefixCode
/-!
This module contains what the blocks of compressed data say: bytes, copies of earlier bytes, and the
end of a block. It also has the pair of codes that blocks without codes of their own use.
-/

namespace Keyring.Deflate

inductive Symbol where
  | literal (byte : UInt8)
  /-- Repeats `length` bytes from `distance` bytes back. -/
  | copy (length distance : Nat)
  | endOfBlock
deriving DecidableEq

/-- The least length of each length symbol, from 257 on, and how many bits add to it. -/
def lengthRanges : Array (Nat × Nat) := #[
  (3, 0), (4, 0), (5, 0), (6, 0), (7, 0), (8, 0), (9, 0), (10, 0), (11, 1), (13, 1), (15, 1),
  (17, 1), (19, 2), (23, 2), (27, 2), (31, 2), (35, 3), (43, 3), (51, 3), (59, 3), (67, 4), (83, 4),
  (99, 4), (115, 4), (131, 5), (163, 5), (195, 5), (227, 5), (258, 0)]

/-- The least distance of each distance symbol, and how many bits add to it. -/
def distanceRanges : Array (Nat × Nat) := #[
  (1, 0), (2, 0), (3, 0), (4, 0), (5, 1), (7, 1), (9, 2), (13, 2), (17, 3), (25, 3), (33, 4),
  (49, 4), (65, 5), (97, 5), (129, 6), (193, 6), (257, 7), (385, 7), (513, 8), (769, 8), (1025, 9),
  (1537, 9), (2049, 10), (3073, 10), (4097, 11), (6145, 11), (8193, 12), (12289, 12), (16385, 13),
  (24577, 13)]

/-- The codes of a block, for bytes and lengths and for distances. -/
structure BlockCodes where
  literals : PrefixCode
  distances : PrefixCode

namespace BlockCodes

/-- Word lengths of the literals where a block has no codes of its own. -/
def fixedLiteralLengths : List Nat :=
  List.replicate 144 8 ++ List.replicate 112 9 ++ List.replicate 24 7 ++ List.replicate 8 8

def fixedDistanceLengths : List Nat :=
  List.replicate 32 5

def fixed : BlockCodes :=
  ⟨.ofLengths fixedLiteralLengths, .ofLengths fixedDistanceLengths⟩

end BlockCodes

namespace Symbol

/-- Reads a range symbol's additional bits. -/
def readInRange (ranges : Array (Nat × Nat)) (i : Nat) (bits : Bits) : Option (Nat × Bits) := do
  let (least, extra) ← ranges[i]?
  let (n, bits) ← Bits.readNumber extra bits
  return (least + n, bits)

def read (codes : BlockCodes) (bits : Bits) : Option (Symbol × Bits) := do
  let (i, bits) ← codes.literals.read bits
  if i < 256 then
    return (.literal (UInt8.ofNat i), bits)
  else if i = 256 then
    return (.endOfBlock, bits)
  else
    let (length, bits) ← readInRange lengthRanges (i - 257) bits
    let (j, bits) ← codes.distances.read bits
    let (distance, bits) ← readInRange distanceRanges j bits
    return (.copy length distance, bits)

theorem length_of_readInRange {ranges : Array (Nat × Nat)} {i v : Nat} {bits rest : Bits}
    (h : readInRange ranges i bits = some (v, rest)) : rest.length ≤ bits.length := by
  simp only [readInRange, Option.bind_eq_bind, Option.bind_eq_some_iff] at h
  obtain ⟨_, _, ⟨_, rest'⟩, h₁, h₂⟩ := h
  obtain ⟨_, rfl⟩ : _ ∧ rest' = rest := by simpa using h₂
  exact Bits.length_of_readNumber h₁

theorem length_of_read {codes : BlockCodes} {bits rest : Bits} {s : Symbol}
    (h : read codes bits = some (s, rest)) : rest.length < bits.length := by
  simp only [read, Option.bind_eq_bind, Option.bind_eq_some_iff] at h
  obtain ⟨⟨i, rest₁⟩, h₁, h₂⟩ := h
  have := PrefixCode.length_of_read h₁
  dsimp only at h₂
  split at h₂
  · simp_all
  · split at h₂
    · simp_all
    · simp only [Option.bind_eq_some_iff] at h₂
      obtain ⟨⟨_, rest₂⟩, h₃, ⟨j, rest₃⟩, h₄, ⟨_, rest₄⟩, h₅, h₆⟩ := h₂
      obtain ⟨_, rfl⟩ : _ ∧ rest₄ = rest := by simpa using h₆
      have := length_of_readInRange h₃
      have := PrefixCode.length_of_read h₄
      have := length_of_readInRange h₅
      simp_all only
      omega

/-- Repeats the byte `distance` bytes back, `n` times. -/
def copyBack (distance : Nat) : Nat → Array UInt8 → Array UInt8
  | 0, out => out
  | n + 1, out => copyBack distance n (out.push (out.getD (out.size - distance) 0))

end Symbol

end Keyring.Deflate
