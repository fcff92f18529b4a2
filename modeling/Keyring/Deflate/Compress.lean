import Keyring.Deflate.Factor
/-!
This module contains the writing of compressed data, as one block under fixed codes.
-/

namespace Keyring.Deflate

def wordOf (words : List (Nat × Bits)) (i : Nat) : Bits :=
  (words.lookup i).getD []

structure FixedWords where
  literals : Array Bits
  distances : Array Bits

namespace FixedWords

def ofLengths (lengths : List Nat) : Array Bits :=
  let words := PrefixCode.words lengths
  (Array.range lengths.length).map (wordOf words)

def fixed : FixedWords :=
  ⟨ofLengths BlockCodes.fixedLiteralLengths, ofLengths BlockCodes.fixedDistanceLengths⟩

/-- The last range that starts at or below a number. -/
def rangeOf (ranges : Array (Nat × Nat)) (v : Nat) : Nat :=
  (ranges.toList.takeWhile fun (least, _) => least ≤ v).length - 1

/-- The bits that add to the least number of a range. -/
def inRange (ranges : Array (Nat × Nat)) (i v : Nat) : Bits :=
  let (least, extra) := ranges.getD i (0, 0)
  Bits.ofNumber extra (v - least)

def write (w : FixedWords) : Symbol → Bits
  | .literal byte => w.literals.getD byte.toNat []
  | .endOfBlock => w.literals.getD 256 []
  | .copy length distance =>
    let i := rangeOf lengthRanges length
    let j := rangeOf distanceRanges distance
    w.literals.getD (257 + i) [] ++ inRange lengthRanges i length ++
      w.distances.getD j [] ++ inRange distanceRanges j distance

end FixedWords

/-- Symbols as a last block under fixed codes. -/
def writeBlock (symbols : List Symbol) : Bits :=
  let words := FixedWords.fixed
  true :: Bits.ofNumber 2 1 ++ (symbols ++ [Symbol.endOfBlock]).flatMap words.write

def compress (data : Bytes) : Bytes :=
  Bits.toBytes (writeBlock (factor data.toArray))

end Keyring.Deflate
