import Keyring.Deflate.Bits
/-!
This module contains prefix codes: the words that their lengths determine, and trees that read them.
-/

namespace Keyring.Deflate

/-- Where the bits read so far lead. -/
inductive CodeTree where
  | unused
  | leaf (symbol : Nat)
  | node (zero one : CodeTree)

namespace CodeTree

/-- Puts a symbol at the end of its word. -/
def insert (symbol : Nat) : Bits → CodeTree → CodeTree
  | [], _ => .leaf symbol
  | false :: word, .node zero one => .node (insert symbol word zero) one
  | true :: word, .node zero one => .node zero (insert symbol word one)
  | false :: word, _ => .node (insert symbol word .unused) .unused
  | true :: word, _ => .node .unused (insert symbol word .unused)

def read : CodeTree → Bits → Option (Nat × Bits)
  | .leaf symbol, bits => some (symbol, bits)
  | .node zero one, b :: bits => if b then one.read bits else zero.read bits
  | .node _ _, [] => none
  | .unused, _ => none

theorem length_of_read {t : CodeTree} {bits rest : Bits} {symbol : Nat}
    (h : t.read bits = some (symbol, rest)) : rest.length ≤ bits.length := by
  induction t generalizing bits with
  | unused => simp [read] at h
  | leaf => simp_all [read]
  | node zero one ih₀ ih₁ =>
    cases bits with
    | nil => simp [read] at h
    | cons b bits =>
      cases b
      · have := ih₀ (by simpa [read] using h)
        simp only [List.length_cons]
        omega
      · have := ih₁ (by simpa [read] using h)
        simp only [List.length_cons]
        omega

end CodeTree

/-- A prefix code with no empty word, as what a first bit leads to. -/
structure PrefixCode where
  zero : CodeTree
  one : CodeTree

namespace PrefixCode

def maxLength : Nat := 15

/-- The symbols with words of `length` bits, in order. -/
def symbolsOf (lengths : List Nat) (length : Nat) : List Nat :=
  (lengths.zipIdx.filter fun (l, _) => l == length).map Prod.snd

/-- The symbols and words from `length` bits on for `n` more lengths. Words of one length are
consecutive numbers, the first of which is `first`. -/
def wordsFrom (lengths : List Nat) : Nat → Nat → Nat → List (Nat × Bits)
  | 0, _, _ => []
  | n + 1, length, first =>
    let symbols := symbolsOf lengths length
    symbols.zipIdx.map (fun (symbol, i) => (symbol, Bits.ofWord length (first + i))) ++
      wordsFrom lengths n (length + 1) ((first + symbols.length) * 2)

/-- The symbols and words of the code with some lengths of words, where zero is for no word. -/
def words (lengths : List Nat) : List (Nat × Bits) :=
  wordsFrom lengths maxLength 1 0

/-- The part of all strings of bits that start with a word, times `2 ^ 15`. -/
def share : List Nat → Nat
  | [] => 0
  | l :: lengths => (if l = 0 then 0 else 1 <<< (maxLength - l)) + share lengths

/-- Whether every string of bits starts with exactly one word, or there is at most one word. -/
def isUsable (lengths : List Nat) : Bool :=
  share lengths = 1 <<< maxLength ∨ (lengths.filter (· ≠ 0)).length ≤ 1

def ofLengths (lengths : List Nat) : PrefixCode :=
  match (words lengths).foldl (fun t (symbol, word) => CodeTree.insert symbol word t) .unused with
  | .node zero one => ⟨zero, one⟩
  | _ => ⟨.unused, .unused⟩

def ofLengths? (lengths : List Nat) : Option PrefixCode :=
  if isUsable lengths then some (ofLengths lengths) else none

def read (c : PrefixCode) : Bits → Option (Nat × Bits)
  | [] => none
  | b :: bits => if b then c.one.read bits else c.zero.read bits

theorem length_of_read {c : PrefixCode} {bits rest : Bits} {symbol : Nat}
    (h : c.read bits = some (symbol, rest)) : rest.length < bits.length := by
  cases bits with
  | nil => simp [read] at h
  | cons b bits =>
    have : rest.length ≤ bits.length := by
      cases b
      · exact CodeTree.length_of_read (by simpa [read] using h)
      · exact CodeTree.length_of_read (by simpa [read] using h)
    simp only [List.length_cons]
    omega

end PrefixCode

end Keyring.Deflate
