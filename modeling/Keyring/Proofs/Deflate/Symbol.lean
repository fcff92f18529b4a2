import Keyring.Deflate.Symbol
import Keyring.Proofs.Deflate.PrefixCode
/-!
This module contains what the symbols of compressed data are in bits, under codes of any usable
lengths, and what they say. Symbols are read as what they were written for. A copy says bytes that
repeat with its distance, and these may reach into the copy itself.
-/

namespace Keyring.Deflate

/-- The lengths of the words of a block's two codes. -/
structure WordLengths where
  literals : List Nat
  distances : List Nat

namespace WordLengths

structure Usable (l : WordLengths) : Prop where
  literals : PrefixCode.isUsable l.literals
  distances : PrefixCode.isUsable l.distances

def codes (l : WordLengths) : BlockCodes :=
  ⟨.ofLengths l.literals, .ofLengths l.distances⟩

/-- The lengths for blocks without codes of their own. -/
def fixed : WordLengths :=
  ⟨BlockCodes.fixedLiteralLengths, BlockCodes.fixedDistanceLengths⟩

theorem codes_fixed : fixed.codes = .fixed := by
  rfl

theorem usable_fixed : fixed.Usable where
  literals := by decide +kernel
  distances := by decide +kernel

end WordLengths

namespace Symbol

/-- The additional bits for a number in the range with some index. -/
inductive InRange (ranges : Array (Nat × Nat)) : Nat → Nat → Bits → Prop where
  | intro {i least extra v : Nat} (hrange : ranges[i]? = some (least, extra)) (hv : v < 2 ^ extra) :
    InRange ranges i (least + v) (Bits.ofNumber extra v)

theorem readInRange_append {ranges : Array (Nat × Nat)} {i v : Nat} {bits : Bits}
    (h : InRange ranges i v bits) (rest : Bits) :
    readInRange ranges i (bits ++ rest) = some (v, rest) := by
  cases h with
  | intro hrange hv =>
    rw [readInRange, hrange, Option.bind_eq_bind, Option.bind_some]
    dsimp only
    rw [Bits.readNumber_ofNumber_append hv, Option.bind_eq_bind, Option.bind_some]
    rfl

theorem InRange.of_readInRange {ranges : Array (Nat × Nat)} {i v : Nat} {bits rest : Bits}
    (h : readInRange ranges i bits = some (v, rest)) :
    ∃ extra, InRange ranges i v extra ∧ bits = extra ++ rest := by
  rcases Option.bind_eq_some_iff.mp h with ⟨⟨least, extra⟩, hrange, h⟩
  rcases Option.bind_eq_some_iff.mp h with ⟨⟨n, _⟩, hread, heq⟩
  cases heq
  rcases Bits.readNumber_eq_some_iff.mp hread with ⟨hn, rfl⟩
  exact ⟨_, .intro hrange hn, rfl⟩

theorem InRange.lt_size {ranges : Array (Nat × Nat)} {i v : Nat} {bits : Bits}
    (h : InRange ranges i v bits) : i < ranges.size := by
  cases h with
  | intro hrange _ => exact (Array.getElem?_eq_some_iff.mp hrange).1

theorem InRange.one_le_of_distance {i distance : Nat} {extra : Bits}
    (h : InRange distanceRanges i distance extra) : 1 ≤ distance := by
  have hall : ∀ p ∈ distanceRanges, 1 ≤ p.1 := by decide
  cases h with
  | intro hrange _ =>
    have := hall _ (Array.mem_of_getElem? hrange)
    dsimp only at this
    omega

/-- The bits of a symbol under the codes that have words of some lengths. -/
inductive Coded (l : WordLengths) : Symbol → Bits → Prop where
  | literal {byte : UInt8} {word : Bits}
    (hword : (byte.toNat, word) ∈ PrefixCode.words l.literals) : Coded l (.literal byte) word
  | endOfBlock {word : Bits} (hword : (256, word) ∈ PrefixCode.words l.literals) :
    Coded l .endOfBlock word
  | copy {i j length distance : Nat} {word extra word' extra' : Bits}
    (hword : (257 + i, word) ∈ PrefixCode.words l.literals)
    (hlength : InRange lengthRanges i length extra)
    (hword' : (j, word') ∈ PrefixCode.words l.distances)
    (hdistance : InRange distanceRanges j distance extra') :
    Coded l (.copy length distance) (word ++ extra ++ word' ++ extra')

theorem read_append {l : WordLengths} (hl : l.Usable) {s : Symbol} {bits : Bits}
    (h : s.Coded l bits) (rest : Bits) : read l.codes (bits ++ rest) = some (s, rest) := by
  unfold read WordLengths.codes
  cases h with
  | @literal byte _ hword =>
    rw [PrefixCode.read_append hl.literals hword, Option.bind_eq_bind, Option.bind_some]
    dsimp only
    rw [if_pos byte.toNat_lt, UInt8.ofNat_toNat]
    rfl
  | endOfBlock hword =>
    rw [PrefixCode.read_append hl.literals hword, Option.bind_eq_bind, Option.bind_some]
    rfl
  | @copy i _ _ _ _ _ _ _ hword hlength hword' hdistance =>
    rw [List.append_assoc, List.append_assoc, List.append_assoc,
      PrefixCode.read_append hl.literals hword, Option.bind_eq_bind, Option.bind_some]
    dsimp only
    rw [if_neg (by omega), if_neg (by omega), Nat.add_sub_cancel_left,
      readInRange_append hlength, Option.bind_some]
    dsimp only
    rw [PrefixCode.read_append hl.distances hword', Option.bind_some]
    dsimp only
    rw [readInRange_append hdistance, Option.bind_some]
    rfl

theorem exists_coded_of_read {l : WordLengths} {s : Symbol} {bits rest : Bits}
    (h : read l.codes bits = some (s, rest)) :
    ∃ coded, s.Coded l coded ∧ bits = coded ++ rest := by
  rcases Option.bind_eq_some_iff.mp h with ⟨⟨i, bits'⟩, hread, hrest⟩
  rcases PrefixCode.exists_mem_words_of_read hread with ⟨word, hword, rfl⟩
  dsimp only at hrest
  split at hrest
  . next hi =>
    cases hrest
    refine ⟨word, .literal ?_, rfl⟩
    rw [UInt8.toNat_ofNat_of_lt' hi]
    exact hword
  . split at hrest
    . next hi =>
      cases hrest
      rw [hi] at hword
      exact ⟨word, .endOfBlock hword, rfl⟩
    . next hle hne =>
      rcases Option.bind_eq_some_iff.mp hrest with ⟨⟨length, bits₁⟩, hlength, hrest⟩
      rcases Option.bind_eq_some_iff.mp hrest with ⟨⟨j, bits₂⟩, hread', hrest⟩
      rcases Option.bind_eq_some_iff.mp hrest with ⟨⟨distance, bits₃⟩, hdistance, heq⟩
      cases heq
      rcases InRange.of_readInRange hlength with ⟨extra, hextra, hbits⟩
      rcases PrefixCode.exists_mem_words_of_read hread' with ⟨word', hword', hbits₁⟩
      rcases InRange.of_readInRange hdistance with ⟨extra', hextra', hbits₂⟩
      rw [show i = 257 + (i - 257) by omega] at hword
      refine ⟨_, .copy hword hextra hword' hextra', ?_⟩
      dsimp only at hbits₁ hbits₂ ⊢
      rw [hbits, hbits₁, hbits₂]
      simp only [List.append_assoc]

/-- Bytes that repeat those at some distance before them, which may be bytes among them. -/
def Repeats (distance : Nat) (before piece : Bytes) : Prop :=
  ∀ i < piece.length,
    (before ++ piece)[before.length + i]? = (before ++ piece)[before.length + i - distance]?

theorem repeats_nil (distance : Nat) (before : Bytes) : Repeats distance before [] := by
  intro i hi
  simp at hi

theorem repeats_cons_iff {distance : Nat} {before piece : Bytes} {b : UInt8} (hpos : 1 ≤ distance)
    (hle : distance ≤ before.length) :
    Repeats distance before (b :: piece) ↔
      b = before.toArray.getD (before.toArray.size - distance) 0 ∧
        Repeats distance (before ++ [b]) piece := by
  have hget : before[before.length - distance]? =
      some (before.toArray.getD (before.toArray.size - distance) 0) := by
    have hlt : before.length - distance < before.length := by omega
    rw [Array.getD_eq_getD_getElem?, List.getElem?_toArray, List.size_toArray,
      List.getElem?_eq_getElem hlt, Option.getD_some]
  have hhead : (before ++ b :: piece)[before.length + 0]? =
      (before ++ b :: piece)[before.length + 0 - distance]? ↔
        b = before.toArray.getD (before.toArray.size - distance) 0 := by
    rw [Nat.add_zero, List.getElem?_append_right (Nat.le_refl _), Nat.sub_self,
      List.getElem?_cons_zero, List.getElem?_append_left (by omega), hget, Option.some.injEq]
  have htail : ∀ i, before.length + (i + 1) = (before ++ [b]).length + i := by
    intro i
    rw [List.length_append, List.length_singleton]
    omega
  unfold Repeats
  rw [← hhead, List.length_cons, ← List.append_cons]
  constructor
  . intro h
    refine ⟨h 0 (Nat.succ_pos _), ?_⟩
    intro i hi
    rw [← htail]
    exact h (i + 1) (Nat.succ_lt_succ hi)
  . rintro ⟨hzero, hsucc⟩ i hi
    cases i with
    | zero => exact hzero
    | succ i =>
      rw [htail]
      exact hsucc i (Nat.lt_of_succ_lt_succ hi)

theorem copyBack_eq {before piece : Bytes} {distance : Nat} (hpos : 1 ≤ distance)
    (hle : distance ≤ before.length) (hrepeats : Repeats distance before piece) :
    copyBack distance piece.length before.toArray = (before ++ piece).toArray := by
  induction piece generalizing before with
  | nil => rw [List.length_nil, copyBack, List.append_nil]
  | cons b piece ih =>
    rcases (repeats_cons_iff hpos hle).mp hrepeats with ⟨hb, htail⟩
    rw [List.length_cons, copyBack, ← hb, List.push_toArray, List.append_cons before b piece]
    apply ih _ htail
    rw [List.length_append]
    omega

theorem exists_repeats {before : Bytes} {distance : Nat} (hpos : 1 ≤ distance)
    (hle : distance ≤ before.length) (length : Nat) :
    ∃ piece : Bytes, piece.length = length ∧ Repeats distance before piece := by
  induction length generalizing before with
  | zero => exact ⟨[], rfl, repeats_nil distance before⟩
  | succ length ih =>
    let b := before.toArray.getD (before.toArray.size - distance) 0
    have hroom : distance ≤ (before ++ [b]).length := by
      rw [List.length_append]
      omega
    rcases ih hroom with ⟨piece, rfl, htail⟩
    exact ⟨b :: piece, rfl, (repeats_cons_iff hpos hle).mpr ⟨rfl, htail⟩⟩

/-- How a symbol extends the data before it. -/
inductive Extends : Symbol → Bytes → Bytes → Prop where
  | literal (before : Bytes) (byte : UInt8) : Extends (.literal byte) before (before ++ [byte])
  | copy {before piece : Bytes} {distance : Nat} (hpos : 1 ≤ distance)
    (hle : distance ≤ before.length) (hrepeats : Repeats distance before piece) :
    Extends (.copy piece.length distance) before (before ++ piece)

theorem extends_copyBack {before : Bytes} {distance : Nat} (hpos : 1 ≤ distance)
    (hle : distance ≤ before.length) (length : Nat) :
    (copy length distance).Extends before (copyBack distance length before.toArray).toList := by
  rcases exists_repeats hpos hle length with ⟨piece, rfl, hrepeats⟩
  rw [copyBack_eq hpos hle hrepeats]
  exact .copy hpos hle hrepeats

end Symbol

end Keyring.Deflate
