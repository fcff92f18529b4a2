import Keyring.Deflate.Compress
import Keyring.Proofs.Deflate.Block
/-!
This module contains the proof that what is written when data is compressed is compressed data: the
symbols that data is factored into say the data, and each of them is written under the fixed codes.
-/

namespace Keyring.Deflate

theorem matchLength_le (data : Array UInt8) (i j limit : Nat) :
    matchLength data i j limit ≤ limit := by
  induction limit generalizing i j with
  | zero => exact Nat.le_refl _
  | succ limit ih =>
    rw [matchLength]
    split
    . split
      . exact Nat.succ_le_succ (ih _ _)
      . exact Nat.zero_le _
    . exact Nat.zero_le _

theorem getElem?_of_lt_matchLength {data : Array UInt8} {i j limit k : Nat}
    (h : k < matchLength data i j limit) : j + k < data.size ∧ data[i + k]? = data[j + k]? := by
  induction limit generalizing i j k with
  | zero => simp [matchLength] at h
  | succ limit ih =>
    rw [matchLength] at h
    split at h
    . next a b ha hb =>
      split at h
      . next heq =>
        subst heq
        cases k with
        | zero => exact ⟨(Array.getElem?_eq_some_iff.mp hb).1, ha.trans hb.symm⟩
        | succ k =>
          rw [show j + (k + 1) = j + 1 + k by omega, show i + (k + 1) = i + 1 + k by omega]
          exact ih (Nat.lt_of_succ_lt_succ h)
      . simp at h
    . simp at h

namespace Symbol

/-- The symbols that the search for repetitions writes. -/
def Fits : Symbol → Prop
  | .literal _ => True
  | .copy length distance =>
    minLength ≤ length ∧ length ≤ maxLength ∧ 1 ≤ distance ∧ distance ≤ maxDistance
  | .endOfBlock => False

/-- Symbols that fit and how they extend the data before them. -/
inductive Factors : List Symbol → Bytes → Bytes → Prop where
  | nil {data : Bytes} : Factors [] data data
  | cons {s : Symbol} {symbols : List Symbol} {before middle after : Bytes} (hfits : s.Fits)
    (hextends : s.Extends before middle) (hrest : Factors symbols middle after) :
    Factors (s :: symbols) before after

end Symbol

/-- A place where the same bytes start earlier can be copied from there. -/
theorem extends_of_matchLength {data : Array UInt8} {i j n limit : Nat}
    (hn : n = matchLength data j i limit) (hpos : 0 < n) (hlt : j < i) :
    (Symbol.copy n (i - j)).Extends (data.toList.take i) (data.toList.take (i + n)) := by
  have hmatch : ∀ k < n, i + k < data.size ∧ data[j + k]? = data[i + k]? := by
    intro k hk
    rw [hn] at hk
    exact getElem?_of_lt_matchLength hk
  have hroom : i + n ≤ data.toList.length := by
    have := (hmatch (n - 1) (by omega)).1
    rw [Array.length_toList]
    omega
  have hbefore : (data.toList.take i).length = i := by
    rw [List.length_take]
    omega
  have hpiece : ((data.toList.drop i).take n).length = n := by
    rw [List.length_take, List.length_drop]
    omega
  have hrepeats : Symbol.Repeats (i - j) (data.toList.take i) ((data.toList.drop i).take n) := by
    intro k hk
    rw [hpiece] at hk
    rw [hbefore, ← List.take_add, List.getElem?_take_of_lt (by omega),
      List.getElem?_take_of_lt (by omega), Array.getElem?_toList, Array.getElem?_toList,
      show i + k - (i - j) = j + k by omega]
    exact (hmatch k hk).2.symm
  have hcopy := Symbol.Extends.copy (by omega) (by omega) hrepeats
  rw [hpiece, ← List.take_add] at hcopy
  exact hcopy

theorem factors_factorFrom (data : Array UInt8) (i : Nat) (seen : Std.HashMap UInt32 Nat)
    (acc : Array Symbol) :
    ∃ symbols, (factorFrom data i seen acc).toList = acc.toList ++ symbols ∧
      Symbol.Factors symbols (data.toList.take i) data.toList := by
  fun_induction factorFrom data i seen acc with
  | case1 i seen acc hi start j n seen' h ih =>
    rcases ih with ⟨symbols, heq, hfactors⟩
    rcases h with ⟨hlt, hdistance, hlength⟩
    unfold minLength at hlength
    rw [Nat.max_eq_right (by omega)] at heq hfactors ⊢
    refine ⟨_ :: symbols, ?_, .cons ?_ (extends_of_matchLength rfl (by omega) hlt) hfactors⟩
    . rw [heq, Array.toList_push, List.append_assoc]
      rfl
    . exact ⟨hlength, matchLength_le _ _ _ _, by omega, hdistance⟩
  | case2 i seen acc hi start j n seen' h ih =>
    rcases ih with ⟨symbols, heq, hfactors⟩
    have hliteral := Symbol.Extends.literal (data.toList.take i) data[i]
    rw [← Array.getElem_toList, ← List.take_succ_eq_append_getElem] at hliteral
    refine ⟨.literal data[i] :: symbols, ?_, .cons trivial hliteral hfactors⟩
    rw [heq, Array.toList_push, List.append_assoc]
    rfl
  | case3 i seen acc hi =>
    refine ⟨[], (List.append_nil _).symm, ?_⟩
    rw [List.take_of_length_le (by rw [Array.length_toList]; omega)]
    exact .nil

theorem factors_factor (data : Bytes) : Symbol.Factors (factor data.toArray) [] data := by
  rcases factors_factorFrom data.toArray 0 ∅ #[] with ⟨symbols, heq, hfactors⟩
  unfold factor
  rw [heq]
  exact hfactors

namespace FixedWords

theorem exists_range_of_isChain {ranges : List (Nat × Nat)} {p : Nat × Nat} {v : Nat}
    (hchain : (p :: ranges).IsChain fun q r => r.1 ≤ q.1 + 2 ^ q.2) (hfirst : p.1 ≤ v)
    (hlast : ∀ q, (p :: ranges).getLast? = some q → v < q.1 + 2 ^ q.2) :
    ∃ q, (p :: ranges)[((p :: ranges).takeWhile fun r => r.1 ≤ v).length - 1]? = some q ∧
      q.1 ≤ v ∧ v < q.1 + 2 ^ q.2 := by
  induction ranges generalizing p with
  | nil =>
    rw [List.takeWhile_cons_of_pos (by simpa using hfirst)]
    exact ⟨p, rfl, hfirst, hlast p rfl⟩
  | cons q ranges ih =>
    rw [List.isChain_cons_cons] at hchain
    rw [List.takeWhile_cons_of_pos (by simpa using hfirst)]
    by_cases hq : q.1 ≤ v
    . rcases ih hchain.2 hq hlast with ⟨r, hr, hbounds⟩
      refine ⟨r, ?_, hbounds⟩
      rw [List.takeWhile_cons_of_pos (by simpa using hq)] at hr ⊢
      exact hr
    . rw [List.takeWhile_cons_of_neg (by simpa using hq)]
      exact ⟨p, rfl, hfirst, by omega⟩

theorem inRange_rangeOf {ranges : Array (Nat × Nat)} {v : Nat}
    (h : ∃ q, ranges.toList[(ranges.toList.takeWhile fun r => r.1 ≤ v).length - 1]? = some q ∧
      q.1 ≤ v ∧ v < q.1 + 2 ^ q.2) :
    Symbol.InRange ranges (rangeOf ranges v) v (inRange ranges (rangeOf ranges v) v) := by
  rcases h with ⟨⟨least, extra⟩, hrange, hle, hlt⟩
  have hrange' : ranges[rangeOf ranges v]? = some (least, extra) := by
    rw [← Array.getElem?_toList]
    exact hrange
  have hlt' : v - least < 2 ^ extra := by
    dsimp only at hle hlt
    omega
  have hin := Symbol.InRange.intro hrange' hlt'
  rw [Nat.add_sub_cancel' hle] at hin
  rw [inRange, Array.getD_eq_getD_getElem?, hrange', Option.getD_some]
  exact hin

theorem inRange_lengthRanges {length : Nat} (hle : minLength ≤ length) (hle' : length ≤ maxLength) :
    Symbol.InRange lengthRanges (rangeOf lengthRanges length) length
      (inRange lengthRanges (rangeOf lengthRanges length) length) := by
  apply inRange_rangeOf
  apply exists_range_of_isChain (by decide) hle
  intro q hq
  cases hq
  exact Nat.lt_succ_of_le hle'

theorem inRange_distanceRanges {distance : Nat} (hpos : 1 ≤ distance)
    (hle : distance ≤ maxDistance) :
    Symbol.InRange distanceRanges (rangeOf distanceRanges distance) distance
      (inRange distanceRanges (rangeOf distanceRanges distance) distance) := by
  apply inRange_rangeOf
  apply exists_range_of_isChain (by decide) hpos
  intro q hq
  cases hq
  exact Nat.lt_succ_of_le hle

theorem mem_words_of_lt {lengths : List Nat}
    (hlengths : ∀ l ∈ lengths, 1 ≤ l ∧ l ≤ PrefixCode.maxLength) {i : Nat}
    (hi : i < lengths.length) :
    (i, (ofLengths lengths).getD i []) ∈ PrefixCode.words lengths := by
  have hl := hlengths _ (List.getElem_mem hi)
  rcases PrefixCode.exists_mem_words (List.getElem?_eq_getElem hi) hl.1 hl.2 with ⟨w, hw⟩
  have hsome : ((PrefixCode.words lengths).lookup i).isSome := by
    rw [List.lookup_isSome_iff]
    exact ⟨_, hw, beq_self_eq_true i⟩
  rcases Option.isSome_iff_exists.mp hsome with ⟨word, hword⟩
  have hget : (ofLengths lengths).getD i [] = word := by
    unfold ofLengths wordOf
    rw [Array.getD_eq_getD_getElem?, Array.getElem?_map, Array.getElem?_range, if_pos hi,
      Option.map_some, Option.getD_some, hword, Option.getD_some]
  rw [hget]
  rcases List.lookup_eq_some_iff.mp hword with ⟨_, _, heq, _⟩
  rw [heq]
  exact List.mem_append_right _ List.mem_cons_self

theorem mem_literals {i : Nat} (hi : i < 288) :
    (i, fixed.literals.getD i []) ∈ PrefixCode.words WordLengths.fixed.literals := by
  have hlength : BlockCodes.fixedLiteralLengths.length = 288 := by
    simp only [BlockCodes.fixedLiteralLengths, List.length_append, List.length_replicate]
  exact mem_words_of_lt (by decide +kernel) (hlength ▸ hi)

theorem mem_distances {i : Nat} (hi : i < 32) :
    (i, fixed.distances.getD i []) ∈ PrefixCode.words WordLengths.fixed.distances := by
  exact mem_words_of_lt (by decide) hi

theorem coded_write {s : Symbol} (h : s.Fits) : s.Coded .fixed (fixed.write s) := by
  cases s with
  | literal byte =>
    have hbyte := byte.toNat_lt
    exact .literal (mem_literals (by omega))
  | endOfBlock => exact h.elim
  | copy length distance =>
    rcases h with ⟨hlength, hlength', hdistance, hdistance'⟩
    have hi := inRange_lengthRanges hlength hlength'
    have hj := inRange_distanceRanges hdistance hdistance'
    have hi' := hi.lt_size
    have hj' := hj.lt_size
    change _ < 29 at hi'
    change _ < 30 at hj'
    exact .copy (mem_literals (by omega)) hi (mem_distances (by omega)) hj

end FixedWords

theorem says_of_factors {symbols : List Symbol} {before after : Bytes}
    (h : Symbol.Factors symbols before after) :
    Says .fixed before after ((symbols ++ [Symbol.endOfBlock]).flatMap FixedWords.fixed.write) := by
  induction h with
  | nil =>
    apply Says.done
    rw [List.nil_append, List.flatMap_singleton]
    exact .endOfBlock (FixedWords.mem_literals (i := 256) (by decide))
  | cons hfits hextends _ ih =>
    rw [List.cons_append, List.flatMap_cons]
    exact .symbol (FixedWords.coded_write hfits) hextends ih

/-- What the library compresses data to is one choice of compressed data. -/
theorem compressed_compress (data : Bytes) : Compressed data (compress data) := by
  rcases Bits.exists_ofBytes_toBytes (writeBlock (factor data.toArray)) with ⟨n, hn, hbits⟩
  have hblock := says_of_factors (factors_factor data)
  refine ⟨_, List.replicate n false, .last (.fixed hblock), ?_, hbits⟩
  rw [List.length_replicate]
  exact hn

end Keyring.Deflate
