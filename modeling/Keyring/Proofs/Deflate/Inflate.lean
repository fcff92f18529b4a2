import Keyring.Proofs.Deflate.Block
/-!
This module contains the proof that nothing but compressed data is inflated. Whatever is read as a
symbol, a run of word lengths or a block is the bits of one, so inflating accepts exactly the
compressed data with anything behind it.
-/

namespace Keyring.Deflate

theorem exists_says_of_inflateSymbols {l : WordLengths} {bits rest : Bits}
    {before after : Array UInt8} (h : inflateSymbols l.codes bits before = some (after, rest)) :
    ∃ said, Says l before.toList after.toList said ∧ bits = said ++ rest := by
  generalize hcodes : l.codes = codes at h
  fun_induction inflateSymbols codes bits before with
  | case1 bits before byte rest' hread ih =>
    subst hcodes
    rcases Symbol.exists_coded_of_read hread with ⟨coded, hcoded, rfl⟩
    rcases ih h with ⟨said, hsaid, rfl⟩
    rw [Array.toList_push] at hsaid
    refine ⟨coded ++ said, .symbol hcoded (.literal _ byte) hsaid, ?_⟩
    rw [List.append_assoc]
  | case2 bits before length distance rest' hread hle ih =>
    subst hcodes
    rcases Symbol.exists_coded_of_read hread with ⟨coded, hcoded, rfl⟩
    rcases ih h with ⟨said, hsaid, rfl⟩
    have hpos : 1 ≤ distance := by
      cases hcoded with
      | copy _ _ _ hdistance => exact hdistance.one_le_of_distance
    have hextends := @Symbol.extends_copyBack before.toList distance hpos hle length
    refine ⟨coded ++ said, .symbol hcoded hextends hsaid, ?_⟩
    rw [List.append_assoc]
  | case3 => cases h
  | case4 bits before rest' hread =>
    subst hcodes
    cases h
    rcases Symbol.exists_coded_of_read hread with ⟨coded, hcoded, rfl⟩
    exact ⟨coded, .done hcoded, rfl⟩
  | case5 => cases h

theorem exists_run_of_readRun {before : List Nat} {symbol n length : Nat} (hsymbol : symbol < 19)
    {bits rest : Bits} (h : readRun symbol before.getLast? bits = some ((n, length), rest)) :
    ∃ extra, Run before symbol extra (List.replicate n length) ∧ bits = extra ++ rest := by
  unfold readRun at h
  split at h
  . next hlt =>
    cases h
    exact ⟨[], .once hlt, rfl⟩
  . split at h
    . next heq =>
      subst heq
      rcases Option.bind_eq_some_iff.mp h with ⟨⟨n, _⟩, hread, hrest⟩
      rcases Option.bind_eq_some_iff.mp hrest with ⟨length, hlast, heq⟩
      cases heq
      rcases Bits.readNumber_eq_some_iff.mp hread with ⟨hn, rfl⟩
      exact ⟨_, .again hn hlast, rfl⟩
    . split at h
      . next heq =>
        subst heq
        rcases Option.bind_eq_some_iff.mp h with ⟨⟨n, _⟩, hread, heq⟩
        cases heq
        rcases Bits.readNumber_eq_some_iff.mp hread with ⟨hn, rfl⟩
        exact ⟨_, .zeros hn, rfl⟩
      . have heq : symbol = 18 := by omega
        subst heq
        rcases Option.bind_eq_some_iff.mp h with ⟨⟨n, _⟩, hread, heq⟩
        cases heq
        rcases Bits.readNumber_eq_some_iff.mp hread with ⟨hn, rfl⟩
        exact ⟨_, .manyZeros hn, rfl⟩

theorem exists_runs_of_readLengths {code lengths all : List Nat} {count : Nat}
    (hcode : code.length = 19) {bits rest : Bits}
    (h : readLengths (.ofLengths code) count bits lengths = some (all, rest)) :
    all.length = count ∧
      ∃ runs, Runs code lengths.reverse all.reverse runs ∧ bits = runs ++ rest := by
  generalize htree : PrefixCode.ofLengths code = tree at h
  fun_induction readLengths tree count bits lengths with
  | case1 bits lengths hlength =>
    cases h
    exact ⟨hlength, [], .done, rfl⟩
  | case2 => cases h
  | case3 => cases h
  | case4 => cases h
  | case5 bits lengths _ _ symbol rest₁ hread n length rest₂ hrun ih =>
    subst htree
    rcases PrefixCode.exists_mem_words_of_read hread with ⟨word, hword, rfl⟩
    have hsymbol : symbol < 19 := by
      rw [← hcode]
      exact (List.getElem?_eq_some_iff.mp (PrefixCode.getElem?_of_mem_wordsFrom hword)).1
    rw [← List.getLast?_reverse] at hrun
    rcases exists_run_of_readRun hsymbol hrun with ⟨extra, hextra, rfl⟩
    rcases ih h with ⟨hlength, runs, hruns, rfl⟩
    rw [List.reverse_append, List.reverse_replicate] at hruns
    refine ⟨hlength, _, .run hword hextra hruns, ?_⟩
    simp only [List.append_assoc]

theorem ofLengths?_eq_some_iff {lengths : List Nat} {code : PrefixCode} :
    PrefixCode.ofLengths? lengths = some code ↔
      PrefixCode.isUsable lengths ∧ code = .ofLengths lengths := by
  unfold PrefixCode.ofLengths?
  split
  . next h => simp [h, eq_comm]
  . next h => simp [h]

theorem length_codeLengths (given : List Nat) : (codeLengths given).length = 19 := by
  rw [codeLengths, List.length_map, List.length_range]

theorem exists_describes_of_readCodes {codes : BlockCodes} {bits rest : Bits}
    (h : readCodes bits = some (codes, rest)) :
    ∃ l description, codes = WordLengths.codes l ∧ l.Usable ∧ Describes l description ∧
      bits = description ++ rest := by
  rcases Option.bind_eq_some_iff.mp h with ⟨⟨literals, bits₁⟩, hliterals, h₁⟩
  rcases Option.bind_eq_some_iff.mp h₁ with ⟨⟨distances, bits₂⟩, hdistances, h₂⟩
  rcases Option.bind_eq_some_iff.mp h₂ with ⟨⟨count, bits₃⟩, hcount, h₃⟩
  rcases Bits.readNumber_eq_some_iff.mp hliterals with ⟨hliterals', hbits⟩
  rcases Bits.readNumber_eq_some_iff.mp hdistances with ⟨hdistances', hbits₁⟩
  rcases Bits.readNumber_eq_some_iff.mp hcount with ⟨hcount', hbits₂⟩
  dsimp only at hbits₁ hbits₂ h₃
  split at h₃
  . next hfew =>
    rcases Option.bind_eq_some_iff.mp h₃ with ⟨⟨given, bits₄⟩, hgiven, h₄⟩
    rcases Option.bind_eq_some_iff.mp h₄ with ⟨code, hcode, h₅⟩
    rcases Option.bind_eq_some_iff.mp h₅ with ⟨⟨lengths, bits₅⟩, hlengths, h₆⟩
    rcases Option.bind_eq_some_iff.mp h₆ with ⟨literalCode, hliteralCode, h₇⟩
    rcases Option.bind_eq_some_iff.mp h₇ with ⟨distanceCode, hdistanceCode, heq⟩
    cases heq
    rcases Bits.readNumbers_eq_some_iff.mp hgiven with ⟨hgivenLength, hsmall, hbits₃⟩
    change PrefixCode.ofLengths? (codeLengths given) = _ at hcode
    rcases ofLengths?_eq_some_iff.mp hcode with ⟨hcodeUsable, rfl⟩
    rcases exists_runs_of_readLengths (length_codeLengths given) hlengths with
      ⟨hlength, runs, hruns, hbits₄⟩
    rcases ofLengths?_eq_some_iff.mp hliteralCode with ⟨hliteralsUsable, rfl⟩
    rcases ofLengths?_eq_some_iff.mp hdistanceCode with ⟨hdistancesUsable, rfl⟩
    obtain ⟨l, hl⟩ : ∃ l : WordLengths, l =
        ⟨lengths.reverse.take (literals + 257), lengths.reverse.drop (literals + 257)⟩ := ⟨_, rfl⟩
    have hliteralsLength : l.literals.length = literals + 257 := by
      rw [hl, List.length_take, List.length_reverse]
      omega
    have hdistancesLength : l.distances.length = distances + 1 := by
      rw [hl, List.length_drop, List.length_reverse]
      omega
    have hsplit : lengths.reverse = l.literals ++ l.distances := by
      rw [hl, List.take_append_drop]
    rw [List.reverse_nil, hsplit] at hruns
    have hdescribes := Describes.intro (by omega) (by omega) (by omega) hsmall hcodeUsable hruns
    rw [hliteralsLength, hdistancesLength, hgivenLength, Nat.add_sub_cancel, Nat.add_sub_cancel,
      Nat.add_sub_cancel] at hdescribes
    refine ⟨l, _, ?_, ?_, hdescribes, ?_⟩
    . rw [hl]
      rfl
    . rw [hl]
      exact ⟨hliteralsUsable, hdistancesUsable⟩
    . rw [hbits, hbits₁, hbits₂, hbits₃]
      dsimp only at hbits₄ ⊢
      rw [hbits₄]
      simp only [List.append_assoc]
  . cases h₃

theorem exists_filling_of_inflateStored {before after : Array UInt8} {bits rest : Bits}
    (h : inflateStored bits before = some (after, rest)) :
    ∃ filling piece, filling.length = bits.length % 8 ∧ piece.length < 2 ^ 16 ∧
      after.toList = before.toList ++ piece ∧
      bits = filling ++ Bits.ofNumber 16 piece.length ++ Bits.ofNumber 16 (65535 - piece.length) ++
        Bits.ofBytes piece ++ rest := by
  rcases Option.bind_eq_some_iff.mp h with ⟨⟨size, bits₁⟩, hsize, h₁⟩
  rcases Option.bind_eq_some_iff.mp h₁ with ⟨⟨check, bits₂⟩, hcheck, h₂⟩
  rcases Bits.readNumber_eq_some_iff.mp hsize with ⟨hsize', hbits⟩
  rcases Bits.readNumber_eq_some_iff.mp hcheck with ⟨_, hbits₁⟩
  dsimp only at hbits₁ h₂
  split at h₂
  . next hsum =>
    rcases Option.bind_eq_some_iff.mp h₂ with ⟨⟨bytes, bits₃⟩, hbytes, heq⟩
    cases heq
    rcases Bits.readNumbers_eq_some_iff.mp hbytes with ⟨hlength, hsmall, hbits₂⟩
    have hlength' : (bytes.map UInt8.ofNat).length = size := by
      rw [List.length_map, hlength]
    refine ⟨bits.take (bits.length % 8), bytes.map UInt8.ofNat, ?_, ?_, ?_, ?_⟩
    . rw [List.length_take]
      exact Nat.min_eq_left (Nat.mod_le _ _)
    . rw [hlength']
      exact hsize'
    . rw [Array.toList_append]
    . rw [hlength', Bits.ofBytes_map_ofNat hsmall, show 65535 - size = check by omega]
      simp only [List.append_assoc]
      rw [← hbits₂, ← hbits₁, ← hbits, List.take_append_drop]
  . cases h₂

theorem exists_block_of_inflateBlock {position : Nat} {k₀ k₁ : Bool} {before after : Array UInt8}
    {bits rest : Bits} (haligned : (position + 2 + bits.length) % 8 = 0)
    (h : inflateBlock (k₀.toNat + 2 * k₁.toNat) bits before = some (after, rest)) :
    ∃ block, Block position before.toList after.toList (k₀ :: k₁ :: block) ∧
      bits = block ++ rest := by
  cases k₁ with
  | false =>
    cases k₀ with
    | false =>
      rcases exists_filling_of_inflateStored h with ⟨filling, piece, hfilling, hpiece, hafter, rfl⟩
      refine ⟨_, ?_, rfl⟩
      rw [hafter]
      exact .stored (by omega) (by omega) hpiece
    | true =>
      change inflateSymbols .fixed bits before = _ at h
      rw [← WordLengths.codes_fixed] at h
      rcases exists_says_of_inflateSymbols h with ⟨said, hsaid, rfl⟩
      exact ⟨said, .fixed hsaid, rfl⟩
  | true =>
    cases k₀ with
    | false =>
      rcases Option.bind_eq_some_iff.mp h with ⟨⟨codes, bits₁⟩, hcodes, hsymbols⟩
      rcases exists_describes_of_readCodes hcodes with ⟨l, description, rfl, hl, hdescribes, rfl⟩
      rcases exists_says_of_inflateSymbols hsymbols with ⟨said, hsaid, hbits⟩
      refine ⟨description ++ said, .coded hl hdescribes hsaid, ?_⟩
      rw [List.append_assoc, ← hbits]
    | true => cases h

theorem exists_blocks_of_inflateBlocks {position : Nat} {before after : Array UInt8}
    {bits rest : Bits} (haligned : (position + bits.length) % 8 = 0)
    (h : inflateBlocks bits before = some (after, rest)) :
    ∃ blocks, Blocks position before.toList after.toList blocks ∧ bits = blocks ++ rest := by
  fun_induction inflateBlocks bits before generalizing position with
  | case1 => cases h
  | case2 before k₀ k₁ bits middle rest' hread =>
    cases h
    have hstart : (position + 1 + 2 + bits.length) % 8 = 0 := by
      simp only [List.length_cons] at haligned
      omega
    rcases exists_block_of_inflateBlock hstart hread with ⟨block, hblock, rfl⟩
    exact ⟨_, .last hblock, rfl⟩
  | case3 before isLast k₀ k₁ bits middle rest' hread hlast ih =>
    rw [Bool.not_eq_true] at hlast
    subst hlast
    have hstart : (position + 1 + 2 + bits.length) % 8 = 0 := by
      simp only [List.length_cons] at haligned
      omega
    rcases exists_block_of_inflateBlock hstart hread with ⟨block, hblock, rfl⟩
    have hnext : (position + 1 + (k₀ :: k₁ :: block).length + rest'.length) % 8 = 0 := by
      simp only [List.length_cons, List.length_append] at hstart ⊢
      omega
    rcases ih hnext h with ⟨blocks, hblocks, rfl⟩
    refine ⟨_, .more hblock hblocks, ?_⟩
    simp only [List.cons_append, List.append_assoc]
  | case4 => cases h

/-- Inflating accepts exactly compressed data, with anything behind it. -/
theorem inflate?_eq_some_iff {bytes data rest : Bytes} :
    inflate? bytes = some (data, rest) ↔
      ∃ packed, bytes = packed ++ rest ∧ Compressed data packed := by
  constructor
  . intro h
    rcases Option.bind_eq_some_iff.mp h with ⟨⟨out, bits⟩, hread, heq⟩
    cases heq
    have haligned : (0 + (Bits.ofBytes bytes).length) % 8 = 0 := by
      rw [Bits.length_ofBytes]
      omega
    rcases exists_blocks_of_inflateBlocks haligned hread with ⟨blocks, hblocks, hbits⟩
    have hlength := congrArg List.length hbits
    rw [Bits.length_ofBytes, List.length_append] at hlength
    -- Whole bytes of what is left stand behind the data, and the bits before them fill up its end.
    let size := bytes.length - bits.length / 8
    let filling := bits.take (bits.length % 8)
    have hfilling : filling.length = bits.length % 8 := by
      rw [List.length_take]
      exact Nat.min_eq_left (Nat.mod_le _ _)
    have hsplit : Bits.ofBytes (bytes.take size) ++ Bits.ofBytes (bytes.drop size) =
        blocks ++ filling ++ bits.drop (bits.length % 8) := by
      rw [← Bits.ofBytes_append, List.take_append_drop, List.append_assoc, List.take_append_drop,
        hbits]
    have hpacked : (Bits.ofBytes (bytes.take size)).length = (blocks ++ filling).length := by
      rw [Bits.length_ofBytes, List.length_take, List.length_append, hfilling]
      omega
    refine ⟨bytes.take size, (List.take_append_drop _ _).symm, blocks, filling, hblocks, ?_,
      (List.append_inj hsplit hpacked).1⟩
    rw [hfilling]
    exact Nat.mod_lt _ (by decide)
  . rintro ⟨packed, rfl, hpacked⟩
    exact inflate?_append hpacked rest

end Keyring.Deflate
