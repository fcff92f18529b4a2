import Keyring.Deflate.Inflate
import Keyring.Proofs.Deflate.Symbol
/-!
This module contains what compressed data is, whoever compressed it: any blocks, each stored, under
fixed codes or under any usable codes of its own, which say their bytes in any symbols. Inflating
reads all of it as the data that it was made from.
-/

namespace Keyring.Deflate

open PrefixCode (words isUsable)

/-- The symbols of a block up to its end, in bits, and how they extend the data before it. -/
inductive Says (l : WordLengths) : Bytes → Bytes → Bits → Prop where
  | done {data : Bytes} {bits : Bits} (hend : Symbol.endOfBlock.Coded l bits) :
    Says l data data bits
  | symbol {s : Symbol} {before middle after : Bytes} {bits rest : Bits} (hcoded : s.Coded l bits)
    (hextends : s.Extends before middle) (hrest : Says l middle after rest) :
    Says l before after (bits ++ rest)

theorem inflateSymbols_eq (codes : BlockCodes) (bits : Bits) (out : Array UInt8) :
    inflateSymbols codes bits out =
      match Symbol.read codes bits with
      | some (.literal byte, rest) => inflateSymbols codes rest (out.push byte)
      | some (.copy length distance, rest) =>
        if distance ≤ out.size then
          inflateSymbols codes rest (Symbol.copyBack distance length out)
        else
          none
      | some (.endOfBlock, rest) => some (out, rest)
      | none => none := by
  rw [inflateSymbols]
  split
  all_goals next hread => rw [hread]

theorem inflateSymbols_append {l : WordLengths} (hl : l.Usable) {before after : Bytes} {bits : Bits}
    (h : Says l before after bits) (rest : Bits) :
    inflateSymbols l.codes (bits ++ rest) before.toArray = some (after.toArray, rest) := by
  induction h with
  | done hend => rw [inflateSymbols_eq, Symbol.read_append hl hend]
  | symbol hcoded hextends _ ih =>
    rw [List.append_assoc, inflateSymbols_eq, Symbol.read_append hl hcoded]
    cases hextends with
    | literal byte =>
      dsimp only
      rw [List.push_toArray]
      exact ih
    | copy hpos hle hrepeats =>
      dsimp only
      rw [List.size_toArray, if_pos hle, Symbol.copyBack_eq hpos hle hrepeats]
      exact ih

/-- How a symbol of the code for word lengths extends the lengths before it, and its additional
bits. -/
inductive Run (before : List Nat) : Nat → Bits → List Nat → Prop where
  | once {length : Nat} (h : length < 16) : Run before length [] [length]
  | again {n length : Nat} (h : n < 4) (hlast : before.getLast? = some length) :
    Run before 16 (Bits.ofNumber 2 n) (List.replicate (n + 3) length)
  | zeros {n : Nat} (h : n < 8) : Run before 17 (Bits.ofNumber 3 n) (List.replicate (n + 3) 0)
  | manyZeros {n : Nat} (h : n < 128) :
    Run before 18 (Bits.ofNumber 7 n) (List.replicate (n + 11) 0)

/-- Symbols of the code for word lengths, in bits, and how they extend the lengths before them. -/
inductive Runs (code : List Nat) : List Nat → List Nat → Bits → Prop where
  | done {lengths : List Nat} : Runs code lengths lengths []
  | run {symbol : Nat} {before piece after : List Nat} {word extra rest : Bits}
    (hword : (symbol, word) ∈ words code) (hrun : Run before symbol extra piece)
    (hrest : Runs code (before ++ piece) after rest) :
    Runs code before after (word ++ extra ++ rest)

theorem readRun_append {before piece : List Nat} {symbol : Nat} {extra : Bits}
    (h : Run before symbol extra piece) (rest : Bits) :
    ∃ n length, piece = List.replicate (n + 1) length ∧
      readRun symbol before.getLast? (extra ++ rest) = some ((n + 1, length), rest) := by
  cases h with
  | once h =>
    refine ⟨0, symbol, rfl, ?_⟩
    rw [readRun, if_pos h]
    rfl
  | @again n length h hlast =>
    refine ⟨n + 2, length, rfl, ?_⟩
    rw [readRun, if_neg (by decide), if_pos rfl, Bits.readNumber_ofNumber_append h, hlast]
    rfl
  | @zeros n h =>
    refine ⟨n + 2, 0, rfl, ?_⟩
    rw [readRun, if_neg (by decide), if_neg (by decide), if_pos rfl,
      Bits.readNumber_ofNumber_append h]
    rfl
  | @manyZeros n h =>
    refine ⟨n + 10, 0, rfl, ?_⟩
    rw [readRun, if_neg (by decide), if_neg (by decide), if_neg (by decide),
      Bits.readNumber_ofNumber_append h]
    rfl

theorem Run.length_pos {before piece : List Nat} {symbol : Nat} {extra : Bits}
    (h : Run before symbol extra piece) : 0 < piece.length := by
  rcases readRun_append h [] with ⟨n, length, rfl, _⟩
  rw [List.length_replicate]
  exact Nat.succ_pos n

theorem Runs.length_le {code before after : List Nat} {bits : Bits}
    (h : Runs code before after bits) : before.length ≤ after.length := by
  induction h with
  | done => exact Nat.le_refl _
  | run _ _ _ ih =>
    rw [List.length_append] at ih
    omega

theorem readLengths_of_lt {code : PrefixCode} {count : Nat} {lengths : List Nat}
    (h : lengths.length < count) (bits : Bits) :
    readLengths code count bits lengths =
      match code.read bits with
      | none => none
      | some (symbol, rest) =>
        match readRun symbol lengths.head? rest with
        | none => none
        | some ((n, length), rest) =>
          readLengths code count rest (List.replicate n length ++ lengths) := by
  rw [readLengths, if_neg (by omega), if_neg (by omega)]
  split
  . next hread => rw [hread]
  . next hread =>
    rw [hread]
    dsimp only
    split
    . next hrun => rw [hrun]
    . next hrun => rw [hrun]

theorem readLengths_append {code before after : List Nat} (hcode : isUsable code) {bits : Bits}
    (h : Runs code before after bits) (rest : Bits) :
    readLengths (.ofLengths code) after.length (bits ++ rest) before.reverse =
      some (after.reverse, rest) := by
  induction h with
  | done =>
    rw [readLengths, List.length_reverse, if_pos rfl]
    rfl
  | @run symbol before piece after word extra rest' hword hrun hrest ih =>
    have hpos := hrun.length_pos
    have hle := hrest.length_le
    rw [List.length_append] at hle
    rcases readRun_append hrun (rest' ++ rest) with ⟨n, length, rfl, hread⟩
    rw [List.append_assoc, List.append_assoc,
      readLengths_of_lt (by rw [List.length_reverse]; omega),
      PrefixCode.read_append hcode hword]
    dsimp only
    rw [List.head?_reverse, hread]
    dsimp only
    rw [List.reverse_append, List.reverse_replicate] at ih
    exact ih

/-- The word lengths of the code for word lengths, from those that a block gives. -/
def codeLengths (given : List Nat) : List Nat :=
  (List.range 19).map fun i => ((codeLengthOrder.zip given).lookup i).getD 0

/-- The bits that tell the codes of a block. -/
inductive Describes (l : WordLengths) : Bits → Prop where
  | intro {given : List Nat} {bits : Bits}
    (hliterals : 257 ≤ l.literals.length ∧ l.literals.length ≤ 286)
    (hdistances : 1 ≤ l.distances.length ∧ l.distances.length ≤ 30)
    (hgiven : 4 ≤ given.length ∧ given.length ≤ 19) (hsmall : ∀ length ∈ given, length < 8)
    (hcode : isUsable (codeLengths given))
    (hruns : Runs (codeLengths given) [] (l.literals ++ l.distances) bits) :
    Describes l (Bits.ofNumber 5 (l.literals.length - 257) ++
      Bits.ofNumber 5 (l.distances.length - 1) ++ Bits.ofNumber 4 (given.length - 4) ++
      given.flatMap (Bits.ofNumber 3) ++ bits)

theorem readCodes_append {l : WordLengths} (hl : l.Usable) {bits : Bits} (h : Describes l bits)
    (rest : Bits) : readCodes (bits ++ rest) = some (l.codes, rest) := by
  cases h with
  | @intro given bits hliterals hdistances hgiven hsmall hcode hruns =>
    have hlengths := readLengths_append hcode hruns rest
    rw [List.length_append, List.reverse_nil] at hlengths
    have hnumbers := @Bits.readNumbers_append 3 given hsmall (bits ++ rest)
    have hcode' : PrefixCode.ofLengths? (codeLengths given) =
        some (.ofLengths (codeLengths given)) :=
      if_pos hcode
    unfold readCodes
    simp only [List.append_assoc]
    rw [Bits.readNumber_ofNumber_append (by omega), Option.bind_eq_bind, Option.bind_some]
    dsimp only
    rw [Bits.readNumber_ofNumber_append (by omega), Option.bind_some]
    dsimp only
    rw [Bits.readNumber_ofNumber_append (by omega), Option.bind_some]
    dsimp only
    rw [Nat.sub_add_cancel hliterals.1, Nat.sub_add_cancel hdistances.1,
      Nat.sub_add_cancel hgiven.1, if_pos ⟨hliterals.2, hdistances.2⟩, hnumbers,
      Option.bind_eq_bind, Option.bind_some]
    dsimp only
    change (PrefixCode.ofLengths? (codeLengths given)).bind _ = _
    rw [hcode', Option.bind_some, hlengths, Option.bind_eq_bind, Option.bind_some]
    dsimp only
    rw [List.reverse_reverse, List.take_left, List.drop_left, PrefixCode.ofLengths?,
      if_pos hl.literals, Option.bind_some, PrefixCode.ofLengths?, if_pos hl.distances,
      Option.bind_some]
    rfl

/-- The bits of a block from its kind on, where some bits stand before it, and how it extends the
data before it. -/
inductive Block (position : Nat) (before : Bytes) : Bytes → Bits → Prop where
  | stored {piece : Bytes} {filling : Bits} (hfilling : filling.length < 8)
    (haligned : (position + 2 + filling.length) % 8 = 0) (hpiece : piece.length < 2 ^ 16) :
    Block position before (before ++ piece) (Bits.ofNumber 2 0 ++ filling ++
      Bits.ofNumber 16 piece.length ++ Bits.ofNumber 16 (65535 - piece.length) ++
      Bits.ofBytes piece)
  | fixed {after : Bytes} {bits : Bits} (hcontent : Says .fixed before after bits) :
    Block position before after (Bits.ofNumber 2 1 ++ bits)
  | coded {l : WordLengths} {after : Bytes} {description bits : Bits} (hl : l.Usable)
    (hdescribes : Describes l description) (hcontent : Says l before after bits) :
    Block position before after (Bits.ofNumber 2 2 ++ description ++ bits)

theorem inflateStored_append {piece : Bytes} {filling rest : Bits} (hfilling : filling.length < 8)
    (hpiece : piece.length < 2 ^ 16) (haligned : rest.length % 8 = 0) (before : Bytes) :
    inflateStored (filling ++ Bits.ofNumber 16 piece.length ++
      Bits.ofNumber 16 (65535 - piece.length) ++ Bits.ofBytes piece ++ rest) before.toArray =
        some ((before ++ piece).toArray, rest) := by
  have hdrop : (filling ++ Bits.ofNumber 16 piece.length ++
      Bits.ofNumber 16 (65535 - piece.length) ++ Bits.ofBytes piece ++ rest).length % 8 =
        filling.length := by
    simp only [List.length_append, Bits.length_ofNumber, Bits.length_ofBytes]
    omega
  have hbytes : (piece.map UInt8.toNat).map UInt8.ofNat = piece := by
    rw [List.map_map]
    exact List.map_id'' (fun _ => UInt8.ofNat_toNat) piece
  unfold inflateStored
  dsimp only
  rw [hdrop]
  simp only [List.append_assoc]
  rw [List.drop_left, Bits.readNumber_ofNumber_append hpiece, Option.bind_eq_bind, Option.bind_some]
  dsimp only
  rw [Bits.readNumber_ofNumber_append (by omega), Option.bind_some]
  dsimp only
  rw [if_pos (by omega), Bits.readNumbers_ofBytes_append, Option.bind_eq_bind,
    Option.bind_some]
  dsimp only
  rw [hbytes, List.append_toArray]
  rfl

/-- Blocks up to the last one, where some bits stand before them, and how they extend the data
before them. -/
inductive Blocks : Nat → Bytes → Bytes → Bits → Prop where
  | last {position : Nat} {before after : Bytes} {bits : Bits}
    (hblock : Block (position + 1) before after bits) : Blocks position before after (true :: bits)
  | more {position : Nat} {before middle after : Bytes} {bits rest : Bits}
    (hblock : Block (position + 1) before middle bits)
    (hrest : Blocks (position + 1 + bits.length) middle after rest) :
    Blocks position before after (false :: (bits ++ rest))

theorem inflateBlock_append {position : Nat} {before after : Bytes} {bits : Bits}
    (h : Block position before after bits) (rest : Bits)
    (haligned : (position + bits.length + rest.length) % 8 = 0) :
    ∃ k₀ k₁ bits', bits = k₀ :: k₁ :: bits' ∧
      inflateBlock (k₀.toNat + 2 * k₁.toNat) (bits' ++ rest) before.toArray =
        some (after.toArray, rest) := by
  cases h with
  | stored hfilling hstart hpiece =>
    have hrest : rest.length % 8 = 0 := by
      simp only [List.length_append, Bits.length_ofNumber, Bits.length_ofBytes] at haligned
      omega
    exact ⟨false, false, _, rfl, inflateStored_append hfilling hpiece hrest before⟩
  | fixed hcontent =>
    have hread := inflateSymbols_append WordLengths.usable_fixed hcontent rest
    rw [WordLengths.codes_fixed] at hread
    exact ⟨true, false, _, rfl, hread⟩
  | @coded l _ description bits hl hdescribes hcontent =>
    refine ⟨false, true, description ++ bits, rfl, ?_⟩
    change (readCodes (description ++ bits ++ rest)).bind _ = _
    rw [List.append_assoc, readCodes_append hl hdescribes, Option.bind_some]
    exact inflateSymbols_append hl hcontent rest

theorem inflateBlocks_cons (isLast k₀ k₁ : Bool) (bits : Bits) (out : Array UInt8) :
    inflateBlocks (isLast :: k₀ :: k₁ :: bits) out =
      match inflateBlock (k₀.toNat + 2 * k₁.toNat) bits out with
      | none => none
      | some (out, rest) => if isLast then some (out, rest) else inflateBlocks rest out := by
  rw [inflateBlocks]
  split
  all_goals next hread => rw [hread]

theorem inflateBlocks_append {position : Nat} {before after : Bytes} {bits : Bits}
    (h : Blocks position before after bits) (rest : Bits)
    (haligned : (position + bits.length + rest.length) % 8 = 0) :
    inflateBlocks (bits ++ rest) before.toArray = some (after.toArray, rest) := by
  induction h with
  | last hblock =>
    rw [List.length_cons] at haligned
    rcases inflateBlock_append hblock rest (by omega) with ⟨k₀, k₁, bits, rfl, hread⟩
    rw [List.cons_append, List.cons_append, List.cons_append, inflateBlocks_cons, hread]
    rfl
  | @more _ _ _ _ _ rest' hblock _ ih =>
    rw [List.length_cons, List.length_append] at haligned
    rcases inflateBlock_append hblock (rest' ++ rest)
      (by rw [List.length_append]; omega) with ⟨k₀, k₁, bits, rfl, hread⟩
    rw [List.cons_append, List.append_assoc, List.cons_append, List.cons_append,
      inflateBlocks_cons, hread]
    exact ih (by omega)

/-- Whether bytes are compressed data. What fills up their last byte does not matter. -/
def Compressed (data packed : Bytes) : Prop :=
  ∃ bits filling, Blocks 0 [] data bits ∧ filling.length < 8 ∧
    Bits.ofBytes packed = bits ++ filling

/-- Compressed data is inflated to the data that it was made from, with anything behind it. -/
theorem inflate?_append {data packed : Bytes} (h : Compressed data packed) (rest : Bytes) :
    inflate? (packed ++ rest) = some (data, rest) := by
  rcases h with ⟨bits, filling, hblocks, hfilling, hbits⟩
  have hlength := Bits.length_ofBytes packed
  rw [hbits, List.length_append] at hlength
  have haligned : (0 + bits.length + (filling ++ Bits.ofBytes rest).length) % 8 = 0 := by
    rw [List.length_append, Bits.length_ofBytes]
    omega
  have hread := inflateBlocks_append hblocks _ haligned
  have hrest : (packed ++ rest).length - (filling ++ Bits.ofBytes rest).length / 8 =
      packed.length := by
    rw [List.length_append, List.length_append, Bits.length_ofBytes]
    omega
  rw [inflate?, Bits.ofBytes_append, hbits, List.append_assoc]
  change (inflateBlocks _ [].toArray).bind _ = _
  rw [hread, Option.bind_some]
  dsimp only
  rw [hrest, List.drop_left]
  rfl

end Keyring.Deflate
