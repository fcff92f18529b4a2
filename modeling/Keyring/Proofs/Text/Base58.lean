import Keyring.Error
import Keyring.Proofs.Bytes
import Mathlib.Data.Nat.Digits.Lemmas
/-!
This module contains the laws of base 58. The digits of a number and the number that they spell undo
each other, and so do leading zero bytes and leading ones, which gives each byte string one text and
each text over the alphabet one byte string. Key hashes are the byte strings of four bytes.
-/

namespace Keyring

theorem takeWhile_beq_eq_replicate {α : Type} [BEq α] [LawfulBEq α] (a : α) (xs : List α) :
    xs.takeWhile (· == a) = List.replicate (xs.takeWhile (· == a)).length a := by
  apply List.eq_replicate_of_mem
  intro x hx
  exact eq_of_beq (List.all_eq_true.mp List.all_takeWhile x hx)

theorem replicate_append_dropWhile {α : Type} [BEq α] [LawfulBEq α] (a : α) (xs : List α) :
    List.replicate (xs.takeWhile (· == a)).length a ++ xs.dropWhile (· == a) = xs := by
  rw [← takeWhile_beq_eq_replicate, List.takeWhile_append_dropWhile]

theorem length_takeWhile_replicate_append {α : Type} [BEq α] [LawfulBEq α] {a : α} {xs : List α}
    (h : xs.head? ≠ some a) (n : Nat) :
    ((List.replicate n a ++ xs).takeWhile (· == a)).length = n := by
  have hxs : xs.takeWhile (· == a) = [] := by
    cases xs with
    | nil => rfl
    | cons x xs =>
      apply List.takeWhile_cons_of_neg
      simpa using h
  rw [List.takeWhile_append_of_pos, hxs, List.append_nil, List.length_replicate]
  intro x hx
  rw [List.eq_of_mem_replicate hx]
  exact BEq.rfl

theorem head?_dropWhile_beq_ne {α : Type} [BEq α] [LawfulBEq α] (a : α) (xs : List α) :
    (xs.dropWhile (· == a)).head? ≠ some a := by
  intro h
  have hnot := List.head?_dropWhile_not (· == a) xs
  rw [h] at hnot
  simp at hnot

theorem Bytes.toNat_replicate_append (n : Nat) (bs : Bytes) :
    toNat (List.replicate n 0 ++ bs) = toNat bs := by
  induction n with
  | zero => rfl
  | succ n ih =>
    rw [List.replicate_succ, List.cons_append, ← ih]
    rfl

namespace Text.Base58

theorem length_alphabet : alphabet.length = 58 := by
  decide +kernel

theorem digit?_charOf : ∀ d < 58, digit? (charOf d) = some d := by
  decide +kernel

theorem digit?_eq_some_iff {c : Char} {d : Nat} : digit? c = some d ↔ d < 58 ∧ charOf d = c := by
  constructor
  . intro h
    rcases List.idxOf?_eq_some_iff.mp h with ⟨hlt, hc, _⟩
    refine ⟨length_alphabet ▸ hlt, ?_⟩
    simp [charOf, hlt, hc]
  . rintro ⟨hlt, rfl⟩
    exact digit?_charOf d hlt

theorem charOf_inj {d e : Nat} (hd : d < 58) (he : e < 58) : charOf d = charOf e ↔ d = e := by
  constructor
  . intro h
    have hdigit := digit?_charOf d hd
    rw [h, digit?_charOf e he, Option.some.injEq] at hdigit
    exact hdigit.symm
  . rintro rfl
    rfl

theorem exists_digit_of_mem {c : Char} (h : c ∈ alphabet) : ∃ d < 58, charOf d = c := by
  cases hdigit : digit? c with
  | none => exact absurd h (List.idxOf?_eq_none_iff.mp hdigit)
  | some d => exact ⟨d, digit?_eq_some_iff.mp hdigit⟩

theorem mapM_digit?_eq_some_iff {cs : List Char} {ds : List Nat} :
    cs.mapM digit? = some ds ↔ (∀ d ∈ ds, d < 58) ∧ ds.map charOf = cs := by
  induction cs generalizing ds with
  | nil => cases ds <;> simp
  | cons c cs ih =>
    simp only [List.mapM_cons, Option.bind_eq_bind, Option.bind_eq_some_iff, Option.pure_def,
      Option.some.injEq, ih, digit?_eq_some_iff]
    constructor
    . rintro ⟨d, ⟨hd, rfl⟩, ds, ⟨hds, rfl⟩, rfl⟩
      exact ⟨List.forall_mem_cons.mpr ⟨hd, hds⟩, rfl⟩
    . rintro ⟨hlt, heq⟩
      rcases List.map_eq_cons_iff.mp heq with ⟨d, ds, rfl, rfl, rfl⟩
      rw [List.forall_mem_cons] at hlt
      exact ⟨d, ⟨hlt.1, rfl⟩, ds, ⟨hlt.2, rfl⟩, rfl⟩

theorem exists_digits {cs : List Char} (h : ∀ c ∈ cs, c ∈ alphabet) :
    ∃ ds : List Nat, (∀ d ∈ ds, d < 58) ∧ ds.map charOf = cs := by
  induction cs with
  | nil => exact ⟨[], by simp⟩
  | cons c cs ih =>
    rw [List.forall_mem_cons] at h
    rcases exists_digit_of_mem h.1 with ⟨d, hd, rfl⟩
    rcases ih h.2 with ⟨ds, hds, rfl⟩
    exact ⟨d :: ds, List.forall_mem_cons.mpr ⟨hd, hds⟩, rfl⟩

theorem digitsOf.go_eq (n : Nat) (acc : List Nat) :
    digitsOf.go n acc = (Nat.digits 58 n).reverse ++ acc := by
  fun_induction digitsOf.go n acc with
  | case1 acc => simp
  | case2 n acc hn ih =>
    rw [ih, Nat.digits_def' (by decide) (Nat.pos_of_ne_zero hn), List.reverse_cons,
      List.append_assoc, List.singleton_append]

theorem digitsOf_eq (n : Nat) : digitsOf n = (Nat.digits 58 n).reverse := by
  rw [digitsOf, digitsOf.go_eq, List.append_nil]

theorem value_eq (ds : List Nat) : value ds = Nat.ofDigits 58 ds.reverse := by
  unfold value
  rw [← List.foldr_reverse, Nat.ofDigits_eq_foldr]
  congr
  funext d n
  simp only [Nat.cast_id]
  omega

theorem value_digitsOf (n : Nat) : value (digitsOf n) = n := by
  rw [value_eq, digitsOf_eq, List.reverse_reverse, Nat.ofDigits_digits]

theorem lt_of_mem_digitsOf {n : Nat} : ∀ d ∈ digitsOf n, d < 58 := by
  intro d hd
  rw [digitsOf_eq, List.mem_reverse] at hd
  exact Nat.digits_lt_base (by decide) hd

theorem head?_digitsOf_ne (n : Nat) : (digitsOf n).head? ≠ some 0 := by
  rw [digitsOf_eq, List.head?_reverse]
  intro h
  rcases List.getLast?_eq_some_iff.mp h with ⟨ds, hds⟩
  have hne : n ≠ 0 := by
    rintro rfl
    simp at hds
  have hlast := Nat.getLast_digit_ne_zero 58 hne
  simp [hds] at hlast

theorem digitsOf_value {ds : List Nat} (hlt : ∀ d ∈ ds, d < 58) (hhead : ds.head? ≠ some 0) :
    digitsOf (value ds) = ds := by
  rw [digitsOf_eq, value_eq, Nat.digits_ofDigits 58 (by decide), List.reverse_reverse]
  . intro d hd
    exact hlt d (List.mem_reverse.mp hd)
  . intro hne hlast
    rw [List.getLast_reverse] at hlast
    apply hhead
    rw [List.head?_eq_some_head (List.reverse_ne_nil_iff.mp hne), hlast]

theorem value_replicate_append (n : Nat) (ds : List Nat) :
    value (List.replicate n 0 ++ ds) = value ds := by
  induction n with
  | zero => rfl
  | succ n ih =>
    rw [List.replicate_succ, List.cons_append, ← ih]
    rfl

theorem decode?_eq_some_iff {text : String} {bs : Bytes} :
    decode? text = some bs ↔ ∃ ds : List Nat, (∀ d ∈ ds, d < 58) ∧ ds.map charOf = text.toList ∧
      List.replicate (ds.takeWhile (· == 0)).length 0 ++ Bytes.ofNat (value ds) = bs := by
  unfold decode?
  simp only [Option.bind_eq_bind, Option.bind_eq_some_iff, Option.pure_def, Option.some.injEq,
    mapM_digit?_eq_some_iff, and_assoc]

theorem decode?_eq_none {text : String} {c : Char} (hc : c ∈ text.toList) (h : c ∉ alphabet) :
    decode? text = none := by
  rw [Option.eq_none_iff_forall_ne_some]
  intro bs hbs
  rcases decode?_eq_some_iff.mp hbs with ⟨ds, hlt, htext, _⟩
  rw [← htext] at hc
  rcases List.mem_map.mp hc with ⟨d, hd, rfl⟩
  have hdigit := digit?_charOf d (hlt d hd)
  rw [digit?, List.idxOf?_eq_none_iff.mpr h] at hdigit
  simp at hdigit

theorem toList_encode (bs : Bytes) :
    (encode bs).toList =
      (List.replicate (bs.takeWhile (· == 0)).length 0 ++
        digitsOf (Bytes.toNat bs)).map charOf := by
  rw [encode, String.toList_ofList, List.map_append, List.map_replicate]
  rfl

theorem decode?_encode (bs : Bytes) : decode? (encode bs) = some bs := by
  rw [decode?_eq_some_iff]
  refine ⟨_, ?_, (toList_encode bs).symm, ?_⟩
  . intro d hd
    rcases List.mem_append.mp hd with hzero | hdigit
    . rw [List.eq_of_mem_replicate hzero]
      decide
    . exact lt_of_mem_digitsOf d hdigit
  . rw [length_takeWhile_replicate_append (head?_digitsOf_ne _), value_replicate_append,
      value_digitsOf, Bytes.ofNat_toNat]
    exact replicate_append_dropWhile 0 bs

theorem head?_ofNat_ne (n : Nat) : (Bytes.ofNat n).head? ≠ some 0 := by
  rw [← Bytes.stripZeros_eq_self_iff, ← Bytes.ofNat_toNat, Bytes.toNat_ofNat]

theorem encode_of_decode?_eq_some {text : String} {bs : Bytes} (h : decode? text = some bs) :
    encode bs = text := by
  rcases decode?_eq_some_iff.mp h with ⟨ds, hlt, htext, rfl⟩
  have hsplit := replicate_append_dropWhile 0 ds
  -- Behind its leading zeros a text has the digits of the number that it spells.
  have hvalue := value_replicate_append (ds.takeWhile (· == 0)).length (ds.dropWhile (· == 0))
  rw [hsplit] at hvalue
  have hdigits : digitsOf (value ds) = ds.dropWhile (· == 0) := by
    rw [hvalue]
    apply digitsOf_value _ (head?_dropWhile_beq_ne 0 ds)
    intro d hd
    exact hlt d (List.dropWhile_subset _ hd)
  apply String.toList_injective
  rw [toList_encode, length_takeWhile_replicate_append (head?_ofNat_ne _),
    Bytes.toNat_replicate_append, Bytes.toNat_ofNat, hdigits, hsplit, htext]

/-- What a text over the alphabet stands for. Each leading one is a leading zero byte, and text and
bytes spell the same number. -/
structure Denotes (text : String) (bs : Bytes) : Prop where
  zeros_eq : (bs.takeWhile (· == 0)).length = (text.toList.takeWhile (· == '1')).length
  number_eq : Bytes.toNat bs = value (text.toList.map alphabet.idxOf)

theorem idxOf_charOf : ∀ d < 58, alphabet.idxOf (charOf d) = d := by
  decide +kernel

theorem map_idxOf_map_charOf {ds : List Nat} (h : ∀ d ∈ ds, d < 58) :
    (ds.map charOf).map alphabet.idxOf = ds := by
  have hself : ∀ d ∈ ds, (alphabet.idxOf ∘ charOf) d = id d :=
    fun d hd => idxOf_charOf d (h d hd)
  rw [List.map_map, List.map_congr_left hself, List.map_id]

theorem length_takeWhile_map_charOf {ds : List Nat} (h : ∀ d ∈ ds, d < 58) :
    ((ds.map charOf).takeWhile (· == '1')).length = (ds.takeWhile (· == 0)).length := by
  induction ds with
  | nil => rfl
  | cons d ds ih =>
    rw [List.forall_mem_cons] at h
    have hone : (charOf d == '1') = (d == 0) := by
      rw [Bool.eq_iff_iff, beq_iff_eq, beq_iff_eq]
      exact charOf_inj h.1 (by decide : 0 < 58)
    rw [List.map_cons, List.takeWhile_cons, List.takeWhile_cons, hone]
    split
    . rw [List.length_cons, List.length_cons, ih h.2]
    . rfl

theorem denotes_iff {text : String} (h : ∀ c ∈ text.toList, c ∈ alphabet) {bs : Bytes} :
    Denotes text bs ↔ decode? text = some bs := by
  rcases exists_digits h with ⟨ds, hlt, htext⟩
  have hdecode : decode? text = some
      (List.replicate (ds.takeWhile (· == 0)).length 0 ++ Bytes.ofNat (value ds)) :=
    decode?_eq_some_iff.mpr ⟨ds, hlt, htext, rfl⟩
  rw [hdecode, Option.some.injEq]
  constructor
  . intro hdenotes
    have hzeros := hdenotes.zeros_eq
    have hnumber := hdenotes.number_eq
    rw [← htext, length_takeWhile_map_charOf hlt] at hzeros
    rw [← htext, map_idxOf_map_charOf hlt] at hnumber
    rw [← hzeros, ← hnumber, Bytes.ofNat_toNat]
    exact replicate_append_dropWhile 0 bs
  . rintro rfl
    constructor
    . rw [length_takeWhile_replicate_append (head?_ofNat_ne _), ← htext,
        length_takeWhile_map_charOf hlt]
    . rw [Bytes.toNat_replicate_append, Bytes.toNat_ofNat, ← htext, map_idxOf_map_charOf hlt]

theorem exists_decode?_eq_some {text : String} (h : ∀ c ∈ text.toList, c ∈ alphabet) :
    ∃ bs, decode? text = some bs := by
  rcases exists_digits h with ⟨ds, hlt, htext⟩
  exact ⟨_, decode?_eq_some_iff.mpr ⟨ds, hlt, htext, rfl⟩⟩

end Text.Base58

namespace KeyHash

theorem ofBytes_of_length_eq {bs : Bytes} (h : bs.length = 4) : ofBytes bs = .ok ⟨bs, h⟩ := by
  rw [ofBytes, ofBytes?, dif_pos h]

theorem ofBytes_of_length_ne {bs : Bytes} (h : bs.length ≠ 4) :
    ofBytes bs = .error (.badLength "get key hash" 4 bs.length) := by
  rw [ofBytes, ofBytes?, dif_neg h]
  rfl

theorem ofBase58_eq_ok_iff {text : String} {h : KeyHash} :
    ofBase58 text = .ok h ↔ Text.Base58.decode? text = some h.bytes := by
  unfold ofBase58
  cases Text.Base58.decode? text with
  | none => simp
  | some bs =>
    rw [Option.some.injEq]
    by_cases hlength : bs.length = 4
    . dsimp only
      rw [ofBytes_of_length_eq hlength, Except.ok.injEq]
      cases h
      simp
    . dsimp only
      rw [ofBytes_of_length_ne hlength]
      simp only [reduceCtorEq, false_iff]
      rintro rfl
      exact hlength h.length_bytes

theorem toBase58_of_ofBase58_eq_ok {text : String} {h : KeyHash} (hok : ofBase58 text = .ok h) :
    h.toBase58 = text := by
  exact Text.Base58.encode_of_decode?_eq_some (ofBase58_eq_ok_iff.mp hok)

theorem ofBase58_of_denotes {text : String} (h : ∀ c ∈ text.toList, c ∈ Text.Base58.alphabet)
    {bs : Bytes} (hbs : Text.Base58.Denotes text bs) : ofBase58 text = ofBytes bs := by
  rw [ofBase58, (Text.Base58.denotes_iff h).mp hbs]

/-- Key hashes and the texts that are read as one correspond to each other. A text over the alphabet
stands for one byte string and is read if this has four bytes, and no other text is. -/
theorem base58_canonical :
    (∀ h : KeyHash, ofBase58 h.toBase58 = .ok h) ∧
    (∀ text h, ofBase58 text = .ok h → h.toBase58 = text) ∧
    (∀ text text' h, ofBase58 text = .ok h → ofBase58 text' = .ok h → text = text') ∧
    (∀ text : String, (∃ c ∈ text.toList, c ∉ Text.Base58.alphabet) →
      ofBase58 text = .error (.badFormat "Not valid Base58")) ∧
    (∀ text : String, (∀ c ∈ text.toList, c ∈ Text.Base58.alphabet) →
      ∃ bs, (∀ bs', Text.Base58.Denotes text bs' ↔ bs' = bs) ∧
        (∀ h : bs.length = 4, ofBase58 text = .ok ⟨bs, h⟩) ∧
        (bs.length ≠ 4 → ofBase58 text = .error (.badLength "get key hash" 4 bs.length))) := by
  refine ⟨?_, ?_, ?_, ?_, ?_⟩
  . intro h
    rw [ofBase58_eq_ok_iff]
    exact Text.Base58.decode?_encode h.bytes
  . intro text h hok
    exact toBase58_of_ofBase58_eq_ok hok
  . intro text text' h hok hok'
    rw [← toBase58_of_ofBase58_eq_ok hok, ← toBase58_of_ofBase58_eq_ok hok']
  . rintro text ⟨c, hc, halphabet⟩
    rw [ofBase58, Text.Base58.decode?_eq_none hc halphabet]
  . intro text htext
    rcases Text.Base58.exists_decode?_eq_some htext with ⟨bs, hbs⟩
    have hdenotes := (Text.Base58.denotes_iff htext).mpr hbs
    have hread := ofBase58_of_denotes htext hdenotes
    refine ⟨bs, ?_, ?_, ?_⟩
    . intro bs'
      rw [Text.Base58.denotes_iff htext, hbs, Option.some.injEq, eq_comm]
    . intro hlength
      rw [hread, ofBytes_of_length_eq hlength]
    . intro hlength
      rw [hread, ofBytes_of_length_ne hlength]

/-- A hash that starts and ends with zero bytes. -/
def zeroEnded : KeyHash :=
  ⟨[0, 0, 1, 0], rfl⟩

theorem base58_canonical_zeroEnded :
    zeroEnded.toBase58 = "115R" ∧ ofBase58 "115R" = .ok zeroEnded ∧
      (∀ text, ofBase58 text = .ok zeroEnded → text = "115R") ∧
      ofBase58 "115R0" = .error (.badFormat "Not valid Base58") ∧
      ofBase58 "1115R" = .error (.badLength "get key hash" 4 5) := by
  have htext : zeroEnded.toBase58 = "115R" := by decide +kernel
  rcases base58_canonical with ⟨hround, _, hunique, hformat, hlength⟩
  have hread := hround zeroEnded
  rw [htext] at hread
  refine ⟨htext, hread, ?_, ?_, ?_⟩
  . intro text h
    exact hunique _ _ _ h hread
  . exact hformat _ ⟨'0', by decide, by decide +kernel⟩
  . have halphabet : "1115R".toList ⊆ Text.Base58.alphabet := by decide +kernel
    rcases hlength "1115R" halphabet with ⟨bs, hbs, _, hbad⟩
    rw [← (hbs [0, 0, 0, 1, 0]).mp ⟨by decide +kernel, by decide +kernel⟩] at hbad
    exact hbad (by decide)

end KeyHash

end Keyring
