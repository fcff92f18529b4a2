import Keyring.Deflate.PrefixCode
import Keyring.Proofs.Deflate.Bits
import Mathlib.Tactic.Ring
/-!
This module contains the proof that the tree of a prefix code reads each of its words as the symbol
that the word is for. A word of `n` bits is seen as the interval of all strings of bits that start
with it. The words that lengths determine take up consecutive intervals, and these do not overlap
because the lengths leave room for all of them.
-/

namespace Keyring.Deflate

namespace Bits

/-- Neither of two words starts with the other. -/
def Apart (w w' : Bits) : Prop :=
  ¬w <+: w' ∧ ¬w' <+: w

theorem Apart.symm {w w' : Bits} (h : w.Apart w') : w'.Apart w := by
  exact ⟨h.2, h.1⟩

/-- The number that a word spells, highest bit first. -/
def value (w : Bits) : Nat :=
  toNumber w.reverse

theorem value_ofWord {n v : Nat} (h : v < 2 ^ n) : (ofWord n v).value = v := by
  rw [value, ofWord, List.reverse_reverse, toNumber_ofNumber, Nat.mod_eq_of_lt h]

theorem value_append (w x : Bits) : (w ++ x).value = x.value + 2 ^ x.length * w.value := by
  rw [value, value, value, List.reverse_append, toNumber_append, List.length_reverse]

theorem value_lt (w : Bits) : w.value < 2 ^ w.length := by
  rw [value, ← List.length_reverse]
  exact toNumber_lt _

/-- Where the interval of a word starts among the numbers below `2 ^ 16`. -/
def start (w : Bits) : Nat :=
  w.value * 2 ^ (16 - w.length)

/-- Where the interval of a word ends. -/
def stop (w : Bits) : Nat :=
  (w.value + 1) * 2 ^ (16 - w.length)

theorem start_lt_stop (w : Bits) : w.start < w.stop := by
  apply Nat.mul_lt_mul_of_pos_right (Nat.lt_succ_self _)
  exact Nat.two_pow_pos _

theorem interval_subset {w w' : Bits} (h : w <+: w') (hlength : w'.length ≤ 16) :
    w.start ≤ w'.start ∧ w'.stop ≤ w.stop := by
  rcases h with ⟨x, rfl⟩
  rw [List.length_append] at hlength
  have hpow : 2 ^ (16 - w.length) = 2 ^ x.length * 2 ^ (16 - (w ++ x).length) := by
    rw [← Nat.pow_add, List.length_append]
    congr 1
    omega
  have hx := value_lt x
  unfold start stop
  rw [hpow, ← Nat.mul_assoc, ← Nat.mul_assoc, value_append, Nat.add_mul w.value, Nat.one_mul,
    Nat.mul_comm w.value]
  constructor
  . apply Nat.mul_le_mul_right
    omega
  . apply Nat.mul_le_mul_right
    omega

theorem apart_of_stop_le_start {w w' : Bits} (hlength : w.length ≤ 16) (hlength' : w'.length ≤ 16)
    (h : w.stop ≤ w'.start) : w.Apart w' := by
  have hw := start_lt_stop w
  have hw' := start_lt_stop w'
  constructor
  . intro hstarts
    have := (interval_subset hstarts hlength').2
    omega
  . intro hstarts
    have := (interval_subset hstarts hlength).1
    omega

end Bits

namespace CodeTree

/-- What is left of a tree behind a bit. -/
def child : CodeTree → Bool → CodeTree
  | .node zero one, b => if b then one else zero
  | _, _ => .unused

theorem child_eq_unused {t : CodeTree} (h : ∀ zero one, t ≠ .node zero one) (b : Bool) :
    t.child b = .unused := by
  cases t with
  | unused | leaf _ => rfl
  | node zero one => exact absurd rfl (h zero one)

/-- What is left of a tree behind some bits. -/
def follow : CodeTree → Bits → CodeTree
  | t, [] => t
  | t, b :: bits => (t.child b).follow bits

theorem follow_unused (w : Bits) : follow .unused w = .unused := by
  induction w with
  | nil => rfl
  | cons b w ih => exact ih

theorem read_append_of_follow {t : CodeTree} {w : Bits} {symbol : Nat}
    (h : t.follow w = .leaf symbol) (rest : Bits) : t.read (w ++ rest) = some (symbol, rest) := by
  induction w generalizing t with
  | nil =>
    rw [follow] at h
    rw [h, List.nil_append, read]
  | cons b w ih =>
    rw [follow] at h
    cases t with
    | unused | leaf _ => simp [child, follow_unused] at h
    | node zero one =>
      rw [List.cons_append, read]
      cases b with
      | false => exact ih h
      | true => exact ih h

theorem exists_follow_of_read {t : CodeTree} {bits rest : Bits} {symbol : Nat}
    (h : t.read bits = some (symbol, rest)) :
    ∃ w, bits = w ++ rest ∧ t.follow w = .leaf symbol := by
  induction t generalizing bits with
  | unused => simp [read] at h
  | leaf _ =>
    cases h
    exact ⟨[], rfl, rfl⟩
  | node zero one ih₀ ih₁ =>
    cases bits with
    | nil => simp [read] at h
    | cons b bits =>
      rw [read] at h
      cases b with
      | false =>
        rcases ih₀ h with ⟨w, rfl, hw⟩
        exact ⟨false :: w, rfl, hw⟩
      | true =>
        rcases ih₁ h with ⟨w, rfl, hw⟩
        exact ⟨true :: w, rfl, hw⟩

theorem child_insert_self (symbol : Nat) (b : Bool) (w : Bits) (t : CodeTree) :
    (insert symbol (b :: w) t).child b = insert symbol w (t.child b) := by
  cases b with
  | false => cases t <;> rfl
  | true => cases t <;> rfl

theorem child_insert_of_ne (symbol : Nat) {b b' : Bool} (h : b' ≠ b) (w : Bits) (t : CodeTree) :
    (insert symbol (b :: w) t).child b' = t.child b' := by
  cases b with
  | false =>
    rw [Bool.eq_true_of_not_eq_false h]
    cases t <;> rfl
  | true =>
    rw [Bool.eq_false_of_not_eq_true h]
    cases t <;> rfl

theorem follow_insert_self (symbol : Nat) (w : Bits) (t : CodeTree) :
    (insert symbol w t).follow w = .leaf symbol := by
  induction w generalizing t with
  | nil => rfl
  | cons b w ih =>
    rw [follow, child_insert_self]
    exact ih _

theorem follow_insert_of_apart {symbol symbol' : Nat} {w w' : Bits} (h : w.Apart w')
    {t : CodeTree} (ht : t.follow w' = .leaf symbol') :
    (insert symbol w t).follow w' = .leaf symbol' := by
  induction w generalizing w' t with
  | nil => exact absurd List.nil_prefix h.1
  | cons b w ih =>
    cases w' with
    | nil => exact absurd List.nil_prefix h.2
    | cons b' w' =>
      rw [follow] at ht ⊢
      by_cases hb : b' = b
      . subst hb
        unfold Bits.Apart at h
        rw [List.prefix_cons_inj, List.prefix_cons_inj] at h
        rw [child_insert_self]
        exact ih h ht
      . rw [child_insert_of_ne symbol hb]
        exact ht

theorem of_follow_insert {symbol symbol' : Nat} {w w' : Bits} {t : CodeTree}
    (h : (insert symbol w t).follow w' = .leaf symbol') :
    symbol' = symbol ∧ w' = w ∨ t.follow w' = .leaf symbol' := by
  induction w generalizing w' t with
  | nil =>
    cases w' with
    | nil =>
      cases h
      exact .inl ⟨rfl, rfl⟩
    | cons b' w' =>
      change follow .unused w' = _ at h
      simp [follow_unused] at h
  | cons b w ih =>
    cases w' with
    | nil => cases b <;> cases t <;> simp [insert, follow] at h
    | cons b' w' =>
      rw [follow] at h ⊢
      by_cases hb : b' = b
      . subst hb
        rw [child_insert_self] at h
        rcases ih h with ⟨rfl, rfl⟩ | hbefore
        . exact .inl ⟨rfl, rfl⟩
        . exact .inr hbefore
      . rw [child_insert_of_ne symbol hb] at h
        exact .inr h

/-- Puts all symbols of a list at the ends of their words. -/
def insertAll (words : List (Nat × Bits)) (t : CodeTree) : CodeTree :=
  words.foldl (fun t (symbol, word) => insert symbol word t) t

theorem follow_insertAll_of_apart {words : List (Nat × Bits)} {symbol : Nat} {w : Bits}
    (h : ∀ p ∈ words, p.2.Apart w) {t : CodeTree} (ht : t.follow w = .leaf symbol) :
    (insertAll words t).follow w = .leaf symbol := by
  induction words generalizing t with
  | nil => exact ht
  | cons p words ih =>
    rcases List.forall_mem_cons.mp h with ⟨hp, hwords⟩
    exact ih hwords (follow_insert_of_apart hp ht)

theorem follow_insertAll {words : List (Nat × Bits)}
    (hwords : words.Pairwise fun p q => p.2.Apart q.2) {symbol : Nat} {w : Bits}
    (h : (symbol, w) ∈ words) (t : CodeTree) :
    (insertAll words t).follow w = .leaf symbol := by
  induction words generalizing t with
  | nil => simp at h
  | cons p words ih =>
    rcases List.pairwise_cons.mp hwords with ⟨hp, hwords⟩
    cases List.mem_cons.mp h with
    | inl hp' =>
      rw [← hp'] at hp
      change (insertAll words (insert p.1 p.2 t)).follow w = _
      rw [← hp']
      apply follow_insertAll_of_apart
      . intro q hq
        exact (hp q hq).symm
      . exact follow_insert_self _ _ _
    | inr hmem => exact ih hwords hmem _

theorem of_follow_insertAll {words : List (Nat × Bits)} {symbol : Nat} {w : Bits} {t : CodeTree}
    (h : (insertAll words t).follow w = .leaf symbol) :
    (symbol, w) ∈ words ∨ t.follow w = .leaf symbol := by
  induction words generalizing t with
  | nil => exact .inr h
  | cons p words ih =>
    rcases ih h with hmem | hfollow
    . exact .inl (.tail p hmem)
    . rcases of_follow_insert hfollow with ⟨rfl, rfl⟩ | hbefore
      . exact .inl (.head _)
      . exact .inr hbefore

end CodeTree

namespace PrefixCode

variable {lengths : List Nat}

theorem mem_symbolsOf_iff {length symbol : Nat} :
    symbol ∈ symbolsOf lengths length ↔ lengths[symbol]? = some length := by
  unfold symbolsOf
  simp only [List.mem_map, List.mem_filter, beq_iff_eq, Prod.exists, List.mem_zipIdx_iff_getElem?]
  constructor
  . rintro ⟨_, _, ⟨h, rfl⟩, rfl⟩
    exact h
  . intro h
    exact ⟨length, symbol, ⟨h, rfl⟩, rfl⟩

theorem length_symbolsOf (length : Nat) :
    (symbolsOf lengths length).length = lengths.count length := by
  have hfst : (fun p : Nat × Nat => p.1 == length) = (· == length) ∘ Prod.fst := rfl
  unfold symbolsOf
  rw [List.length_map, ← List.countP_eq_length_filter, hfst, ← List.countP_map,
    List.zipIdx_map_fst, List.count]

/-- The part of all strings of bits that the words of `n` lengths from `length` on take, times
`2 ^ (length + n - 1)`. -/
def room (lengths : List Nat) : Nat → Nat → Nat
  | 0, _ => 0
  | n + 1, length => lengths.count length * 2 ^ n + room lengths n (length + 1)

theorem room_cons (l n length : Nat) :
    room (l :: lengths) n length =
      (if length ≤ l ∧ l < length + n then 2 ^ (length + n - 1 - l) else 0) +
        room lengths n length := by
  induction n generalizing length with
  | zero =>
    rw [room, room, if_neg (by omega)]
  | succ n ih =>
    rw [room, room, ih, List.count_cons]
    by_cases hl : l = length
    . subst hl
      rw [beq_self_eq_true, if_pos rfl, if_neg (by omega), if_pos (by omega), Nat.add_mul,
        show l + (n + 1) - 1 - l = n by omega]
      omega
    . have hiff : (length + 1 ≤ l ∧ l < length + 1 + n) ↔ (length ≤ l ∧ l < length + (n + 1)) := by
        omega
      rw [if_neg (by simpa using hl), Nat.add_zero,
        show length + 1 + n - 1 - l = length + (n + 1) - 1 - l by omega]
      simp only [hiff]
      omega

theorem room_le_share (lengths : List Nat) : room lengths maxLength 1 ≤ share lengths := by
  induction lengths with
  | nil => decide
  | cons l lengths ih =>
    rw [room_cons, share, Nat.one_shiftLeft]
    unfold maxLength at ih ⊢
    apply Nat.add_le_add _ ih
    split
    . rw [if_neg (by omega), show 1 + 15 - 1 - l = 15 - l by omega]
    . exact Nat.zero_le _

theorem share_le_mul (lengths : List Nat) :
    share lengths ≤ (lengths.filter (· ≠ 0)).length * 2 ^ 14 := by
  induction lengths with
  | nil => decide
  | cons l lengths ih =>
    rw [share, Nat.one_shiftLeft, List.filter_cons]
    by_cases hl : l = 0
    . rw [if_pos hl, if_neg (by simpa using hl), Nat.zero_add]
      exact ih
    . have hpow : 2 ^ (maxLength - l) ≤ 2 ^ 14 := by
        apply Nat.pow_le_pow_right (by decide)
        unfold maxLength
        omega
      rw [if_neg hl, if_pos (by simpa using hl), List.length_cons]
      omega

theorem room_le_of_isUsable (h : isUsable lengths) : room lengths maxLength 1 ≤ 2 ^ 15 := by
  apply Nat.le_trans (room_le_share lengths)
  unfold isUsable at h
  cases of_decide_eq_true h with
  | inl hall =>
    rw [hall]
    decide
  | inr hfew =>
    have hle := share_le_mul lengths
    omega

section WordsFrom

variable {n length first : Nat}

theorem first_add_count_le (hn : length + (n + 1) = 16)
    (hroom : first * 2 ^ (n + 1) + 2 * room lengths (n + 1) length ≤ 2 ^ 16) :
    first + lengths.count length ≤ 2 ^ length ∧
      (first + lengths.count length) * 2 * 2 ^ n + 2 * room lengths n (length + 1) ≤ 2 ^ 16 := by
  have hsum : (first + lengths.count length) * 2 * 2 ^ n + 2 * room lengths n (length + 1) =
      first * 2 ^ (n + 1) + 2 * room lengths (n + 1) length := by
    rw [room, Nat.pow_succ]
    ring
  rw [← hsum] at hroom
  refine ⟨?_, hroom⟩
  apply Nat.le_of_mul_le_mul_right _ (Nat.two_pow_pos (n + 1))
  rw [← Nat.pow_add, hn, Nat.pow_succ', ← Nat.mul_assoc]
  omega

theorem interval_ofWord (hn : length + n = 16) {v : Nat} (hv : v < 2 ^ length) :
    (Bits.ofWord length v).start = v * 2 ^ n ∧ (Bits.ofWord length v).stop = (v + 1) * 2 ^ n := by
  unfold Bits.start Bits.stop
  rw [Bits.value_ofWord hv, Bits.length_ofWord, show 16 - length = n by omega]
  exact ⟨rfl, rfl⟩

theorem wordsFrom_succ :
    wordsFrom lengths (n + 1) length first =
      (symbolsOf lengths length).zipIdx.map (fun p => (p.1, Bits.ofWord length (first + p.2))) ++
        wordsFrom lengths n (length + 1) ((first + lengths.count length) * 2) := by
  rw [wordsFrom, length_symbolsOf]

theorem mem_wordsFrom_succ {symbol : Nat} {w : Bits} :
    (symbol, w) ∈ wordsFrom lengths (n + 1) length first ↔
      (∃ i, (symbolsOf lengths length)[i]? = some symbol ∧ w = Bits.ofWord length (first + i)) ∨
        (symbol, w) ∈ wordsFrom lengths n (length + 1) ((first + lengths.count length) * 2) := by
  rw [wordsFrom_succ, List.mem_append]
  simp only [List.mem_map, Prod.exists, List.mem_zipIdx_iff_getElem?, Prod.mk.injEq]
  constructor
  . rintro (⟨_, i, hi, rfl, rfl⟩ | hlater)
    . exact .inl ⟨i, hi, rfl⟩
    . exact .inr hlater
  . rintro (⟨i, hi, rfl⟩ | hlater)
    . exact .inl ⟨_, i, hi, rfl, rfl⟩
    . exact .inr hlater

theorem lt_count_of_symbolsOf {i symbol : Nat}
    (h : (symbolsOf lengths length)[i]? = some symbol) : i < lengths.count length := by
  rw [← length_symbolsOf]
  exact (List.getElem?_eq_some_iff.mp h).1

theorem length_of_mem_wordsFrom {symbol : Nat} {w : Bits}
    (h : (symbol, w) ∈ wordsFrom lengths n length first) :
    length ≤ w.length ∧ w.length < length + n := by
  induction n generalizing length first with
  | zero => simp [wordsFrom] at h
  | succ n ih =>
    rcases mem_wordsFrom_succ.mp h with ⟨i, _, rfl⟩ | hlater
    . rw [Bits.length_ofWord]
      omega
    . have := ih hlater
      omega

theorem le_start_of_mem_wordsFrom (hn : length + n = 16)
    (hroom : first * 2 ^ n + 2 * room lengths n length ≤ 2 ^ 16) {symbol : Nat} {w : Bits}
    (h : (symbol, w) ∈ wordsFrom lengths n length first) : first * 2 ^ n ≤ w.start := by
  induction n generalizing length first with
  | zero => simp [wordsFrom] at h
  | succ n ih =>
    rcases first_add_count_le hn hroom with ⟨hcount, hroom'⟩
    rcases mem_wordsFrom_succ.mp h with ⟨i, hi, rfl⟩ | hlater
    . have hlt := lt_count_of_symbolsOf hi
      rw [(interval_ofWord hn (by omega)).1]
      exact Nat.mul_le_mul_right _ (Nat.le_add_right first i)
    . apply Nat.le_trans _ (ih (by omega) hroom' hlater)
      rw [Nat.pow_succ', ← Nat.mul_assoc]
      apply Nat.mul_le_mul_right
      omega

theorem pairwise_wordsFrom (hn : length + n = 16)
    (hroom : first * 2 ^ n + 2 * room lengths n length ≤ 2 ^ 16) :
    (wordsFrom lengths n length first).Pairwise fun p q => p.2.stop ≤ q.2.start := by
  induction n generalizing length first with
  | zero => exact .nil
  | succ n ih =>
    rcases first_add_count_le hn hroom with ⟨hcount, hroom'⟩
    rw [wordsFrom_succ, List.pairwise_append]
    refine ⟨?_, ih (by omega) hroom', ?_⟩
    . -- Words of one length are in the order of their numbers.
      have hindices : (symbolsOf lengths length).zipIdx.Pairwise fun p q => p.2 < q.2 := by
        rw [← List.pairwise_map, List.zipIdx_map_snd]
        exact List.pairwise_lt_range'
      rw [List.pairwise_map]
      apply hindices.imp_of_mem
      intro p q hp hq hlt
      have hp' := lt_count_of_symbolsOf (List.mem_zipIdx_iff_getElem?.mp hp)
      have hq' := lt_count_of_symbolsOf (List.mem_zipIdx_iff_getElem?.mp hq)
      rw [(interval_ofWord hn (by omega)).1, (interval_ofWord hn (by omega)).2]
      apply Nat.mul_le_mul_right
      omega
    . -- Longer words start behind the last word of this length.
      rintro ⟨_, w⟩ hw ⟨symbol, w'⟩ hw'
      rcases List.mem_map.mp hw with ⟨p, hp, heq⟩
      have hp' := lt_count_of_symbolsOf (List.mem_zipIdx_iff_getElem?.mp hp)
      apply Nat.le_trans _ (le_start_of_mem_wordsFrom (by omega) hroom' hw')
      cases heq
      rw [(interval_ofWord hn (by omega)).2, Nat.pow_succ', ← Nat.mul_assoc]
      apply Nat.mul_le_mul_right
      omega

theorem exists_mem_wordsFrom {symbol l : Nat} (hsymbol : lengths[symbol]? = some l)
    (hle : length ≤ l) (hlt : l < length + n) :
    ∃ w, (symbol, w) ∈ wordsFrom lengths n length first := by
  induction n generalizing length first with
  | zero => omega
  | succ n ih =>
    simp only [mem_wordsFrom_succ]
    by_cases hl : length = l
    . subst hl
      rw [← mem_symbolsOf_iff] at hsymbol
      rcases List.mem_iff_getElem?.mp hsymbol with ⟨i, hi⟩
      exact ⟨_, .inl ⟨i, hi, rfl⟩⟩
    . have hlater : ∃ w, (symbol, w) ∈
          wordsFrom lengths n (length + 1) ((first + lengths.count length) * 2) :=
        ih (by omega) (by omega)
      rcases hlater with ⟨w, hw⟩
      exact ⟨w, .inr hw⟩

end WordsFrom

theorem length_of_mem_words {symbol : Nat} {w : Bits} (h : (symbol, w) ∈ words lengths) :
    1 ≤ w.length ∧ w.length ≤ 15 := by
  have hlength := length_of_mem_wordsFrom h
  unfold maxLength at hlength
  omega

theorem exists_mem_words {symbol l : Nat} (hsymbol : lengths[symbol]? = some l) (hpos : 1 ≤ l)
    (hle : l ≤ maxLength) : ∃ w, (symbol, w) ∈ words lengths := by
  exact exists_mem_wordsFrom hsymbol hpos (by omega)

theorem pairwise_apart_words (h : isUsable lengths) :
    (words lengths).Pairwise fun p q => p.2.Apart q.2 := by
  have hroom := room_le_of_isUsable h
  have hpairwise : (words lengths).Pairwise fun p q => p.2.stop ≤ q.2.start := by
    apply pairwise_wordsFrom rfl
    rw [Nat.zero_mul]
    omega
  apply hpairwise.imp_of_mem
  intro p q hp hq hle
  have hp' := length_of_mem_words hp
  have hq' := length_of_mem_words hq
  exact Bits.apart_of_stop_le_start (by omega) (by omega) hle

theorem read_ofLengths_cons (b : Bool) (bits : Bits) :
    (ofLengths lengths).read (b :: bits) =
      ((CodeTree.insertAll (words lengths) .unused).child b).read bits := by
  unfold ofLengths CodeTree.insertAll
  split
  . next htree =>
    rw [htree]
    cases b with
    | false => rfl
    | true => rfl
  . next htree =>
    rw [CodeTree.child_eq_unused htree]
    cases b with
    | false => rfl
    | true => rfl

theorem read_append (h : isUsable lengths) {symbol : Nat} {w : Bits}
    (hw : (symbol, w) ∈ words lengths) (rest : Bits) :
    (ofLengths lengths).read (w ++ rest) = some (symbol, rest) := by
  have hfollow := CodeTree.follow_insertAll (pairwise_apart_words h) hw .unused
  have hlength := length_of_mem_words hw
  cases w with
  | nil => simp at hlength
  | cons b w =>
    rw [CodeTree.follow] at hfollow
    rw [List.cons_append, read_ofLengths_cons]
    exact CodeTree.read_append_of_follow hfollow rest

theorem exists_mem_words_of_read {bits rest : Bits} {symbol : Nat}
    (h : (ofLengths lengths).read bits = some (symbol, rest)) :
    ∃ w, (symbol, w) ∈ words lengths ∧ bits = w ++ rest := by
  cases bits with
  | nil => simp [read] at h
  | cons b bits =>
    rw [read_ofLengths_cons] at h
    rcases CodeTree.exists_follow_of_read h with ⟨w, rfl, hw⟩
    rw [← CodeTree.follow] at hw
    rcases CodeTree.of_follow_insertAll hw with hmem | hunused
    . exact ⟨b :: w, hmem, rfl⟩
    . rw [CodeTree.follow_unused] at hunused
      cases hunused

theorem getElem?_of_mem_wordsFrom {n length first symbol : Nat} {w : Bits}
    (h : (symbol, w) ∈ wordsFrom lengths n length first) : lengths[symbol]? = some w.length := by
  induction n generalizing length first with
  | zero => simp [wordsFrom] at h
  | succ n ih =>
    rcases mem_wordsFrom_succ.mp h with ⟨i, hi, rfl⟩ | hlater
    . rw [Bits.length_ofWord]
      exact mem_symbolsOf_iff.mp (List.mem_of_getElem? hi)
    . exact ih hlater

end PrefixCode

end Keyring.Deflate
