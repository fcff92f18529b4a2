import Keyring.Cipher.Aes
import Keyring.Proofs.Bytes
/-!
This module contains the proof that decryption and encryption of blocks undo each other. Each part
of a round has an inverse: the substitution by its two tables, the moves of the rows by themselves,
and the matrices of the columns because doubling is linear.
-/

namespace Keyring.Cipher.Aes

theorem forall_byte {p : UInt8 → Prop} (h : ∀ n < 256, p (UInt8.ofNat n)) (b : UInt8) : p b := by
  have hb := h b.toNat b.toNat_lt
  rw [UInt8.ofNat_toNat] at hb
  exact hb

-- As numbers the tables are looked up by division, which the kernel is quick at.
theorem toNat_substitute (b : UInt8) :
    (substitute b).toNat = Bytes.toNatLE substitution.toList / 256 ^ b.toNat % 256 := by
  rw [← Bytes.toNat_getD]
  simp [substitute]

theorem toNat_unsubstitute (b : UInt8) :
    (unsubstitute b).toNat = Bytes.toNatLE inverseSubstitution.toList / 256 ^ b.toNat % 256 := by
  rw [← Bytes.toNat_getD]
  simp [unsubstitute]

theorem tables_inverse : ∀ n < 256,
    Bytes.toNatLE inverseSubstitution.toList /
      256 ^ (Bytes.toNatLE substitution.toList / 256 ^ n % 256) % 256 = n ∧
    Bytes.toNatLE substitution.toList /
      256 ^ (Bytes.toNatLE inverseSubstitution.toList / 256 ^ n % 256) % 256 = n := by
  decide +kernel

theorem unsubstitute_substitute (b : UInt8) : unsubstitute (substitute b) = b := by
  apply UInt8.toNat_inj.mp
  rw [toNat_unsubstitute, toNat_substitute]
  exact (tables_inverse b.toNat b.toNat_lt).1

theorem substitute_unsubstitute (b : UInt8) : substitute (unsubstitute b) = b := by
  apply UInt8.toNat_inj.mp
  rw [toNat_substitute, toNat_unsubstitute]
  exact (tables_inverse b.toNat b.toNat_lt).2

theorem double_eq (b : UInt8) : double b = (b <<< 1) ^^^ ((b >>> 7) * 0x1b) := by
  apply forall_byte _ b
  decide +kernel

theorem shiftRight_seven (b : UInt8) : b >>> 7 = 0 ∨ b >>> 7 = 1 := by
  have hb := b.toNat_lt
  have hshift : (b >>> 7).toNat = b.toNat / 128 := by
    rw [UInt8.toNat_shiftRight, Nat.shiftRight_eq_div_pow]
    rfl
  simp only [← UInt8.toNat_inj, hshift, UInt8.reduceToNat]
  omega

theorem double_xor (a b : UInt8) : double (a ^^^ b) = double a ^^^ double b := by
  -- The highest bit drops out of a sum if and only if it drops out of one of the two.
  have hcarry : ((a >>> 7) ^^^ (b >>> 7)) * (0x1b : UInt8) =
      ((a >>> 7) * (0x1b : UInt8)) ^^^ ((b >>> 7) * (0x1b : UInt8)) := by
    cases shiftRight_seven a with
    | inl ha => simp [ha]
    | inr ha =>
      cases shiftRight_seven b with
      | inl hb => simp [hb]
      | inr hb =>
        rw [ha, hb]
        rfl
  rw [double_eq, double_eq, double_eq, UInt8.shiftLeft_xor, UInt8.shiftRight_xor, hcarry]
  ac_rfl

theorem xor_cancel_left (a b : UInt8) : a ^^^ (a ^^^ b) = b := by
  rw [← UInt8.xor_assoc, UInt8.xor_self, UInt8.zero_xor]

theorem xor_left_comm (a b c : UInt8) : a ^^^ (b ^^^ c) = b ^^^ (a ^^^ c) := by
  ac_rfl

open unmixColumns

theorem times9_xor (a b : UInt8) : times9 (a ^^^ b) = times9 a ^^^ times9 b := by
  simp only [times9, double_xor]
  ac_rfl

theorem times11_xor (a b : UInt8) : times11 (a ^^^ b) = times11 a ^^^ times11 b := by
  simp only [times11, double_xor]
  ac_rfl

theorem times13_xor (a b : UInt8) : times13 (a ^^^ b) = times13 a ^^^ times13 b := by
  simp only [times13, double_xor]
  ac_rfl

theorem times14_xor (a b : UInt8) : times14 (a ^^^ b) = times14 a ^^^ times14 b := by
  simp only [times14, double_xor]
  ac_rfl

theorem unmix_mix (b : UInt8) :
    times14 (double b) ^^^ times11 b ^^^ times13 b ^^^ times9 (double b ^^^ b) = b ∧
      times14 (double b ^^^ b) ^^^ times11 (double b) ^^^ times13 b ^^^ times9 b = 0 ∧
      times14 b ^^^ times11 (double b ^^^ b) ^^^ times13 (double b) ^^^ times9 b = 0 ∧
      times14 b ^^^ times11 b ^^^ times13 (double b ^^^ b) ^^^ times9 (double b) = 0 := by
  simp only [times9, times11, times13, times14, double_xor, UInt8.xor_assoc]
  refine ⟨?_, ?_, ?_, ?_⟩
  all_goals
    simp only [UInt8.xor_comm, xor_left_comm, UInt8.xor_self, UInt8.xor_zero, xor_cancel_left]

theorem mix_unmix (b : UInt8) :
    double (times14 b) ^^^ (double (times9 b) ^^^ times9 b) ^^^ times13 b ^^^ times11 b = b ∧
      double (times11 b) ^^^ (double (times14 b) ^^^ times14 b) ^^^ times9 b ^^^ times13 b = 0 ∧
      double (times13 b) ^^^ (double (times11 b) ^^^ times11 b) ^^^ times14 b ^^^ times9 b = 0 ∧
      double (times9 b) ^^^ (double (times13 b) ^^^ times13 b) ^^^ times11 b ^^^ times14 b = 0 := by
  simp only [times9, times11, times13, times14, double_xor, UInt8.xor_assoc]
  refine ⟨?_, ?_, ?_, ?_⟩
  all_goals
    simp only [UInt8.xor_comm, xor_left_comm, UInt8.xor_self, UInt8.xor_zero, xor_cancel_left]

theorem unmix_mix_row (a b c d : UInt8) :
    times14 (double a ^^^ double b ^^^ b ^^^ c ^^^ d) ^^^
      times11 (a ^^^ double b ^^^ double c ^^^ c ^^^ d) ^^^
      times13 (a ^^^ b ^^^ double c ^^^ double d ^^^ d) ^^^
      times9 (double a ^^^ a ^^^ b ^^^ c ^^^ double d) = a := by
  have ha := (unmix_mix a).1
  have hb := (unmix_mix b).2.1
  have hc := (unmix_mix c).2.2.1
  have hd := (unmix_mix d).2.2.2
  calc
    _ = (times14 (double a) ^^^ times11 a ^^^ times13 a ^^^ times9 (double a ^^^ a)) ^^^
        (times14 (double b ^^^ b) ^^^ times11 (double b) ^^^ times13 b ^^^ times9 b) ^^^
        (times14 c ^^^ times11 (double c ^^^ c) ^^^ times13 (double c) ^^^ times9 c) ^^^
        (times14 d ^^^ times11 d ^^^ times13 (double d ^^^ d) ^^^ times9 (double d)) := by
      simp only [times9_xor, times11_xor, times13_xor, times14_xor]
      ac_rfl
    _ = a := by
      rw [ha, hb, hc, hd]
      simp

theorem mix_unmix_row (a b c d : UInt8) :
    double (times14 a ^^^ times11 b ^^^ times13 c ^^^ times9 d) ^^^
      double (times9 a ^^^ times14 b ^^^ times11 c ^^^ times13 d) ^^^
      (times9 a ^^^ times14 b ^^^ times11 c ^^^ times13 d) ^^^
      (times13 a ^^^ times9 b ^^^ times14 c ^^^ times11 d) ^^^
      (times11 a ^^^ times13 b ^^^ times9 c ^^^ times14 d) = a := by
  have ha := (mix_unmix a).1
  have hb := (mix_unmix b).2.1
  have hc := (mix_unmix c).2.2.1
  have hd := (mix_unmix d).2.2.2
  calc
    _ = (double (times14 a) ^^^ (double (times9 a) ^^^ times9 a) ^^^ times13 a ^^^ times11 a) ^^^
        (double (times11 b) ^^^ (double (times14 b) ^^^ times14 b) ^^^ times9 b ^^^ times13 b) ^^^
        (double (times13 c) ^^^ (double (times11 c) ^^^ times11 c) ^^^ times14 c ^^^ times9 c) ^^^
        (double (times9 d) ^^^ (double (times13 d) ^^^ times13 d) ^^^ times11 d ^^^ times14 d) := by
      simp only [double_xor]
      ac_rfl
    _ = a := by
      rw [ha, hb, hc, hd]
      simp

theorem unmixColumns_mixColumns (block : Bytes) : unmixColumns (mixColumns block) = block := by
  induction block using mixColumns.induct with
  | case1 a b c d rest ih =>
    -- The rows of either matrix are rotations of its first row.
    have hb := unmix_mix_row b c d a
    have hc := unmix_mix_row c d a b
    have hd := unmix_mix_row d a b c
    rw [mixColumns, unmixColumns, ih, unmix_mix_row]
    simp only [List.cons.injEq, true_and, and_true]
    refine ⟨?_, ?_, ?_⟩
    . apply Eq.trans _ hb
      ac_rfl
    . apply Eq.trans _ hc
      ac_rfl
    . apply Eq.trans _ hd
      ac_rfl
  | case2 rest h =>
    rw [mixColumns, unmixColumns]
    . exact h
    . exact h

theorem mixColumns_unmixColumns (block : Bytes) : mixColumns (unmixColumns block) = block := by
  induction block using mixColumns.induct with
  | case1 a b c d rest ih =>
    have hb := mix_unmix_row b c d a
    have hc := mix_unmix_row c d a b
    have hd := mix_unmix_row d a b c
    rw [unmixColumns, mixColumns, ih, mix_unmix_row]
    simp only [List.cons.injEq, true_and, and_true]
    refine ⟨?_, ?_, ?_⟩
    . apply Eq.trans _ hb
      ac_rfl
    . apply Eq.trans _ hc
      ac_rfl
    . apply Eq.trans _ hd
      ac_rfl
  | case2 rest h =>
    rw [unmixColumns, mixColumns]
    . exact h
    . exact h

@[simp]
theorem length_mixColumns (block : Bytes) : (mixColumns block).length = block.length := by
  induction block using mixColumns.induct with
  | case1 a b c d rest ih => simp [mixColumns, ih]
  | case2 rest h =>
    rw [mixColumns]
    exact h

@[simp]
theorem length_unmixColumns (block : Bytes) : (unmixColumns block).length = block.length := by
  rw [← length_mixColumns, mixColumns_unmixColumns]

theorem shiftRows_spec (block : Bytes) :
    (shiftRows block).length = block.length ∧ unshiftRows (shiftRows block) = block := by
  unfold shiftRows
  split
  . exact ⟨rfl, rfl⟩
  . next h =>
    rw [unshiftRows]
    . exact ⟨rfl, rfl⟩
    . exact h

theorem unshiftRows_spec (block : Bytes) :
    (unshiftRows block).length = block.length ∧ shiftRows (unshiftRows block) = block := by
  unfold unshiftRows
  split
  . exact ⟨rfl, rfl⟩
  . next h =>
    rw [shiftRows]
    . exact ⟨rfl, rfl⟩
    . exact h

@[simp]
theorem length_shiftRows (block : Bytes) : (shiftRows block).length = block.length := by
  exact (shiftRows_spec block).1

theorem unshiftRows_shiftRows (block : Bytes) : unshiftRows (shiftRows block) = block := by
  exact (shiftRows_spec block).2

@[simp]
theorem length_unshiftRows (block : Bytes) : (unshiftRows block).length = block.length := by
  exact (unshiftRows_spec block).1

theorem shiftRows_unshiftRows (block : Bytes) : shiftRows (unshiftRows block) = block := by
  exact (unshiftRows_spec block).2

theorem map_unsubstitute_map_substitute (block : Bytes) :
    (block.map substitute).map unsubstitute = block := by
  induction block with
  | nil => rfl
  | cons b block ih => rw [List.map_cons, List.map_cons, ih, unsubstitute_substitute]

theorem map_substitute_map_unsubstitute (block : Bytes) :
    (block.map unsubstitute).map substitute = block := by
  induction block with
  | nil => rfl
  | cons b block ih => rw [List.map_cons, List.map_cons, ih, substitute_unsubstitute]

variable {keys : List Bytes} {block : Bytes}

theorem length_rounds (hkeys : ∀ key ∈ keys, key.length = blockSize)
    (hblock : block.length = blockSize) : (rounds keys block).length = blockSize := by
  induction keys, block using rounds.induct with
  | case1 block => exact hblock
  | case2 key block => simp [rounds, hblock, hkeys key]
  | case3 key keys block hne ih =>
    rw [rounds]
    . apply ih
      . intro k hk
        exact hkeys k (List.mem_cons_of_mem key hk)
      . simp [hblock, hkeys key]
    . exact hne

theorem length_unrounds (hkeys : ∀ key ∈ keys, key.length = blockSize)
    (hblock : block.length = blockSize) : (unrounds keys block).length = blockSize := by
  induction keys, block using unrounds.induct with
  | case1 block => exact hblock
  | case2 key block => simp [unrounds, hblock, hkeys key]
  | case3 key keys block hne ih =>
    have hrest := ih (fun k hk => hkeys k (List.mem_cons_of_mem key hk)) hblock
    rw [unrounds]
    . simp [hrest, hkeys key]
    . exact hne

theorem unrounds_rounds (hkeys : ∀ key ∈ keys, key.length = blockSize)
    (hblock : block.length = blockSize) : unrounds keys (rounds keys block) = block := by
  induction keys, block using rounds.induct with
  | case1 block => rfl
  | case2 key block =>
    rw [rounds, unrounds, Bytes.xor_xor_cancel, unshiftRows_shiftRows,
      map_unsubstitute_map_substitute]
    simp [hblock, hkeys key]
  | case3 key keys block hne ih =>
    rw [rounds, unrounds, ih, Bytes.xor_xor_cancel, unmixColumns_mixColumns, unshiftRows_shiftRows,
      map_unsubstitute_map_substitute]
    . simp [hblock, hkeys key]
    . intro k hk
      exact hkeys k (List.mem_cons_of_mem key hk)
    . simp [hblock, hkeys key]
    . exact hne
    . exact hne

theorem rounds_unrounds (hkeys : ∀ key ∈ keys, key.length = blockSize)
    (hblock : block.length = blockSize) : rounds keys (unrounds keys block) = block := by
  induction keys, block using unrounds.induct with
  | case1 block => rfl
  | case2 key block =>
    rw [unrounds, rounds, map_substitute_map_unsubstitute, shiftRows_unshiftRows,
      Bytes.xor_xor_cancel]
    simp [hblock, hkeys key]
  | case3 key keys block hne ih =>
    have hkeys' : ∀ k ∈ keys, k.length = blockSize := by
      intro k hk
      exact hkeys k (List.mem_cons_of_mem key hk)
    rw [unrounds, rounds, map_substitute_map_unsubstitute, shiftRows_unshiftRows,
      mixColumns_unmixColumns, Bytes.xor_xor_cancel, ih hkeys' hblock]
    . simp [length_unrounds hkeys' hblock, hkeys key]
    . exact hne
    . exact hne

/-- What the key schedule makes: a key of the size of a block for each round and one before them. -/
structure IsSchedule (keys : List Bytes) : Prop where
  ne_nil : keys ≠ []
  length_eq : ∀ key ∈ keys, key.length = blockSize

namespace IsSchedule

theorem length_headD (h : IsSchedule keys) : (keys.headD []).length = blockSize := by
  cases keys with
  | nil => exact absurd rfl h.ne_nil
  | cons key keys => exact h.length_eq key List.mem_cons_self

theorem length_tail (h : IsSchedule keys) : ∀ key ∈ keys.tail, key.length = blockSize := by
  intro key hkey
  exact h.length_eq key (List.mem_of_mem_tail hkey)

theorem length_encryptBlock (h : IsSchedule keys) (hblock : block.length = blockSize) :
    (encryptBlock keys block).length = blockSize := by
  apply length_rounds h.length_tail
  rw [Bytes.length_xor, hblock, h.length_headD, Nat.min_self]

theorem length_decryptBlock (h : IsSchedule keys) (hblock : block.length = blockSize) :
    (decryptBlock keys block).length = blockSize := by
  unfold decryptBlock
  rw [Bytes.length_xor, length_unrounds h.length_tail hblock, h.length_headD, Nat.min_self]

theorem decryptBlock_encryptBlock (h : IsSchedule keys) (hblock : block.length = blockSize) :
    decryptBlock keys (encryptBlock keys block) = block := by
  unfold decryptBlock encryptBlock
  rw [unrounds_rounds h.length_tail, Bytes.xor_xor_cancel]
  . exact Nat.le_of_eq (hblock.trans h.length_headD.symm)
  . rw [Bytes.length_xor, hblock, h.length_headD, Nat.min_self]

theorem encryptBlock_decryptBlock (h : IsSchedule keys) (hblock : block.length = blockSize) :
    encryptBlock keys (decryptBlock keys block) = block := by
  unfold decryptBlock encryptBlock
  rw [Bytes.xor_xor_cancel, rounds_unrounds h.length_tail hblock]
  exact Nat.le_of_eq ((length_unrounds h.length_tail hblock).trans h.length_headD.symm)

end IsSchedule

theorem length_scheduleWord (keyWords i : Nat) {word : Bytes} (h : word.length = 4) :
    (scheduleWord keyWords i word).length = 4 := by
  unfold scheduleWord
  split
  . simp [h]
  . split
    . simp [h]
    . exact h

theorem length_extendSchedule (keyWords n i : Nat) (words : List Bytes) :
    (extendSchedule keyWords n i words).length = n + words.length := by
  induction n generalizing i words with
  | zero => simp [extendSchedule]
  | succ n ih =>
    rw [extendSchedule, ih, List.length_cons]
    omega

theorem length_of_mem_extendSchedule {keyWords n i : Nat} {words : List Bytes}
    (hpos : 0 < keyWords) (hle : keyWords ≤ words.length) (hwords : ∀ word ∈ words, word.length = 4)
    : ∀ word ∈ extendSchedule keyWords n i words, word.length = 4 := by
  induction n generalizing i words with
  | zero => exact hwords
  | succ n ih =>
    have hhead : (words.headD []).length = 4 := by
      cases words with
      | nil =>
        rw [List.length_nil] at hle
        omega
      | cons word words => exact hwords word List.mem_cons_self
    have hback : (words.getD (keyWords - 1) []).length = 4 := by
      have hlt : keyWords - 1 < words.length := by omega
      rw [List.getD_eq_getElem?_getD, List.getElem?_eq_getElem hlt, Option.getD_some]
      exact hwords _ (List.getElem_mem hlt)
    rw [extendSchedule]
    apply ih
    . rw [List.length_cons]
      omega
    . intro word hword
      cases List.mem_cons.mp hword with
      | inl heq => rw [heq, Bytes.length_xor, hback, length_scheduleWord _ _ hhead, Nat.min_self]
      | inr hmem => exact hwords word hmem

theorem isSchedule_roundKeys {key : Bytes}
    (h : key.length = 16 ∨ key.length = 24 ∨ key.length = 32) : IsSchedule (roundKeys key) := by
  have hdvd : 4 ∣ key.length := by omega
  have hblocks := Bytes.length_of_mem_blocks (by omega : 0 < 4) hdvd
  have hcount := Bytes.length_blocks (by omega : 0 < 4) hdvd
  let words := extendSchedule (key.length / 4) (3 * (key.length / 4) + 28) (key.length / 4)
    (Bytes.blocks 4 key).reverse
  have hwords : ∀ word ∈ words, word.length = 4 := by
    apply length_of_mem_extendSchedule
    . omega
    . rw [List.length_reverse]
      omega
    . intro word hword
      exact hblocks word (List.mem_reverse.mp hword)
  have hlength : words.reverse.flatten.length = 4 * key.length + 112 := by
    rw [List.length_flatten, List.map_congr_left (g := fun _ => 4)]
    . rw [List.map_const', List.sum_replicate_nat, List.length_reverse, length_extendSchedule,
        List.length_reverse]
      omega
    . intro word hword
      exact hwords word (List.mem_reverse.mp hword)
  constructor
  . intro hnil
    have hflatten := Bytes.flatten_blocks blockSize words.reverse.flatten
    change Bytes.blocks blockSize words.reverse.flatten = [] at hnil
    rw [hnil] at hflatten
    rw [← hflatten] at hlength
    simp at hlength
  . apply Bytes.length_of_mem_blocks
    . decide
    . rw [hlength]
      unfold blockSize
      omega

end Keyring.Cipher.Aes
