import Keyring.Bytes
import Mathlib.Algebra.Group.Nat.Defs
/-!
This module contains the laws of byte strings: the numbers that they spell and their forms undo each
other up to leading zero bytes, blocks of whole size add up to what they were cut from, and adding
the same bytes twice takes them away again.
-/

namespace Keyring

namespace Bytes

theorem toNatLE_littleEndian (width n : Nat) :
    toNatLE (littleEndian width n) = n % 256 ^ width := by
  induction width generalizing n with
  | zero => simp [littleEndian, toNatLE, Nat.mod_one]
  | succ width ih =>
    rw [littleEndian, toNatLE, ih, Nat.pow_succ, Nat.mul_comm (256 ^ width), Nat.mod_mul]
    simp

theorem littleEndian_toNatLE (bs : Bytes) : littleEndian bs.length (toNatLE bs) = bs := by
  induction bs with
  | nil => rfl
  | cons b bs ih =>
    have hb : b.toNat < 256 := b.toNat_lt
    have hhead : UInt8.ofNat (b.toNat + 256 * toNatLE bs) = b := by
      apply UInt8.toNat_inj.mp
      rw [UInt8.toNat_ofNat']
      omega
    have htail : (b.toNat + 256 * toNatLE bs) / 256 = toNatLE bs := by
      omega
    rw [List.length_cons, littleEndian, toNatLE, hhead, htail, ih]

theorem toNatLE_lt (bs : Bytes) : toNatLE bs < 256 ^ bs.length := by
  induction bs with
  | nil => simp [toNatLE]
  | cons b bs ih =>
    have hb : b.toNat < 256 := b.toNat_lt
    rw [toNatLE, List.length_cons, Nat.pow_succ]
    omega

theorem toNatLE_append (as bs : Bytes) :
    toNatLE (as ++ bs) = toNatLE as + 256 ^ as.length * toNatLE bs := by
  induction as with
  | nil => simp [toNatLE]
  | cons a as ih =>
    rw [List.cons_append, toNatLE, toNatLE, ih, List.length_cons, Nat.pow_succ',
      Nat.mul_assoc 256]
    omega

theorem toNat_getD (bs : Bytes) (n : Nat) : (bs.getD n 0).toNat = toNatLE bs / 256 ^ n % 256 := by
  induction bs generalizing n with
  | nil => simp [toNatLE]
  | cons b bs ih =>
    have hb : b.toNat < 256 := b.toNat_lt
    cases n with
    | zero =>
      rw [List.getD_cons_zero, toNatLE, Nat.pow_zero, Nat.div_one]
      omega
    | succ n =>
      have htail : (b.toNat + 256 * toNatLE bs) / 256 = toNatLE bs := by
        omega
      rw [List.getD_cons_succ, ih, toNatLE, Nat.pow_succ, Nat.mul_comm (256 ^ n),
        ← Nat.div_div_eq_div_mul, htail]

theorem toNat_concat (bs : Bytes) (b : UInt8) : toNat (bs ++ [b]) = toNat bs * 256 + b.toNat := by
  simp [toNat]

theorem toNat_reverse (bs : Bytes) : toNat bs.reverse = toNatLE bs := by
  induction bs with
  | nil => rfl
  | cons b bs ih =>
    rw [List.reverse_cons, toNat_concat, ih, toNatLE]
    omega

theorem toNat_eq_toNatLE_reverse (bs : Bytes) : toNat bs = toNatLE bs.reverse := by
  rw [← toNat_reverse, List.reverse_reverse]

theorem toNat_lt (bs : Bytes) : toNat bs < 256 ^ bs.length := by
  have h := toNatLE_lt bs.reverse
  rw [List.length_reverse] at h
  rw [toNat_eq_toNatLE_reverse]
  exact h

theorem toNat_bigEndian (width n : Nat) : toNat (bigEndian width n) = n % 256 ^ width := by
  rw [toNat_eq_toNatLE_reverse, bigEndian, List.reverse_reverse, toNatLE_littleEndian]

theorem toNat_bigEndian_of_lt {width n : Nat} (h : n < 256 ^ width) :
    toNat (bigEndian width n) = n := by
  rw [toNat_bigEndian, Nat.mod_eq_of_lt h]

theorem bigEndian_toNat (bs : Bytes) : bigEndian bs.length (toNat bs) = bs := by
  have h := littleEndian_toNatLE bs.reverse
  rw [List.length_reverse] at h
  rw [bigEndian, toNat_eq_toNatLE_reverse, h, List.reverse_reverse]

theorem toNat_inj {as bs : Bytes} (hlength : as.length = bs.length) (h : toNat as = toNat bs) :
    as = bs := by
  rw [← bigEndian_toNat as, ← bigEndian_toNat bs, hlength, h]

theorem lt_pow_byteLength (n : Nat) : n < 256 ^ byteLength n := by
  unfold byteLength
  split
  . omega
  . next hn =>
    have hpow : 256 ^ (n.log2 / 8 + 1) = 2 ^ (8 * (n.log2 / 8 + 1)) := by
      rw [Nat.pow_mul]
    rw [hpow, ← Nat.log2_lt hn]
    omega

theorem byteLength_le {width n : Nat} (h : n < 256 ^ width) : byteLength n ≤ width := by
  unfold byteLength
  split
  . omega
  . next hn =>
    have hpow : 256 ^ width = 2 ^ (8 * width) := by
      rw [Nat.pow_mul]
    rw [hpow, ← Nat.log2_lt hn] at h
    omega

theorem byteLength_le_iff {width n : Nat} : byteLength n ≤ width ↔ n < 256 ^ width := by
  constructor
  . intro hle
    exact Nat.lt_of_lt_of_le (lt_pow_byteLength n) (Nat.pow_le_pow_right (by decide) hle)
  . exact byteLength_le

theorem pow_byteLength_le {n : Nat} (hn : n ≠ 0) : 256 ^ (byteLength n - 1) ≤ n := by
  apply Nat.le_of_not_lt
  intro hlt
  have hle := byteLength_le hlt
  have hpos : byteLength n ≠ 0 := by simp [byteLength, hn]
  omega

@[simp]
theorem toNat_ofNat (n : Nat) : toNat (ofNat n) = n := by
  apply toNat_bigEndian_of_lt
  apply lt_pow_byteLength

theorem toNat_cons (b : UInt8) (bs : Bytes) :
    toNat (b :: bs) = 256 ^ bs.length * b.toNat + toNat bs := by
  rw [toNat_eq_toNatLE_reverse, List.reverse_cons, toNatLE_append, List.length_reverse,
    ← toNat_eq_toNatLE_reverse, Nat.add_comm]
  rfl

theorem toNat_zeros_append (n : Nat) (bs : Bytes) :
    toNat (List.replicate n 0 ++ bs) = toNat bs := by
  induction n with
  | zero => rfl
  | succ n ih =>
    rw [List.replicate_succ, List.cons_append, toNat_cons, ih, UInt8.toNat_zero, Nat.mul_zero,
      Nat.zero_add]

/-- A zero byte in front of as many bytes as a number has leaves them below it. -/
theorem toNat_zero_cons_lt {n : Nat} (hn : n ≠ 0) {bs : Bytes}
    (hlength : (0 :: bs).length = byteLength n) : toNat (0 :: bs) < n := by
  have hlt := toNat_lt bs
  have hle := pow_byteLength_le hn
  rw [← hlength, List.length_cons, Nat.add_sub_cancel] at hle
  rw [toNat_cons, UInt8.toNat_zero, Nat.mul_zero, Nat.zero_add]
  omega

theorem toNat_stripZeros (bs : Bytes) : toNat (stripZeros bs) = toNat bs := by
  induction bs with
  | nil => rfl
  | cons b bs ih =>
    unfold stripZeros at ih ⊢
    rw [List.dropWhile_cons]
    split
    . next hzero =>
      rw [ih, eq_of_beq hzero, toNat_cons]
      simp
    . rfl

theorem head?_stripZeros_ne (bs : Bytes) : (stripZeros bs).head? ≠ some 0 := by
  intro h
  have hnot := List.head?_dropWhile_not (· == 0) bs
  unfold stripZeros at h
  rw [h] at hnot
  simp at hnot

theorem stripZeros_eq_self_iff {bs : Bytes} : stripZeros bs = bs ↔ bs.head? ≠ some 0 := by
  constructor
  . intro h
    rw [← h]
    exact head?_stripZeros_ne bs
  . intro h
    cases bs with
    | nil => rfl
    | cons b bs =>
      unfold stripZeros
      rw [List.dropWhile_cons_of_neg]
      simpa using h

theorem byteLength_toNat {bs : Bytes} (h : bs.head? ≠ some 0) : byteLength (toNat bs) = bs.length := by
  apply Nat.le_antisymm
  . apply byteLength_le
    apply toNat_lt
  . cases bs with
    | nil => simp
    | cons b bs =>
      have hb : 0 < b.toNat := by
        apply Nat.pos_of_ne_zero
        intro hzero
        have hb : b = 0 := UInt8.toNat_inj.mp hzero
        apply h
        rw [hb, List.head?_cons]
      rw [List.length_cons]
      apply Nat.lt_of_not_le
      intro hle
      -- A number of so few bytes is below what the first byte alone counts for.
      have hlt := lt_pow_byteLength (toNat (b :: bs))
      have hpow := Nat.pow_le_pow_right (by decide : 0 < 256) hle
      have hmul := Nat.le_mul_of_pos_right (256 ^ bs.length) hb
      rw [toNat_cons] at hlt hpow
      omega

theorem ofNat_toNat (bs : Bytes) : ofNat (toNat bs) = stripZeros bs := by
  have hlength := byteLength_toNat (head?_stripZeros_ne bs)
  rw [toNat_stripZeros] at hlength
  rw [ofNat, hlength, ← toNat_stripZeros, bigEndian_toNat]

@[simp]
theorem length_xor (a b : Bytes) : (xor a b).length = min a.length b.length := by
  simp [xor]

theorem xor_xor_cancel {a b : Bytes} (h : a.length ≤ b.length) : xor (xor a b) b = a := by
  induction a generalizing b with
  | nil => simp [xor]
  | cons x a ih =>
    cases b with
    | nil => simp at h
    | cons y b =>
      have hrest : xor (xor a b) b = a := ih (Nat.le_of_succ_le_succ h)
      unfold xor at hrest ⊢
      rw [List.zipWith_cons_cons, List.zipWith_cons_cons, hrest, UInt8.xor_assoc, UInt8.xor_self,
        UInt8.xor_zero]

theorem blocks_eq_cons {size : Nat} (hsize : 0 < size) {bs : Bytes} (hbs : bs ≠ []) :
    blocks size bs = bs.take size :: blocks size (bs.drop size) := by
  cases bs with
  | nil => exact absurd rfl hbs
  | cons b bs =>
    cases size with
    | zero => omega
    | succ size =>
      rw [blocks]
      rfl

theorem blocks_append {size : Nat} (hsize : 0 < size) {block : Bytes} (hblock : block.length = size)
    (rest : Bytes) : blocks size (block ++ rest) = block :: blocks size rest := by
  have hne : block ++ rest ≠ [] := by
    apply List.append_ne_nil_of_left_ne_nil
    exact List.ne_nil_of_length_pos (by omega)
  rw [blocks_eq_cons hsize hne, List.take_left' hblock, List.drop_left' hblock]

theorem blocks_flatten_append {size : Nat} (hsize : 0 < size) {bss : List Bytes}
    (hbss : ∀ block ∈ bss, block.length = size) (rest : Bytes) :
    blocks size (bss.flatten ++ rest) = bss ++ blocks size rest := by
  induction bss with
  | nil => rfl
  | cons block bss ih =>
    rw [List.flatten_cons, List.append_assoc, List.cons_append,
      blocks_append hsize (hbss block List.mem_cons_self),
      ih fun block hmem => hbss block (List.mem_cons_of_mem _ hmem)]

theorem blocks_flatten {size : Nat} (hsize : 0 < size) {bss : List Bytes}
    (hbss : ∀ block ∈ bss, block.length = size) : blocks size bss.flatten = bss := by
  have h := blocks_flatten_append hsize hbss []
  rw [List.append_nil] at h
  rw [h, blocks, List.append_nil]

theorem flatten_blocks (size : Nat) (bs : Bytes) : (blocks size bs).flatten = bs := by
  induction bs using blocks.induct size with
  | case1 => simp [blocks]
  | case2 b bs ih =>
    rw [blocks, List.flatten_cons, ih, List.cons_append, List.take_append_drop]

theorem length_of_mem_blocks {size : Nat} (hsize : 0 < size) {bs : Bytes} (hbs : size ∣ bs.length)
    : ∀ block ∈ blocks size bs, block.length = size := by
  induction bs using blocks.induct size with
  | case1 => simp [blocks]
  | case2 b bs ih =>
    have hle := Nat.le_of_dvd (by simp) hbs
    rw [List.length_cons] at hbs hle
    have hrest : size ∣ (bs.drop (size - 1)).length := by
      rw [List.length_drop]
      have heq : bs.length - (size - 1) = bs.length + 1 - size := by omega
      rw [heq]
      exact Nat.dvd_sub hbs (Nat.dvd_refl size)
    intro block hblock
    rw [blocks] at hblock
    cases List.mem_cons.mp hblock with
    | inl heq =>
      rw [heq, List.length_cons, List.length_take]
      omega
    | inr hmem => exact ih hrest block hmem

theorem length_flatten_of_length_eq {size : Nat} {bss : List Bytes}
    (hbss : ∀ block ∈ bss, block.length = size) : bss.flatten.length = bss.length * size := by
  rw [List.length_flatten, List.map_congr_left hbss, List.map_const', List.sum_replicate_nat]

theorem dvd_length_flatten {size : Nat} {bss : List Bytes}
    (hbss : ∀ block ∈ bss, block.length = size) : size ∣ bss.flatten.length := by
  rw [length_flatten_of_length_eq hbss]
  exact Nat.dvd_mul_left _ _

theorem length_blocks {size : Nat} (hsize : 0 < size) {bs : Bytes} (hbs : size ∣ bs.length) :
    (blocks size bs).length * size = bs.length := by
  rw [← length_flatten_of_length_eq (length_of_mem_blocks hsize hbs), flatten_blocks]

theorem blocks_append_of_dvd {size : Nat} (hsize : 0 < size) {bs : Bytes} (hbs : size ∣ bs.length)
    (rest : Bytes) : blocks size (bs ++ rest) = blocks size bs ++ blocks size rest := by
  -- Cutting `bs` gives whole blocks, and cutting their concatenation gives them again.
  have h := blocks_flatten_append hsize (length_of_mem_blocks hsize hbs) rest
  rw [flatten_blocks] at h
  exact h

end Bytes

end Keyring
