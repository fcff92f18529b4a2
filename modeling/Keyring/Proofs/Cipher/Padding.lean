import Keyring.Cipher.Padding
/-!
This module contains the laws of padding: whole blocks are padded messages if and only if their
padding can be stripped, and only the last block matters for this.
-/

namespace Keyring.Cipher.Padding

variable {size : Nat}

theorem length_pad (hsize : 0 < size) (bs : Bytes) :
    (pad size bs).length = (bs.length / size + 1) * size := by
  have hdiv := Nat.div_add_mod bs.length size
  have hmod := Nat.mod_lt bs.length hsize
  unfold pad
  rw [List.length_append, List.length_replicate, Nat.succ_mul, Nat.mul_comm]
  omega

theorem dvd_length_pad (hsize : 0 < size) (bs : Bytes) : size ∣ (pad size bs).length := by
  rw [length_pad hsize]
  exact Nat.dvd_mul_left _ _

theorem pad_ne_nil (hsize : 0 < size) (bs : Bytes) : pad size bs ≠ [] := by
  intro hnil
  have hlength := length_pad hsize bs
  rw [hnil, List.length_nil, Nat.succ_mul] at hlength
  omega

theorem pad_append {bs : Bytes} (hbs : size ∣ bs.length) (rest : Bytes) :
    pad size (bs ++ rest) = bs ++ pad size rest := by
  have hmod : (bs ++ rest).length % size = rest.length % size := by
    rcases hbs with ⟨n, hn⟩
    rw [List.length_append, hn, Nat.mul_add_mod]
  unfold pad
  rw [hmod, List.append_assoc]

theorem sub_mod_of_dvd {length n : Nat} (hn : 0 < n) (hle : n ≤ size) (hlength : n ≤ length)
    (hdvd : size ∣ length) : size - (length - n) % size = n := by
  rcases hdvd with ⟨k, rfl⟩
  cases k with
  | zero => omega
  | succ k =>
    have hsub : size * (k + 1) - n = size * k + (size - n) := by
      rw [Nat.mul_succ]
      omega
    rw [hsub, Nat.mul_add_mod, Nat.mod_eq_of_lt (by omega)]
    omega

theorem unpad?_pad (hsize : 0 < size) (hbyte : size < 256) (bs : Bytes) :
    unpad? size (pad size bs) = some bs := by
  have hmod := Nat.mod_lt bs.length hsize
  unfold pad
  generalize hn : size - bs.length % size = n
  have hlast : ((bs ++ List.replicate n (UInt8.ofNat n)).getLastD 0).toNat = n := by
    cases n with
    | zero => omega
    | succ n =>
      rw [List.replicate_succ', ← List.append_assoc, List.getLastD_concat, UInt8.toNat_ofNat']
      omega
  unfold unpad?
  dsimp only
  rw [hlast, List.length_append, List.length_replicate, Nat.add_sub_cancel, List.drop_left,
    List.take_left, if_pos]
  refine ⟨by omega, by omega, by omega, ?_⟩
  simp

theorem eq_pad_of_unpad?_eq_some {block bs : Bytes} (hdvd : size ∣ block.length)
    (h : unpad? size block = some bs) : block = pad size bs := by
  unfold unpad? at h
  dsimp only at h
  split at h
  . next hcond =>
    rcases hcond with ⟨hpos, hle, hlength, hall⟩
    rw [Option.some.injEq] at h
    generalize (block.getLastD 0).toNat = n at *
    have hpadding : block.drop (block.length - n) = List.replicate n (UInt8.ofNat n) := by
      rw [List.eq_replicate_iff, List.length_drop]
      refine ⟨by omega, ?_⟩
      intro b hb
      have hb := List.all_eq_true.mp hall b hb
      exact eq_of_beq hb
    -- The length of the message asks for the very padding that was found.
    have hbs : bs.length = block.length - n := by
      rw [← h, List.length_take]
      omega
    unfold pad
    rw [hbs, sub_mod_of_dvd hpos hle hlength hdvd]
    dsimp only
    rw [← hpadding, ← h, List.take_append_drop]
  . simp at h

theorem unpad?_append {block : Bytes} (hblock : block.length = size) (hsize : 0 < size)
    (bs : Bytes) : unpad? size (bs ++ block) = (unpad? size block).map (bs ++ ·) := by
  have hlast : (bs ++ block).getLastD 0 = block.getLastD 0 := by
    cases block with
    | nil =>
      rw [List.length_nil] at hblock
      omega
    | cons b block => simp [List.getLastD_eq_getLast?, List.getLast?_append, List.getLast?_cons]
  unfold unpad?
  dsimp only
  rw [hlast, List.length_append]
  generalize (block.getLastD 0).toNat = n
  by_cases hle : n ≤ size
  . have hsub : bs.length + block.length - n = bs.length + (block.length - n) := by omega
    have hsum : n ≤ bs.length + block.length ↔ n ≤ block.length := by omega
    simp only [hsub, hsum, List.drop_length_add_append, List.take_length_add_append]
    split
    . rfl
    . rfl
  . rw [if_neg, if_neg]
    . rfl
    . omega
    . omega

end Keyring.Cipher.Padding
