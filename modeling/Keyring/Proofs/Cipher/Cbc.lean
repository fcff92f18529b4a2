import Keyring.Cipher.Cbc
import Keyring.Proofs.Cipher.Aes
import Keyring.Proofs.Cipher.Padding
import Keyring.Proofs.Outcome
/-!
This module contains the laws of the chained cipher: it can be set up for keys of three sizes,
decryption and encryption of blocks undo each other, messages may arrive in pieces, and the
ciphertexts that decrypt are those that encryption makes.
-/

namespace Keyring.Cipher.Cbc

theorem Variant.ofKeySize?_eq_some_iff {size : Nat} {v : Variant} :
    ofKeySize? size = some v ↔ size = v.keySize := by
  constructor
  . intro h
    unfold ofKeySize? at h
    split at h <;> cases h <;> rfl
  . rintro rfl
    cases v <;> rfl

theorem Variant.exists_eq_keySize_iff {size : Nat} :
    (∃ v : Variant, size = v.keySize) ↔ size = 16 ∨ size = 24 ∨ size = 32 := by
  constructor
  . rintro ⟨v, rfl⟩
    cases v <;> simp [keySize]
  . rintro (rfl | rfl | rfl)
    . exact ⟨.aes128, rfl⟩
    . exact ⟨.aes192, rfl⟩
    . exact ⟨.aes256, rfl⟩

/-- The set-up refuses keys and initial blocks of all other sizes. -/
theorem setUp_eq_ok_iff {key iv : Bytes} {keys : List Bytes} :
    setUp key iv = .ok keys ↔
      (key.length = 16 ∨ key.length = 24 ∨ key.length = 32) ∧ iv.length = Aes.blockSize ∧
        Aes.roundKeys key = keys := by
  rw [← Variant.exists_eq_keySize_iff]
  unfold setUp Variant.roundKeys?
  split
  . next v hv =>
    have hkey := Variant.ofKeySize?_eq_some_iff.mp hv
    have hvariant : ∃ v : Variant, key.length = v.keySize := ⟨v, hkey⟩
    rw [and_iff_right hvariant]
    simp only [hkey, true_and]
    by_cases hiv : iv.length = Aes.blockSize
    . simp [hiv]
    . simp [hiv]
  . next hnone =>
    have hkey : ¬∃ v : Variant, key.length = v.keySize := by
      rintro ⟨v, hv⟩
      rw [Variant.ofKeySize?_eq_some_iff.mpr hv] at hnone
      cases hnone
    simp [hkey]

theorem setUp_eq_ok {key iv : Bytes}
    (hkey : key.length = 16 ∨ key.length = 24 ∨ key.length = 32) (hiv : iv.length = Aes.blockSize) :
    setUp key iv = .ok (Aes.roundKeys key) :=
  setUp_eq_ok_iff.mpr ⟨hkey, hiv, rfl⟩

variable {keys : List Bytes} {chain : Bytes} {blocks : List Bytes}

theorem length_encryptBlocks (keys : List Bytes) (chain : Bytes) (blocks : List Bytes) :
    (encryptBlocks keys chain blocks).length = blocks.length := by
  induction blocks generalizing chain with
  | nil => rfl
  | cons block blocks ih => rw [encryptBlocks, List.length_cons, List.length_cons, ih]

theorem encryptBlocks_append (keys : List Bytes) (chain : Bytes) (blocks more : List Bytes) :
    encryptBlocks keys chain (blocks ++ more) =
      encryptBlocks keys chain blocks ++
        encryptBlocks keys ((encryptBlocks keys chain blocks).getLastD chain) more := by
  induction blocks generalizing chain with
  | nil => rfl
  | cons block blocks ih =>
    rw [List.cons_append, encryptBlocks, encryptBlocks, ih, List.cons_append, List.getLastD_cons]

theorem getLastD_append (blocks more : List Bytes) (chain : Bytes) :
    (blocks ++ more).getLastD chain = more.getLastD (blocks.getLastD chain) := by
  induction blocks generalizing chain with
  | nil => rfl
  | cons block blocks ih => rw [List.cons_append, List.getLastD_cons, List.getLastD_cons, ih]

theorem decryptBlocks_append (keys : List Bytes) (chain : Bytes) (blocks more : List Bytes) :
    decryptBlocks keys chain (blocks ++ more) =
      decryptBlocks keys chain blocks ++ decryptBlocks keys (blocks.getLastD chain) more := by
  induction blocks generalizing chain with
  | nil => rfl
  | cons block blocks ih =>
    rw [List.cons_append, decryptBlocks, decryptBlocks, ih, List.cons_append, List.getLastD_cons]

theorem length_of_mem_encryptBlocks (hkeys : Aes.IsSchedule keys)
    (hblocks : ∀ block ∈ blocks, block.length = Aes.blockSize)
    (hchain : chain.length = Aes.blockSize) :
    ∀ block ∈ encryptBlocks keys chain blocks, block.length = Aes.blockSize := by
  induction blocks generalizing chain with
  | nil => simp [encryptBlocks]
  | cons block blocks ih =>
    have hout : (Aes.encryptBlock keys (Bytes.xor block chain)).length = Aes.blockSize := by
      apply hkeys.length_encryptBlock
      simp [hchain, hblocks block]
    intro out hmem
    cases List.mem_cons.mp hmem with
    | inl heq =>
      rw [heq]
      exact hout
    | inr hrest =>
      exact ih (List.forall_mem_cons.mp hblocks).2 hout out hrest

theorem length_of_mem_decryptBlocks (hkeys : Aes.IsSchedule keys)
    (hblocks : ∀ block ∈ blocks, block.length = Aes.blockSize)
    (hchain : chain.length = Aes.blockSize) :
    ∀ block ∈ decryptBlocks keys chain blocks, block.length = Aes.blockSize := by
  induction blocks generalizing chain with
  | nil => simp [decryptBlocks]
  | cons block blocks ih =>
    have hblock := hblocks block List.mem_cons_self
    intro out hmem
    cases List.mem_cons.mp hmem with
    | inl heq =>
      rw [heq, Bytes.length_xor, hkeys.length_decryptBlock hblock, hchain, Nat.min_self]
    | inr hrest =>
      exact ih (List.forall_mem_cons.mp hblocks).2 hblock out hrest

theorem decryptBlocks_encryptBlocks (hkeys : Aes.IsSchedule keys)
    (hblocks : ∀ block ∈ blocks, block.length = Aes.blockSize)
    (hchain : chain.length = Aes.blockSize) :
    decryptBlocks keys chain (encryptBlocks keys chain blocks) = blocks := by
  induction blocks generalizing chain with
  | nil => rfl
  | cons block blocks ih =>
    have hblock := hblocks block List.mem_cons_self
    have hin : (Bytes.xor block chain).length = Aes.blockSize := by
      rw [Bytes.length_xor, hblock, hchain, Nat.min_self]
    have hrest := ih (List.forall_mem_cons.mp hblocks).2
      (hkeys.length_encryptBlock hin)
    rw [encryptBlocks, decryptBlocks, hkeys.decryptBlock_encryptBlock hin, hrest,
      Bytes.xor_xor_cancel]
    exact Nat.le_of_eq (hblock.trans hchain.symm)

theorem encryptBlocks_decryptBlocks (hkeys : Aes.IsSchedule keys)
    (hblocks : ∀ block ∈ blocks, block.length = Aes.blockSize)
    (hchain : chain.length = Aes.blockSize) :
    encryptBlocks keys chain (decryptBlocks keys chain blocks) = blocks := by
  induction blocks generalizing chain with
  | nil => rfl
  | cons block blocks ih =>
    have hblock := hblocks block List.mem_cons_self
    have hout := hkeys.length_decryptBlock hblock
    have hrest := ih (List.forall_mem_cons.mp hblocks).2 hblock
    rw [decryptBlocks, encryptBlocks, Bytes.xor_xor_cancel, hkeys.encryptBlock_decryptBlock hblock,
      hrest]
    exact Nat.le_of_eq (hout.trans hchain.symm)

namespace Encryptor

/-- What an encryption under way makes of the data that are still to come. -/
def rest (e : Encryptor) (data : Bytes) : Bytes :=
  let padded := Padding.pad Aes.blockSize (e.pending ++ data)
  (encryptBlocks e.keys e.chain (Bytes.blocks Aes.blockSize padded)).flatten

theorem finish_eq_rest (e : Encryptor) : e.finish = e.rest [] := by
  unfold finish rest
  rw [List.append_nil]

theorem update_append_rest (e : Encryptor) (data more : Bytes) :
    (e.update data).2 ++ (e.update data).1.rest more = e.rest (data ++ more) := by
  unfold rest update
  dsimp only
  rw [← List.append_assoc]
  generalize e.pending ++ data = whole
  -- What leaves the buffer is whole blocks, so the padding is that of what stays.
  have hdvd : Aes.blockSize ∣
      (whole.take (whole.length - whole.length % Aes.blockSize)).length := by
    rw [List.length_take, Nat.min_eq_left (Nat.sub_le _ _)]
    exact Nat.dvd_sub_mod _
  generalize whole.length - whole.length % Aes.blockSize = ready at *
  have hsplit : whole ++ more = whole.take ready ++ (whole.drop ready ++ more) := by
    rw [← List.append_assoc, List.take_append_drop]
  rw [hsplit, Padding.pad_append hdvd, Bytes.blocks_append_of_dvd (by decide) hdvd,
    encryptBlocks_append, List.flatten_append]

theorem start_eq_ok_iff {key iv : Bytes} {e : Encryptor} :
    start key iv = .ok e ↔ (key.length = 16 ∨ key.length = 24 ∨ key.length = 32) ∧
      iv.length = Aes.blockSize ∧ ⟨Aes.roundKeys key, iv, []⟩ = e := by
  unfold start
  simp only [bind_eq_ok_iff, setUp_eq_ok_iff, pure_eq_ok, Except.ok.injEq]
  constructor
  . rintro ⟨_, ⟨hkey, hiv, rfl⟩, he⟩
    exact ⟨hkey, hiv, he⟩
  . rintro ⟨hkey, hiv, he⟩
    exact ⟨_, ⟨hkey, hiv, rfl⟩, he⟩

theorem update_append_finish {key iv : Bytes} {e : Encryptor} (h : start key iv = .ok e)
    (message : Bytes) : (e.update message).2 ++ (e.update message).1.finish =
      encrypt key iv message := by
  rcases start_eq_ok_iff.mp h with ⟨_, _, rfl⟩
  rw [finish_eq_rest, update_append_rest, List.append_nil]
  rfl

end Encryptor

/-- The plaintext of a whole ciphertext, without its initial block. -/
def decrypt? (keys : List Bytes) (iv data : Bytes) : Option Bytes :=
  if data.length ≠ 0 ∧ data.length % Aes.blockSize = 0 then
    Padding.unpad? Aes.blockSize
      (decryptBlocks keys iv (Bytes.blocks Aes.blockSize data)).flatten
  else
    none

theorem length_encrypt {key iv : Bytes} (hkey : Aes.IsSchedule (Aes.roundKeys key))
    (hiv : iv.length = Aes.blockSize) (message : Bytes) :
    (encrypt key iv message).length = (Padding.pad Aes.blockSize message).length := by
  have hdvd := Padding.dvd_length_pad (by decide : 0 < Aes.blockSize) message
  have hblocks := Bytes.length_of_mem_blocks (by decide) hdvd
  rw [← Bytes.length_blocks (by decide) hdvd, ← length_encryptBlocks (Aes.roundKeys key) iv]
  exact Bytes.length_flatten_of_length_eq (length_of_mem_encryptBlocks hkey hblocks hiv)

theorem decrypt?_encrypt {key iv : Bytes} (hkey : Aes.IsSchedule (Aes.roundKeys key))
    (hiv : iv.length = Aes.blockSize) (message : Bytes) :
    decrypt? (Aes.roundKeys key) iv (encrypt key iv message) = some message := by
  have hdvd := Padding.dvd_length_pad (by decide : 0 < Aes.blockSize) message
  have hblocks := Bytes.length_of_mem_blocks (by decide) hdvd
  have hout := length_of_mem_encryptBlocks hkey hblocks hiv
  unfold decrypt?
  rw [length_encrypt hkey hiv, if_pos]
  . unfold encrypt
    dsimp only
    rw [Bytes.blocks_flatten (by decide) hout, decryptBlocks_encryptBlocks hkey hblocks hiv,
      Bytes.flatten_blocks, Padding.unpad?_pad (by decide) (by decide)]
  . refine ⟨?_, Nat.mod_eq_zero_of_dvd hdvd⟩
    intro hzero
    exact Padding.pad_ne_nil (by decide) message (List.length_eq_zero_iff.mp hzero)

theorem eq_encrypt_of_decrypt?_eq_some {key iv data message : Bytes}
    (hkey : Aes.IsSchedule (Aes.roundKeys key)) (hiv : iv.length = Aes.blockSize)
    (h : decrypt? (Aes.roundKeys key) iv data = some message) : data = encrypt key iv message := by
  unfold decrypt? at h
  split at h
  . next hcond =>
    have hdvd := Nat.dvd_of_mod_eq_zero hcond.2
    have hblocks := Bytes.length_of_mem_blocks (by decide) hdvd
    have hout := length_of_mem_decryptBlocks hkey hblocks hiv
    have hpadded := Padding.eq_pad_of_unpad?_eq_some (Bytes.dvd_length_flatten hout) h
    unfold encrypt
    dsimp only
    rw [← hpadded, Bytes.blocks_flatten (by decide) hout,
      encryptBlocks_decryptBlocks hkey hblocks hiv, Bytes.flatten_blocks]
  . simp at h

theorem decrypt?_eq_some_iff {key iv data message : Bytes}
    (hkey : Aes.IsSchedule (Aes.roundKeys key)) (hiv : iv.length = Aes.blockSize) :
    decrypt? (Aes.roundKeys key) iv data = some message ↔ data = encrypt key iv message := by
  constructor
  . exact eq_encrypt_of_decrypt?_eq_some hkey hiv
  . rintro rfl
    exact decrypt?_encrypt hkey hiv message

theorem decrypt?_eq_none_iff {iv data : Bytes} :
    decrypt? keys iv data = none ↔ data = [] ∨ data.length % Aes.blockSize ≠ 0 ∨
      Padding.unpad? Aes.blockSize
        (decryptBlocks keys iv (Bytes.blocks Aes.blockSize data)).flatten = none := by
  unfold decrypt?
  rw [← List.length_eq_zero_iff]
  split
  . next hcond => simp only [hcond.1, hcond.2, ne_eq, not_true_eq_false, false_or]
  . next hcond =>
    rw [ne_eq, Decidable.not_and_iff_not_or_not, Decidable.not_not] at hcond
    rw [← or_assoc]
    simp only [ne_eq, hcond, true_or]

namespace Decryptor

theorem update_running (keys : List Bytes) (chain pending data : Bytes) :
    (running keys chain pending).update data = .ok (decryptReady keys chain (pending ++ data)) := by
  rfl

theorem update_awaitingIv_of_lt {key collected data : Bytes}
    (h : (collected ++ data).length < Aes.blockSize) :
    (awaitingIv key collected).update data = .ok (awaitingIv key (collected ++ data), []) := by
  unfold update
  exact if_pos h

theorem update_awaitingIv_of_le {key collected data : Bytes}
    (h : Aes.blockSize ≤ (collected ++ data).length) :
    (awaitingIv key collected).update data =
      setUp key ((collected ++ data).take Aes.blockSize) >>= fun keys =>
        .ok (decryptReady keys ((collected ++ data).take Aes.blockSize)
          ((collected ++ data).drop Aes.blockSize)) := by
  unfold update
  exact if_neg (Nat.not_lt.mpr h)

theorem decryptReady_append (keys : List Bytes) (chain data more : Bytes) :
    .ok (decryptReady keys chain (data ++ more)) =
      (decryptReady keys chain data).1.update more >>= fun (d, rest) =>
        .ok (d, (decryptReady keys chain data).2 ++ rest) := by
  unfold decryptReady
  simp only [update_running, ok_bind, Except.ok.injEq]
  unfold decryptReady
  dsimp only
  generalize hfirst : (data.length - 1) / Aes.blockSize * Aes.blockSize = first
  generalize hsecond : ((data.drop first ++ more).length - 1) / Aes.blockSize * Aes.blockSize =
    second
  unfold Aes.blockSize at *
  rw [List.length_append, List.length_drop] at hsecond
  have hlength : (data.take first).length = first := by
    rw [List.length_take]
    omega
  have hdvd : 16 ∣ (data.take first).length := by omega
  -- At least one byte of any data is held back, so what is ready adds up.
  have hready : ((data ++ more).length - 1) / 16 * 16 = (data.take first).length + second := by
    rw [List.length_append]
    omega
  have hsplit : data ++ more = data.take first ++ (data.drop first ++ more) := by
    rw [← List.append_assoc, List.take_append_drop]
  rw [hready, hsplit, List.take_length_add_append, List.drop_length_add_append,
    Bytes.blocks_append_of_dvd (by decide) hdvd, decryptBlocks_append, List.flatten_append,
    getLastD_append]

theorem update_append (d : Decryptor) (data more : Bytes) :
    d.update (data ++ more) =
      d.update data >>= fun (d, out) => d.update more >>= fun (d, rest) => .ok (d, out ++ rest) := by
  cases d with
  | running keys chain pending =>
    rw [update_running, update_running, ← List.append_assoc, decryptReady_append, ok_bind]
  | awaitingIv key collected =>
    by_cases hlength : (collected ++ data).length < Aes.blockSize
    . -- What was fed in first is only collected and gives no output.
      have hsame : (awaitingIv key collected).update (data ++ more) =
          (awaitingIv key (collected ++ data)).update more := by
        unfold update
        dsimp only
        rw [List.append_assoc]
      rw [update_awaitingIv_of_lt hlength, hsame, ok_bind]
      dsimp only
      cases (awaitingIv key (collected ++ data)).update more <;> rfl
    . have hle := Nat.not_lt.mp hlength
      have hle' : Aes.blockSize ≤ (collected ++ (data ++ more)).length := by
        rw [← List.append_assoc, List.length_append]
        omega
      rw [update_awaitingIv_of_le hle, update_awaitingIv_of_le hle', ← List.append_assoc,
        List.take_append_of_le_length hle, List.drop_append_of_le_length hle]
      cases setUp key ((collected ++ data).take Aes.blockSize) with
      | error e => rfl
      | ok keys => rw [ok_bind, ok_bind, decryptReady_append, ok_bind]

theorem finish_decryptReady (hkeys : Aes.IsSchedule keys) (hchain : chain.length = Aes.blockSize)
    {data message : Bytes} :
    (∃ last, (decryptReady keys chain data).1.finish = .ok last ∧
      (decryptReady keys chain data).2 ++ last = message) ↔
      decrypt? keys chain data = some message := by
  unfold decryptReady finish decrypt?
  dsimp only
  generalize hready : (data.length - 1) / Aes.blockSize * Aes.blockSize = ready
  unfold Aes.blockSize at *
  split
  . next hlast =>
    -- The block that was held back is the last one, and everything before it is whole blocks.
    rw [List.length_drop] at hlast
    have hdvd : 16 ∣ (data.take ready).length := by
      rw [List.length_take]
      omega
    have hblocks : Bytes.blocks 16 data =
        Bytes.blocks 16 (data.take ready) ++ [data.drop ready] := by
      have hone := Bytes.blocks_append (by decide : 0 < 16) (List.length_drop.trans hlast) []
      rw [List.append_nil, Bytes.blocks] at hone
      rw [← hone, ← Bytes.blocks_append_of_dvd (by decide) hdvd, List.take_append_drop]
    have hin := Bytes.length_of_mem_blocks (by decide) hdvd
    have hchain' : ((Bytes.blocks 16 (data.take ready)).getLastD chain).length = 16 := by
      cases List.mem_cons.mp List.getLastD_mem_cons with
      | inl heq =>
        rw [heq]
        exact hchain
      | inr hmem => exact hin _ hmem
    have hout := hkeys.length_decryptBlock (List.length_drop.trans hlast)
    rw [if_pos, hblocks, decryptBlocks_append, decryptBlocks, decryptBlocks, List.flatten_append,
      List.flatten_singleton, Padding.unpad?_append]
    . cases Padding.unpad? 16 _ with
      | none => simp
      | some last => simp
    . rw [Bytes.length_xor, hout, hchain']
      rfl
    . decide
    . omega
  . next hlast =>
    -- What was held back is no block, so the data are none or no whole blocks.
    rw [List.length_drop] at hlast
    rw [if_neg]
    . simp
    . omega

theorem finish_decryptReady_eq_error (hkeys : Aes.IsSchedule keys)
    (hchain : chain.length = Aes.blockSize) {data : Bytes} (h : decrypt? keys chain data = none) :
    ∃ operation, (decryptReady keys chain data).1.finish =
      .error (.cryptoOperationFailed operation) := by
  have hfails : ∀ last, (decryptReady keys chain data).1.finish ≠ .ok last := by
    intro last hlast
    have hsome := (finish_decryptReady hkeys hchain).mp ⟨last, hlast, rfl⟩
    rw [h] at hsome
    simp at hsome
  unfold decryptReady finish at *
  dsimp only at *
  split
  . next hlast =>
    rw [if_pos hlast] at hfails
    split
    . next bs hbs =>
      rw [hbs] at hfails
      exact absurd rfl (hfails bs)
    . exact ⟨_, rfl⟩
  . exact ⟨_, rfl⟩

theorem update_start_of_lt (key : Bytes) {data : Bytes} (h : data.length < Aes.blockSize) :
    (start key).update data = .ok (awaitingIv key data, []) := by
  unfold start update
  exact if_pos h

section Start

variable {key : Bytes} (hkey : key.length = 16 ∨ key.length = 24 ∨ key.length = 32)

include hkey

theorem update_start_of_le {data : Bytes} (h : Aes.blockSize ≤ data.length) :
    (start key).update data =
      .ok (decryptReady (Aes.roundKeys key) (data.take Aes.blockSize)
        (data.drop Aes.blockSize)) := by
  have htake : (data.take Aes.blockSize).length = Aes.blockSize := by
    rw [List.length_take, Nat.min_eq_left h]
  unfold start update
  dsimp only
  rw [List.nil_append, if_neg (Nat.not_lt.mpr h), setUp_eq_ok hkey htake, ok_bind]
  rfl

theorem exists_update_start (data : Bytes) : ∃ d out, (start key).update data = .ok (d, out) := by
  by_cases hlength : data.length < Aes.blockSize
  . exact ⟨_, _, update_start_of_lt key hlength⟩
  . exact ⟨_, _, update_start_of_le hkey (Nat.not_lt.mp hlength)⟩

theorem finish_update_start {data : Bytes} {d : Decryptor} {out : Bytes}
    (h : (start key).update data = .ok (d, out)) (message : Bytes) :
    (∃ last, d.finish = .ok last ∧ out ++ last = message) ↔
      ∃ iv, iv.length = Aes.blockSize ∧ data = iv ++ encrypt key iv message := by
  have hkeys := Aes.isSchedule_roundKeys hkey
  by_cases hlength : data.length < Aes.blockSize
  . cases (update_start_of_lt key hlength).symm.trans h
    constructor
    . rintro ⟨last, hlast, _⟩
      simp [finish] at hlast
    . rintro ⟨iv, hiv, rfl⟩
      rw [List.length_append] at hlength
      omega
  . have hle := Nat.not_lt.mp hlength
    have htake : (data.take Aes.blockSize).length = Aes.blockSize := by
      rw [List.length_take, Nat.min_eq_left hle]
    have hready := Except.ok.inj ((update_start_of_le hkey hle).symm.trans h)
    rcases Prod.ext_iff.mp hready with ⟨rfl, rfl⟩
    rw [finish_decryptReady hkeys htake, decrypt?_eq_some_iff hkeys htake]
    constructor
    . intro heq
      refine ⟨data.take Aes.blockSize, htake, ?_⟩
      rw [← heq, List.take_append_drop]
    . rintro ⟨iv, hiv, rfl⟩
      rw [List.take_left' hiv, List.drop_left' hiv]

end Start

end Decryptor

end Keyring.Cipher.Cbc
