import Keyring.Deflate.Bits
import Mathlib.Algebra.Group.Nat.Defs
/-!
This module contains the laws of the bits of compressed data. Numbers are read as they were written,
with anything behind them, and the bytes that hold some bits give them back with zeros to the end of
the last byte.
-/

namespace Keyring.Deflate.Bits

@[simp]
theorem length_ofNumber (n v : Nat) : (ofNumber n v).length = n := by
  induction n generalizing v with
  | zero => rfl
  | succ n ih => rw [ofNumber, List.length_cons, ih]

@[simp]
theorem length_ofWord (n v : Nat) : (ofWord n v).length = n := by
  rw [ofWord, List.length_reverse, length_ofNumber]

theorem toNat_lowBit (v : Nat) : (v % 2 == 1).toNat = v % 2 := by
  rcases Nat.mod_two_eq_zero_or_one v with h | h
  . rw [h]
    rfl
  . rw [h]
    rfl

theorem ofNumber_succ_add (n : Nat) (b : Bool) (v : Nat) :
    ofNumber (n + 1) (b.toNat + 2 * v) = b :: ofNumber n v := by
  have hhead : ((b.toNat + 2 * v) % 2 == 1) = b := by
    rw [Nat.add_mul_mod_self_left]
    cases b with
    | false => rfl
    | true => rfl
  have htail : (b.toNat + 2 * v) / 2 = v := by
    have hb := b.toNat_lt
    omega
  rw [ofNumber, hhead, htail]

theorem readNumber_ofNumber_append {n v : Nat} (h : v < 2 ^ n) (rest : Bits) :
    readNumber n (ofNumber n v ++ rest) = some (v, rest) := by
  induction n generalizing v with
  | zero =>
    rw [Nat.pow_zero, Nat.lt_one_iff] at h
    rw [h]
    rfl
  | succ n ih =>
    have hhalf : v / 2 < 2 ^ n := by
      rw [Nat.pow_succ] at h
      omega
    rw [ofNumber, List.cons_append, readNumber, ih hhalf, Option.bind_eq_bind, Option.bind_some]
    dsimp only
    rw [toNat_lowBit, Nat.mod_add_div]
    rfl

theorem readNumber_eq_some_iff {n v : Nat} {bits rest : Bits} :
    readNumber n bits = some (v, rest) ↔ v < 2 ^ n ∧ bits = ofNumber n v ++ rest := by
  constructor
  . intro h
    induction n generalizing bits v with
    | zero =>
      cases h
      exact ⟨Nat.one_pos, rfl⟩
    | succ n ih =>
      cases bits with
      | nil => cases h
      | cons b bits =>
        rcases Option.bind_eq_some_iff.mp h with ⟨⟨w, _⟩, hread, heq⟩
        cases heq
        rcases ih hread with ⟨hlt, rfl⟩
        have hb := b.toNat_lt
        refine ⟨?_, ?_⟩
        . rw [Nat.pow_succ]
          omega
        . rw [ofNumber_succ_add, List.cons_append]
  . rintro ⟨hv, rfl⟩
    exact readNumber_ofNumber_append hv rest

theorem readNumbers_append {width : Nat} {vs : List Nat} (h : ∀ v ∈ vs, v < 2 ^ width)
    (rest : Bits) :
    readNumbers width vs.length (vs.flatMap (ofNumber width) ++ rest) = some (vs, rest) := by
  induction vs with
  | nil => rfl
  | cons v vs ih =>
    rcases List.forall_mem_cons.mp h with ⟨hv, hvs⟩
    rw [List.length_cons, List.flatMap_cons, List.append_assoc, readNumbers,
      readNumber_ofNumber_append hv, Option.bind_eq_bind, Option.bind_some]
    dsimp only
    rw [ih hvs]
    rfl

theorem readNumbers_eq_some_iff {width n : Nat} {vs : List Nat} {bits rest : Bits} :
    readNumbers width n bits = some (vs, rest) ↔
      vs.length = n ∧ (∀ v ∈ vs, v < 2 ^ width) ∧ bits = vs.flatMap (ofNumber width) ++ rest := by
  constructor
  . intro h
    induction n generalizing bits vs with
    | zero =>
      cases h
      exact ⟨rfl, by simp, rfl⟩
    | succ n ih =>
      rcases Option.bind_eq_some_iff.mp h with ⟨⟨v, _⟩, hv, h⟩
      rcases Option.bind_eq_some_iff.mp h with ⟨⟨vs, _⟩, hvs, heq⟩
      cases heq
      rcases readNumber_eq_some_iff.mp hv with ⟨hlt, rfl⟩
      rcases ih hvs with ⟨hlength, hsmall, hbits⟩
      refine ⟨?_, List.forall_mem_cons.mpr ⟨hlt, hsmall⟩, ?_⟩
      . rw [List.length_cons, hlength]
      . rw [hbits, List.flatMap_cons, List.append_assoc]
  . rintro ⟨rfl, hsmall, rfl⟩
    exact readNumbers_append hsmall rest

theorem toNumber_append (as bs : Bits) :
    toNumber (as ++ bs) = toNumber as + 2 ^ as.length * toNumber bs := by
  induction as with
  | nil => simp [toNumber]
  | cons a as ih =>
    rw [List.cons_append, toNumber, toNumber, ih, List.length_cons, Nat.pow_succ', Nat.mul_assoc]
    omega

theorem toNumber_lt (bits : Bits) : toNumber bits < 2 ^ bits.length := by
  induction bits with
  | nil => simp [toNumber]
  | cons b bits ih =>
    have hb := b.toNat_le
    rw [toNumber, List.length_cons, Nat.pow_succ]
    omega

theorem toNumber_ofNumber (n v : Nat) : toNumber (ofNumber n v) = v % 2 ^ n := by
  induction n generalizing v with
  | zero => rw [ofNumber, toNumber, Nat.pow_zero, Nat.mod_one]
  | succ n ih =>
    rw [ofNumber, toNumber, ih, toNat_lowBit, Nat.pow_succ', Nat.mod_mul]

theorem ofNumber_toNumber {n : Nat} {bits : Bits} (h : bits.length ≤ n) :
    ofNumber n (toNumber bits) = bits ++ List.replicate (n - bits.length) false := by
  induction n generalizing bits with
  | zero =>
    rw [Nat.le_zero, List.length_eq_zero_iff] at h
    rw [h]
    rfl
  | succ n ih =>
    cases bits with
    | nil =>
      rw [List.length_nil, List.nil_append, Nat.sub_zero, List.replicate_succ, ofNumber]
      exact congrArg (false :: ·) (@ih [] (Nat.zero_le n))
    | cons b bits =>
      rw [List.length_cons] at h
      rw [toNumber, ofNumber_succ_add, ih (by omega), List.length_cons, Nat.add_sub_add_right,
        List.cons_append]

theorem ofBytes_append (as bs : Bytes) : ofBytes (as ++ bs) = ofBytes as ++ ofBytes bs := by
  exact List.flatMap_append

theorem length_ofBytes (bs : Bytes) : (ofBytes bs).length = 8 * bs.length := by
  induction bs with
  | nil => rfl
  | cons b bs ih =>
    unfold ofBytes at ih ⊢
    rw [List.flatMap_cons, List.length_append, length_ofNumber, ih, List.length_cons]
    omega

theorem readNumbers_ofBytes_append (bs : Bytes) (rest : Bits) :
    readNumbers 8 bs.length (ofBytes bs ++ rest) = some (bs.map UInt8.toNat, rest) := by
  have hsmall : ∀ v ∈ bs.map UInt8.toNat, v < 2 ^ 8 := by
    intro v hv
    rcases List.mem_map.mp hv with ⟨b, _, rfl⟩
    exact b.toNat_lt
  have hread := readNumbers_append hsmall rest
  rw [List.length_map, List.flatMap_map] at hread
  exact hread

theorem ofBytes_map_ofNat {vs : List Nat} (h : ∀ v ∈ vs, v < 2 ^ 8) :
    ofBytes (vs.map UInt8.ofNat) = vs.flatMap (ofNumber 8) := by
  induction vs with
  | nil => rfl
  | cons v vs ih =>
    rcases List.forall_mem_cons.mp h with ⟨hv, hvs⟩
    unfold ofBytes at ih ⊢
    rw [List.map_cons, List.flatMap_cons, List.flatMap_cons, UInt8.toNat_ofNat_of_lt' hv, ih hvs]

theorem ofNumber_toNat_ofNat {bits : Bits} (h : bits.length ≤ 8) :
    ofNumber 8 (UInt8.ofNat (toNumber bits)).toNat =
      bits ++ List.replicate (8 - bits.length) false := by
  have hlt : toNumber bits < 2 ^ 8 :=
    Nat.lt_of_lt_of_le (toNumber_lt bits) (Nat.pow_le_pow_right (by decide) h)
  rw [UInt8.toNat_ofNat_of_lt' hlt, ofNumber_toNumber h]

theorem exists_ofBytes_toBytes (bits : Bits) :
    ∃ n < 8, ofBytes (toBytes bits) = bits ++ List.replicate n false := by
  fun_induction toBytes bits with
  | case1 b₀ b₁ b₂ b₃ b₄ b₅ b₆ b₇ bits ih =>
    rcases ih with ⟨n, hn, hbits⟩
    have hbyte := @ofNumber_toNat_ofNat [b₀, b₁, b₂, b₃, b₄, b₅, b₆, b₇] (Nat.le_refl 8)
    refine ⟨n, hn, ?_⟩
    unfold ofBytes at hbits ⊢
    rw [List.flatMap_cons, hbits, hbyte]
    rfl
  | case2 => exact ⟨0, by decide, rfl⟩
  | case3 bits hlong hne =>
    -- Fewer than eight bits are left, but at least one.
    have hshort : bits.length < 8 := by
      rcases bits with _ | ⟨b₀, _ | ⟨b₁, _ | ⟨b₂, _ | ⟨b₃, _ | ⟨b₄, _ | ⟨b₅, _ | ⟨b₆, _ |
        ⟨b₇, bits⟩⟩⟩⟩⟩⟩⟩⟩
      case cons.cons.cons.cons.cons.cons.cons.cons => exact absurd rfl (hlong _ _ _ _ _ _ _ _ _)
      all_goals simp
    have hpos : 0 < bits.length := List.length_pos_iff.mpr hne
    refine ⟨8 - bits.length, by omega, ?_⟩
    unfold ofBytes
    rw [List.flatMap_cons, List.flatMap_nil, List.append_nil,
      ofNumber_toNat_ofNat (Nat.le_of_lt hshort)]

end Keyring.Deflate.Bits
