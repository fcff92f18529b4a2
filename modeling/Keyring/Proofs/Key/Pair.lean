import Keyring.Proofs.Dsa.Signature
import Keyring.Proofs.Key.Codec
/-!
This module contains which numbers decode to private keys. Those of an RSA key are checked against
each other. The private value of a DSA key is only checked for its range, so it need not belong to
the public value from which the hash is computed.
-/

namespace Keyring

/-- The numbers of an RSA key whose two halves belong together. -/
structure RsaPrivateKey.Admits (n e d p q : Nat) : Prop where
  odd : n % 2 = 1 ∧ e % 2 = 1
  bounds : 2 ≤ e ∧ e < 2 ^ 33 ∧ e < n
  factors : 1 < p ∧ 1 < q ∧ p * q = n
  inverse_left : e * d ≡ 1 [MOD p - 1]
  inverse_right : e * d ≡ 1 [MOD q - 1]

/-- The numbers of a DSA key, where nothing ties the private value to the public one. -/
structure DsaPrivateKey.Admits (p q g y x : Nat) : Prop where
  moduli : 2 ≤ p ∧ 2 ≤ q
  generator : 0 < g ∧ g ≤ p
  public_value : 2 ≤ y ∧ y ^ q ≡ 1 [MOD p]
  private_value : 0 < x ∧ x ≤ q

namespace RsaPrivateKey

def numbers (k : RsaPrivateKey) : List Nat :=
  [k.publicKey.modulus, k.publicKey.exponent, k.exponent, k.p, k.q]

/-- Where `m` is at least 2, remainders can be compared with 1 itself. -/
theorem mul_mod_eq_one_iff {d e m : Nat} (hm : 2 ≤ m) : d * e % m = 1 ↔ e * d ≡ 1 [MOD m] := by
  unfold Nat.ModEq
  rw [Nat.mod_eq_of_lt hm, mul_comm]

/-- The factors of an odd number are not 2. -/
theorem two_le_pred_of_odd {p q : Nat} (hp : 1 < p) (h : p * q % 2 = 1) : 2 ≤ p - 1 := by
  have hne : p ≠ 2 := by
    rintro rfl
    omega
  omega

theorem valid_iff_admits {n e d p q : Nat} :
    ((n % 2 = 1 ∧ e % 2 = 1 ∧ 2 ≤ e ∧ e < 0x200000000 ∧ e < n) ∧
      1 < p ∧ 1 < q ∧ p * q = n ∧ d * e % (p - 1) = 1 ∧ d * e % (q - 1) = 1) ↔
    Admits n e d p q := by
  constructor
  . rintro ⟨⟨hn, he, hlow, hhigh, hlt⟩, hp, hq, rfl, hleft, hright⟩
    have hn' := hn
    rw [mul_comm] at hn'
    rw [mul_mod_eq_one_iff (two_le_pred_of_odd hp hn)] at hleft
    rw [mul_mod_eq_one_iff (two_le_pred_of_odd hq hn')] at hright
    exact ⟨⟨hn, he⟩, ⟨hlow, hhigh, hlt⟩, ⟨hp, hq, rfl⟩, hleft, hright⟩
  . rintro ⟨⟨hn, he⟩, ⟨hlow, hhigh, hlt⟩, ⟨hp, hq, rfl⟩, hleft, hright⟩
    have hn' := hn
    rw [mul_comm] at hn'
    rw [← mul_mod_eq_one_iff (two_le_pred_of_odd hp hn)] at hleft
    rw [← mul_mod_eq_one_iff (two_le_pred_of_odd hq hn')] at hright
    exact ⟨⟨hn, he, hlow, hhigh, hlt⟩, hp, hq, rfl, hleft, hright⟩

theorem admits (k : RsaPrivateKey) :
    Admits k.publicKey.modulus k.publicKey.exponent k.exponent k.p k.q := by
  exact valid_iff_admits.mp ⟨k.publicKey.valid, k.valid⟩

theorem exists_ofComponents_eq_ok {n e d p q : Bytes}
    (h : Admits (Bytes.toNat n) (Bytes.toNat e) (Bytes.toNat d) (Bytes.toNat p) (Bytes.toNat q)) :
    ∃ k, ofComponents n e d p q = .ok k ∧ k.numbers = [n, e, d, p, q].map Bytes.toNat := by
  rcases valid_iff_admits.mpr h with ⟨hpublic, hprivate⟩
  unfold ofComponents ofNumbers
  rw [dif_pos hpublic, dif_pos hprivate]
  exact ⟨_, rfl, rfl⟩

theorem ofComponents_eq_error {n e d p q : Bytes}
    (h : ¬Admits (Bytes.toNat n) (Bytes.toNat e) (Bytes.toNat d) (Bytes.toNat p)
      (Bytes.toNat q)) : ofComponents n e d p q = .error .badKey := by
  rw [← valid_iff_admits, not_and] at h
  unfold ofComponents ofNumbers
  split
  . next hpublic => rw [dif_neg (h hpublic)]
  . rfl

end RsaPrivateKey

namespace DsaPrivateKey

def numbers (k : DsaPrivateKey) : List Nat :=
  [k.publicKey.p, k.publicKey.q, k.publicKey.g, k.publicKey.y, k.x]

theorem valid_iff_admits {p q g y x : Nat} :
    ((2 ≤ p ∧ 2 ≤ q ∧ 0 < g ∧ g ≤ p ∧ 2 ≤ y ∧ Number.powMod y q p = 1) ∧ 0 < x ∧ x ≤ q) ↔
      Admits p q g y x := by
  have hpower : 2 ≤ p → (Number.powMod y q p = 1 ↔ y ^ q ≡ 1 [MOD p]) := by
    intro hp
    unfold Nat.ModEq
    rw [Number.powMod_eq, Nat.mod_eq_of_lt hp]
  constructor
  . rintro ⟨⟨hp, hq, hg, hgp, hy, hyq⟩, hx⟩
    exact ⟨⟨hp, hq⟩, ⟨hg, hgp⟩, ⟨hy, (hpower hp).mp hyq⟩, hx⟩
  . rintro ⟨⟨hp, hq⟩, ⟨hg, hgp⟩, ⟨hy, hyq⟩, hx⟩
    exact ⟨⟨hp, hq, hg, hgp, hy, (hpower hp).mpr hyq⟩, hx⟩

theorem admits (k : DsaPrivateKey) :
    Admits k.publicKey.p k.publicKey.q k.publicKey.g k.publicKey.y k.x := by
  exact valid_iff_admits.mp ⟨k.publicKey.valid, k.valid⟩

theorem exists_ofComponents_eq_ok {p q g y x : Bytes}
    (h : Admits (Bytes.toNat p) (Bytes.toNat q) (Bytes.toNat g) (Bytes.toNat y) (Bytes.toNat x)) :
    ∃ k, ofComponents p q g y x = .ok k ∧ k.numbers = [p, q, g, y, x].map Bytes.toNat := by
  rcases valid_iff_admits.mpr h with ⟨hpublic, hprivate⟩
  unfold ofComponents ofPublic DsaPublicKey.ofComponents DsaPublicKey.ofNumbers
  rw [dif_pos hpublic, ok_bind, dif_pos hprivate]
  exact ⟨_, rfl, rfl⟩

theorem ofComponents_eq_error {p q g y x : Bytes}
    (h : ¬Admits (Bytes.toNat p) (Bytes.toNat q) (Bytes.toNat g) (Bytes.toNat y)
      (Bytes.toNat x)) : ofComponents p q g y x = .error .badKey := by
  rw [← valid_iff_admits, not_and] at h
  unfold ofComponents ofPublic DsaPublicKey.ofComponents DsaPublicKey.ofNumbers
  split
  . next hpublic => rw [ok_bind, dif_neg (h hpublic)]
  . rfl

theorem value_modEq_iff (k : DsaPrivateKey) {p q g y x : Bytes}
    (h : k.numbers = [p, q, g, y, x].map Bytes.toNat) :
    k.publicKey.y ≡ k.publicKey.g ^ k.x [MOD k.publicKey.p] ↔
      Bytes.toNat y ≡ Bytes.toNat g ^ Bytes.toNat x [MOD Bytes.toNat p] := by
  simp only [numbers, List.map_cons, List.map_nil, List.cons.injEq, and_true] at h
  rcases h with ⟨hp, _, hg, hy, hx⟩
  rw [hp, hg, hy, hx]

end DsaPrivateKey

namespace Key

theorem decode_rsaPrivate_fields {n e d p q : Bytes}
    (hshort : ∀ field ∈ [n, e, d, p, q], field.length < 2 ^ 32) :
    decode (KeyType.rsaPrivate.tag :: [n, e, d, p, q].flatMap Bytes.field) =
      return .rsaPrivate (← RsaPrivateKey.ofComponents n e d p q) := by
  exact decode_fields rfl hshort

theorem decode_dsaPrivate_fields {p q g y x : Bytes}
    (hshort : ∀ field ∈ [p, q, g, y, x], field.length < 2 ^ 32) :
    decode (KeyType.dsaPrivate.tag :: [p, q, g, y, x].flatMap Bytes.field) =
      return .dsaPrivate (← DsaPrivateKey.ofComponents p q g y x) := by
  exact decode_fields rfl hshort

theorem exists_decode_rsaPrivate_eq_ok {n e d p q : Bytes}
    (hshort : ∀ field ∈ [n, e, d, p, q], field.length < 2 ^ 32)
    (h : RsaPrivateKey.Admits (Bytes.toNat n) (Bytes.toNat e) (Bytes.toNat d) (Bytes.toNat p)
      (Bytes.toNat q)) :
    ∃ k, decode (KeyType.rsaPrivate.tag :: [n, e, d, p, q].flatMap Bytes.field) =
      .ok (.rsaPrivate k) ∧ k.numbers = [n, e, d, p, q].map Bytes.toNat := by
  rcases RsaPrivateKey.exists_ofComponents_eq_ok h with ⟨k, hk, hnumbers⟩
  rw [decode_rsaPrivate_fields hshort, hk]
  exact ⟨k, rfl, hnumbers⟩

theorem decode_rsaPrivate_eq_error {n e d p q : Bytes}
    (hshort : ∀ field ∈ [n, e, d, p, q], field.length < 2 ^ 32)
    (h : ¬RsaPrivateKey.Admits (Bytes.toNat n) (Bytes.toNat e) (Bytes.toNat d) (Bytes.toNat p)
      (Bytes.toNat q)) :
    decode (KeyType.rsaPrivate.tag :: [n, e, d, p, q].flatMap Bytes.field) = .error .badKey := by
  rw [decode_rsaPrivate_fields hshort, RsaPrivateKey.ofComponents_eq_error h]
  rfl

theorem exists_decode_dsaPrivate_eq_ok {p q g y x : Bytes}
    (hshort : ∀ field ∈ [p, q, g, y, x], field.length < 2 ^ 32)
    (h : DsaPrivateKey.Admits (Bytes.toNat p) (Bytes.toNat q) (Bytes.toNat g) (Bytes.toNat y)
      (Bytes.toNat x)) :
    ∃ k, decode (KeyType.dsaPrivate.tag :: [p, q, g, y, x].flatMap Bytes.field) =
      .ok (.dsaPrivate k) ∧ k.numbers = [p, q, g, y, x].map Bytes.toNat := by
  rcases DsaPrivateKey.exists_ofComponents_eq_ok h with ⟨k, hk, hnumbers⟩
  rw [decode_dsaPrivate_fields hshort, hk]
  exact ⟨k, rfl, hnumbers⟩

theorem decode_dsaPrivate_eq_error {p q g y x : Bytes}
    (hshort : ∀ field ∈ [p, q, g, y, x], field.length < 2 ^ 32)
    (h : ¬DsaPrivateKey.Admits (Bytes.toNat p) (Bytes.toNat q) (Bytes.toNat g) (Bytes.toNat y)
      (Bytes.toNat x)) :
    decode (KeyType.dsaPrivate.tag :: [p, q, g, y, x].flatMap Bytes.field) = .error .badKey := by
  rw [decode_dsaPrivate_fields hshort, DsaPrivateKey.ofComponents_eq_error h]
  rfl

theorem decode_private_keys (bs : Bytes) :
    (∀ k, decode bs = .ok (.rsaPrivate k) →
      k.p * k.q = k.publicKey.modulus ∧
      k.publicKey.exponent * k.exponent ≡ 1 [MOD k.p - 1] ∧
      k.publicKey.exponent * k.exponent ≡ 1 [MOD k.q - 1]) ∧
    (∀ k, decode bs = .ok (.dsaPrivate k) →
      k.publicKey.y ^ k.publicKey.q ≡ 1 [MOD k.publicKey.p] ∧ 0 < k.x ∧ k.x ≤ k.publicKey.q) ∧
    (∀ n e d p q : Bytes, (∀ field ∈ [n, e, d, p, q], field.length < 2 ^ 32) →
      bs = KeyType.rsaPrivate.tag :: [n, e, d, p, q].flatMap Bytes.field →
      let admits := RsaPrivateKey.Admits (Bytes.toNat n) (Bytes.toNat e) (Bytes.toNat d)
        (Bytes.toNat p) (Bytes.toNat q)
      (admits → ∃ k, decode bs = .ok (.rsaPrivate k) ∧
        k.numbers = [n, e, d, p, q].map Bytes.toNat) ∧
      (¬admits → decode bs = .error .badKey)) ∧
    ∀ p q g y x : Bytes, (∀ field ∈ [p, q, g, y, x], field.length < 2 ^ 32) →
      bs = KeyType.dsaPrivate.tag :: [p, q, g, y, x].flatMap Bytes.field →
      let admits := DsaPrivateKey.Admits (Bytes.toNat p) (Bytes.toNat q) (Bytes.toNat g)
        (Bytes.toNat y) (Bytes.toNat x)
      (admits → ∃ k, decode bs = .ok (.dsaPrivate k) ∧
        k.numbers = [p, q, g, y, x].map Bytes.toNat) ∧
      (¬admits → decode bs = .error .badKey) ∧
      ((∀ k, decode bs = .ok (.dsaPrivate k) →
          k.publicKey.y ≡ k.publicKey.g ^ k.x [MOD k.publicKey.p]) ↔
        (admits → Bytes.toNat y ≡ Bytes.toNat g ^ Bytes.toNat x [MOD Bytes.toNat p])) := by
  refine ⟨?_, ?_, ?_, ?_⟩
  . intro k _
    exact ⟨k.admits.factors.2.2, k.admits.inverse_left, k.admits.inverse_right⟩
  . intro k _
    exact ⟨k.admits.public_value.2, k.admits.private_value⟩
  . rintro n e d p q hshort rfl
    exact ⟨exists_decode_rsaPrivate_eq_ok hshort, decode_rsaPrivate_eq_error hshort⟩
  . rintro p q g y x hshort rfl
    refine ⟨exists_decode_dsaPrivate_eq_ok hshort, decode_dsaPrivate_eq_error hshort, ?_⟩
    constructor
    . intro hvalue hadmits
      rcases exists_decode_dsaPrivate_eq_ok hshort hadmits with ⟨k, hk, hnumbers⟩
      exact (k.value_modEq_iff hnumbers).mp (hvalue k hk)
    . intro hvalue k hk
      by_cases hadmits : DsaPrivateKey.Admits (Bytes.toNat p) (Bytes.toNat q) (Bytes.toNat g)
          (Bytes.toNat y) (Bytes.toNat x)
      . rcases exists_decode_dsaPrivate_eq_ok hshort hadmits with ⟨k', hk', hnumbers⟩
        rw [hk'] at hk
        cases hk
        exact (k.value_modEq_iff hnumbers).mpr (hvalue hadmits)
      . rw [decode_dsaPrivate_eq_error hshort hadmits] at hk
        cases hk

theorem decode_private_keys_small :
    (∃ k, decode [3, 0, 0, 0, 1, 15, 0, 0, 0, 1, 3, 0, 0, 0, 1, 3, 0, 0, 0, 1, 3, 0, 0, 0, 1, 5] =
      .ok (.rsaPrivate k) ∧ k.numbers = [15, 3, 3, 3, 5]) ∧
    decode [3, 0, 0, 0, 1, 15, 0, 0, 0, 1, 3, 0, 0, 0, 1, 5, 0, 0, 0, 1, 3, 0, 0, 0, 1, 5] =
      .error .badKey ∧
    (∃ k, decode [5, 0, 0, 0, 1, 23, 0, 0, 0, 1, 11, 0, 0, 0, 1, 2, 0, 0, 0, 1, 4, 0, 0, 0, 1, 2] =
      .ok (.dsaPrivate k) ∧ k.numbers = [23, 11, 2, 4, 2]) ∧
    decode [5, 0, 0, 0, 1, 23, 0, 0, 0, 1, 11, 0, 0, 0, 1, 2, 0, 0, 0, 1, 5, 0, 0, 0, 1, 2] =
      .error .badKey := by
  refine ⟨?_, ?_, ?_, ?_⟩
  . exact ((decode_private_keys _).2.2.1 [15] [3] [3] [3] [5] (by decide) rfl).1
      ⟨by decide, by decide, by decide, by decide, by decide⟩
  . apply ((decode_private_keys _).2.2.1 [15] [3] [5] [3] [5] (by decide) rfl).2
    intro h
    exact absurd h.inverse_right (by decide)
  . exact ((decode_private_keys _).2.2.2 [23] [11] [2] [4] [2] (by decide) rfl).1
      ⟨by decide, by decide, by decide, by decide⟩
  . apply ((decode_private_keys _).2.2.2 [23] [11] [2] [5] [2] (by decide) rfl).2.1
    intro h
    exact absurd h.public_value.2 (by decide)

/-- The key `shortDsa` with a private value that does not belong to its public value. -/
def mismatchedDsa : DsaPrivateKey where
  publicKey := shortDsa.publicKey
  x := 4
  valid := by decide

/-- A private value of another key is accepted, and what it signs does not verify. -/
theorem decode_mismatchedDsa :
    decode [5, 0, 0, 0, 2, 6, 7, 0, 0, 0, 2, 1, 1, 0, 0, 0, 1, 64, 0, 0, 0, 2, 5, 97, 0, 0, 0, 1, 4] =
      .ok (.dsaPrivate mismatchedDsa) ∧
    ¬mismatchedDsa.publicKey.y ≡
      mismatchedDsa.publicKey.g ^ mismatchedDsa.x [MOD mismatchedDsa.publicKey.p] ∧
    ∃ signing verifying t, (dsaPrivate mismatchedDsa).signStream = .ok signing ∧
      (dsaPublic mismatchedDsa.publicKey).verifyStream = .ok verifying ∧
      (signing.update []).sign = .ok t ∧ (verifying.update []).verify t = false := by
  refine ⟨?_, by decide +kernel, _, _, [0, 192, 0, 212], rfl, rfl, by decide +kernel,
    by decide +kernel⟩
  have hkey : DsaPrivateKey.ofComponents [6, 7] [1, 1] [64] [5, 97] [4] = .ok mismatchedDsa := by
    rw [DsaPrivateKey.ofComponents_eq_ok_iff, DsaPublicKey.ofComponents_eq_ok_iff]
    decide +kernel
  have hdecode := @decode_dsaPrivate_fields [6, 7] [1, 1] [64] [5, 97] [4] (by decide)
  rw [hkey] at hdecode
  exact hdecode

end Key

end Keyring
