import Keyring.Number.Lemmas
import Mathlib.FieldTheory.Finite.Basic
/-!
This module contains the laws of powers and inverses modulo a number: what Euclid's algorithm keeps
in every step, when there is an inverse, and which exponents do nothing modulo a prime.
-/

namespace Keyring.Number

theorem euclid_fst (r₀ r₁ : Nat) (t₀ t₁ : Int) : (euclid r₀ r₁ t₀ t₁).1 = Nat.gcd r₀ r₁ := by
  fun_induction euclid r₀ r₁ t₀ t₁ with
  | case1 r₀ t₀ t₁ => rw [Nat.gcd_zero_right]
  | case2 r₀ r₁ t₀ t₁ hr₁ ih =>
    rw [ih, Nat.gcd_comm r₁, ← Nat.gcd_rec, Nat.gcd_comm]

/-- Every remainder is the multiple of `a` that is kept with it. -/
theorem euclid_modEq {r₀ r₁ : Nat} {t₀ t₁ a m : Int} (h₀ : (r₀ : Int) ≡ t₀ * a [ZMOD m])
    (h₁ : (r₁ : Int) ≡ t₁ * a [ZMOD m]) :
    ((euclid r₀ r₁ t₀ t₁).1 : Int) ≡ (euclid r₀ r₁ t₀ t₁).2 * a [ZMOD m] := by
  fun_induction euclid r₀ r₁ t₀ t₁ with
  | case1 r₀ t₀ t₁ => exact h₀
  | case2 r₀ r₁ t₀ t₁ hr₁ ih =>
    apply ih h₁
    have hmod : ((r₀ % r₁ : Nat) : Int) = r₀ - (r₀ / r₁ : Nat) * r₁ := by
      rw [Int.natCast_mod, Int.natCast_ediv, Int.emod_def, mul_comm]
    rw [hmod, sub_mul, mul_assoc]
    exact h₀.sub (h₁.mul_left _)

theorem exists_inverseMod? {a m : Nat} (h : a.Coprime m) : ∃ i, inverseMod? a m = some i := by
  have hgcd : (euclid m (a % m) 0 1).1 = 1 := by
    rw [euclid_fst, Nat.gcd_comm, ← Nat.gcd_rec, Nat.gcd_comm]
    exact h
  unfold inverseMod?
  dsimp only
  rw [if_pos hgcd]
  exact ⟨_, rfl⟩

theorem modEq_of_inverseMod?_eq_some {a m i : Nat} (hm : 0 < m) (h : inverseMod? a m = some i) :
    a * i ≡ 1 [MOD m] := by
  unfold inverseMod? at h
  dsimp only at h
  split at h
  . next hgcd =>
    rw [Option.some.injEq] at h
    have hm₀ : (m : Int) ≡ 0 * a [ZMOD m] := by
      rw [zero_mul]
      exact Int.modEq_zero_iff_dvd.mpr dvd_rfl
    have ha : ((a % m : Nat) : Int) ≡ 1 * a [ZMOD m] := by
      rw [one_mul, Int.natCast_mod]
      exact Int.mod_modEq _ _
    have hmod := euclid_modEq hm₀ ha
    have hi : (i : Int) ≡ (euclid m (a % m) 0 1).2 [ZMOD m] := by
      rw [← h, Int.toNat_of_nonneg (Int.emod_nonneg _ (by omega))]
      exact Int.mod_modEq _ _
    rw [hgcd] at hmod
    rw [← Int.natCast_modEq_iff, Nat.cast_mul, mul_comm]
    exact (hi.mul_right _).trans hmod.symm
  . simp at h

/-- Multiplying by an inverse undoes a multiplication. -/
theorem mul_inverse_mul_modEq {a i q : Nat} (h : a * i ≡ 1 [MOD q]) (m : Nat) :
    a * (i * m % q) ≡ m [MOD q] := by
  calc a * (i * m % q) ≡ a * (i * m) [MOD q] := (Nat.mod_modEq _ _).mul_left a
    _ = a * i * m := (mul_assoc _ _ _).symm
    _ ≡ 1 * m [MOD q] := h.mul_right m
    _ = m := one_mul m

/-- Where a power of `b` leaves 1, only the remainder of an exponent counts. -/
theorem pow_modEq_pow_mod {b q p : Nat} (h : b ^ q ≡ 1 [MOD p]) (e : Nat) :
    b ^ e ≡ b ^ (e % q) [MOD p] := by
  calc b ^ e = (b ^ q) ^ (e / q) * b ^ (e % q) := by
        rw [← pow_mul, ← pow_add, Nat.div_add_mod]
    _ ≡ 1 ^ (e / q) * b ^ (e % q) [MOD p] := (h.pow _).mul_right _
    _ = b ^ (e % q) := by rw [one_pow, one_mul]

theorem pow_modEq_pow {b q p e e' : Nat} (h : b ^ q ≡ 1 [MOD p]) (he : e ≡ e' [MOD q]) :
    b ^ e ≡ b ^ e' [MOD p] := by
  calc b ^ e ≡ b ^ (e % q) [MOD p] := pow_modEq_pow_mod h e
    _ = b ^ (e' % q) := congrArg (b ^ ·) he
    _ ≡ b ^ e' [MOD p] := (pow_modEq_pow_mod h e').symm

/-- An exponent that leaves 1 modulo `p - 1` does nothing modulo a prime `p`, not even to multiples
of it. -/
theorem pow_modEq_self {p : Nat} (hp : p.Prime) {e : Nat} (he : e % (p - 1) = 1) (m : Nat) :
    m ^ e ≡ m [MOD p] := by
  by_cases hdvd : p ∣ m
  . have hpos : e ≠ 0 := by
      rintro rfl
      simp at he
    have hzero : m ≡ 0 [MOD p] := Nat.modEq_zero_iff_dvd.mpr hdvd
    have hpow := hzero.pow e
    rw [zero_pow hpos] at hpow
    exact hpow.trans hzero.symm
  . have hcoprime : m.Coprime p := ((hp.coprime_iff_not_dvd).mpr hdvd).symm
    have hpow := pow_modEq_pow_mod (Nat.ModEq.pow_card_sub_one_eq_one hp hcoprime) e
    rw [he, pow_one] at hpow
    exact hpow

/-- The exponents of a private and a public operation cancel modulo a prime. -/
theorem pow_pow_modEq_self {p : Nat} (hp : p.Prime) {d e : Nat} (h : d * e % (p - 1) = 1) (m : Nat) :
    m ^ (d % (p - 1) * e) ≡ m [MOD p] := by
  apply pow_modEq_self hp
  rw [Nat.mod_mul_mod, h]

end Keyring.Number
