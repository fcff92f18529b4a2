import Keyring.Proofs.Number.Modular
import Keyring.Rsa.Key
/-!
This module contains the proof that the two operations of an RSA key undo each other on all numbers
below its modulus, if its factors are prime. The private operation works modulo each factor, so
both directions are shown there and then put together.
-/

namespace Keyring

theorem RsaPublicKey.modulus_ne_zero (k : RsaPublicKey) : k.modulus ≠ 0 := by
  have hvalid := k.valid
  omega

theorem RsaPublicKey.power_lt (k : RsaPublicKey) (m : Nat) : k.power m < k.modulus := by
  unfold power
  rw [Number.powMod_eq]
  exact Nat.mod_lt _ (Nat.pos_of_ne_zero k.modulus_ne_zero)

namespace RsaPrivateKey

/-- The factors of the modulus are two primes, as in all keys that are generated. -/
structure HasPrimeFactors (k : RsaPrivateKey) : Prop where
  prime_p : k.p.Prime
  prime_q : k.q.Prime
  ne : k.p ≠ k.q

variable {k : RsaPrivateKey} {p q qInverse m₁ m₂ c m : Nat}

theorem combine_modEq_right : combine p q qInverse m₁ m₂ ≡ m₂ [MOD q] := by
  unfold combine
  exact Nat.mul_add_mod_self_right _ _ _

theorem combine_modEq_left (hp : 0 < p) (hinverse : q * qInverse ≡ 1 [MOD p]) :
    combine p q qInverse m₁ m₂ ≡ m₁ [MOD p] := by
  have hle : m₂ % p ≤ p := (Nat.mod_lt _ hp).le
  unfold combine
  calc (m₁ + (p - m₂ % p)) * qInverse % p * q + m₂
      ≡ (m₁ + (p - m₂ % p)) * qInverse * q + m₂ [MOD p] :=
        ((Nat.mod_modEq _ _).mul_right q).add_right m₂
    _ = (m₁ + (p - m₂ % p)) * (q * qInverse) + m₂ := by ring
    _ ≡ (m₁ + (p - m₂ % p)) * 1 + m₂ % p [MOD p] :=
        (hinverse.mul_left _).add (Nat.mod_modEq _ _).symm
    _ = m₁ + p := by omega
    _ ≡ m₁ [MOD p] := Nat.add_mod_right m₁ p

theorem combine_lt (hp : 0 < p) (hm₂ : m₂ < q) : combine p q qInverse m₁ m₂ < p * q := by
  have hlt := Nat.mod_lt ((m₁ + (p - m₂ % p)) * qInverse) hp
  have hle := Nat.mul_le_mul_right q (Nat.succ_le_of_lt hlt)
  rw [Nat.succ_mul] at hle
  unfold combine
  omega

theorem rawPower_lt (k : RsaPrivateKey) (c : Nat) : k.rawPower c < k.publicKey.modulus := by
  rcases k.valid with ⟨hp, hq, hmodulus, _⟩
  unfold rawPower
  split
  . rw [← hmodulus, Number.powMod_eq, Number.powMod_eq]
    exact combine_lt (by omega) (Nat.mod_lt _ (by omega))
  . rw [Number.powMod_eq]
    exact Nat.mod_lt _ (Nat.pos_of_ne_zero k.publicKey.modulus_ne_zero)

namespace HasPrimeFactors

theorem modEq_iff (h : k.HasPrimeFactors) {a b : Nat} :
    a ≡ b [MOD k.publicKey.modulus] ↔ a ≡ b [MOD k.p] ∧ a ≡ b [MOD k.q] := by
  have hcoprime := (Nat.coprime_primes h.prime_p h.prime_q).mpr h.ne
  rw [← k.valid.2.2.1, Nat.modEq_and_modEq_iff_modEq_mul hcoprime]

theorem eq_of_modEq (h : k.HasPrimeFactors) {a b : Nat} (ha : a < k.publicKey.modulus)
    (hb : b < k.publicKey.modulus) (hleft : a ≡ b [MOD k.p]) (hright : a ≡ b [MOD k.q]) :
    a = b := by
  exact (h.modEq_iff.mpr ⟨hleft, hright⟩).eq_of_lt_of_lt ha hb

/-- The private operation in the form that it takes for coprime factors. -/
theorem exists_rawPower_eq (h : k.HasPrimeFactors) :
    ∃ qInverse, k.q * qInverse ≡ 1 [MOD k.p] ∧ ∀ c, k.rawPower c =
      combine k.p k.q qInverse (c ^ (k.exponent % (k.p - 1)) % k.p)
        (c ^ (k.exponent % (k.q - 1)) % k.q) := by
  have hcoprime := (Nat.coprime_primes h.prime_q h.prime_p).mpr h.ne.symm
  rcases Number.exists_inverseMod? hcoprime with ⟨qInverse, hinverse⟩
  refine ⟨qInverse, Number.modEq_of_inverseMod?_eq_some h.prime_p.pos hinverse, ?_⟩
  intro c
  unfold rawPower
  rw [hinverse]
  dsimp only
  rw [Number.powMod_eq, Number.powMod_eq]

theorem rawPower_modEq_left (h : k.HasPrimeFactors) (c : Nat) :
    k.rawPower c ≡ c ^ (k.exponent % (k.p - 1)) [MOD k.p] := by
  rcases h.exists_rawPower_eq with ⟨qInverse, hinverse, heq⟩
  rw [heq]
  exact (combine_modEq_left h.prime_p.pos hinverse).trans (Nat.mod_modEq _ _)

theorem rawPower_modEq_right (h : k.HasPrimeFactors) (c : Nat) :
    k.rawPower c ≡ c ^ (k.exponent % (k.q - 1)) [MOD k.q] := by
  rcases h.exists_rawPower_eq with ⟨qInverse, _, heq⟩
  rw [heq]
  exact combine_modEq_right.trans (Nat.mod_modEq _ _)

theorem power_modEq (m : Nat) :
    k.publicKey.power m ≡ m ^ k.publicKey.exponent [MOD k.publicKey.modulus] := by
  unfold RsaPublicKey.power
  rw [Number.powMod_eq]
  exact Nat.mod_modEq _ _

theorem rawPower_power (h : k.HasPrimeFactors) (hm : m < k.publicKey.modulus) :
    k.rawPower (k.publicKey.power m) = m := by
  have hpower := h.modEq_iff.mp (power_modEq m)
  rcases k.valid with ⟨_, _, _, hleft, hright⟩
  apply h.eq_of_modEq (k.rawPower_lt _) hm
  . apply (h.rawPower_modEq_left _).trans
    apply (hpower.1.pow _).trans
    rw [← pow_mul, mul_comm]
    exact Number.pow_pow_modEq_self h.prime_p hleft m
  . apply (h.rawPower_modEq_right _).trans
    apply (hpower.2.pow _).trans
    rw [← pow_mul, mul_comm]
    exact Number.pow_pow_modEq_self h.prime_q hright m

theorem power_rawPower (h : k.HasPrimeFactors) (hc : c < k.publicKey.modulus) :
    k.publicKey.power (k.rawPower c) = c := by
  have hpower := h.modEq_iff.mp (power_modEq (k.rawPower c))
  rcases k.valid with ⟨_, _, _, hleft, hright⟩
  apply h.eq_of_modEq (k.publicKey.power_lt _) hc
  . apply hpower.1.trans
    apply ((h.rawPower_modEq_left c).pow _).trans
    rw [← pow_mul]
    exact Number.pow_pow_modEq_self h.prime_p hleft c
  . apply hpower.2.trans
    apply ((h.rawPower_modEq_right c).pow _).trans
    rw [← pow_mul]
    exact Number.pow_pow_modEq_self h.prime_q hright c

theorem power?_eq_some (h : k.HasPrimeFactors) (hc : c < k.publicKey.modulus) :
    k.power? c = some (k.rawPower c) := by
  unfold power?
  dsimp only
  rw [if_pos (h.power_rawPower hc)]

theorem power?_power (h : k.HasPrimeFactors) (hm : m < k.publicKey.modulus) :
    k.power? (k.publicKey.power m) = some m := by
  rw [h.power?_eq_some (k.publicKey.power_lt m), h.rawPower_power hm]

end HasPrimeFactors

end RsaPrivateKey

end Keyring
