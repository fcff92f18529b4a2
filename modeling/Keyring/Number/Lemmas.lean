import Keyring.Number.Modular
import Mathlib.Algebra.Group.Nat.Defs
/-!
This module contains what powers modulo a number are: remainders of powers.
-/

namespace Keyring.Number

theorem powMod_eq (b e m : Nat) : powMod b e m = b ^ e % m := by
  fun_induction powMod b e m with
  | case1 => simp
  | case2 b e he h hpar ih =>
    have he' : e = 2 * (e / 2) := by omega
    have hh : h = _ := ih
    rw [hh, ← Nat.pow_mod, ← Nat.pow_two, ← Nat.pow_mul, ← he']
  | case3 b e he h hpar ih =>
    have he' : e = 2 * (e / 2) + 1 := by omega
    have hh : h = _ := ih
    rw [hh, ← Nat.pow_mod, ← Nat.pow_two, ← Nat.pow_mul]
    conv => rhs; rw [he', Nat.pow_succ, Nat.mul_comm]
    simp

end Keyring.Number
