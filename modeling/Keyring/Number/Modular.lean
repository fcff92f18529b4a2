/-!
This module contains powers and inverses modulo a number.
-/

namespace Keyring.Number

/-- `b ^ e % m`, by squaring. -/
def powMod (b e m : Nat) : Nat :=
  if e = 0 then
    1 % m
  else
    let h := powMod (b * b % m) (e / 2) m
    if e % 2 = 0 then h else b * h % m
termination_by e
decreasing_by omega

/-- Runs Euclid's algorithm on `r₀` and `r₁`, where each `tᵢ` is the multiple of the starting
argument that leaves the remainder `rᵢ`. Returns the greatest common divisor and its multiple. -/
def euclid (r₀ r₁ : Nat) (t₀ t₁ : Int) : Nat × Int :=
  if r₁ = 0 then
    (r₀, t₀)
  else
    euclid r₁ (r₀ % r₁) t₁ (t₀ - (r₀ / r₁ : Nat) * t₁)
termination_by r₁
decreasing_by exact Nat.mod_lt _ (by omega)

/-- The number below `m` whose product with `a` leaves 1 modulo `m`, if there is one. -/
def inverseMod? (a m : Nat) : Option Nat :=
  let (g, t) := euclid m (a % m) 0 1
  if g = 1 then some (t % m).toNat else none

end Keyring.Number
