import Keyring.Number.Modular
/-!
This module contains the test and the search for probable primes.
-/

namespace Keyring.Number

/-- The odd primes below 400, by which candidates are divided first. -/
def smallPrimes : List Nat := [
  3, 5, 7, 11, 13, 17, 19, 23, 29, 31, 37, 41, 43, 47, 53, 59, 61, 67, 71, 73, 79, 83, 89, 97, 101,
  103, 107, 109, 113, 127, 131, 137, 139, 149, 151, 157, 163, 167, 173, 179, 181, 191, 193, 197,
  199, 211, 223, 227, 229, 233, 239, 241, 251, 257, 263, 269, 271, 277, 281, 283, 293, 307, 311,
  313, 317, 331, 337, 347, 349, 353, 359, 367, 373, 379, 383, 389, 397]

def witnesses : List Nat :=
  [2, 3, 5, 7, 11, 13, 17, 19, 23, 29, 31, 37, 41, 43, 47, 53]

/-- Splits the factors of two off a number, at most `limit` of them. -/
def splitTwos : Nat → Nat → Nat × Nat
  | 0, n => (0, n)
  | limit + 1, n =>
    if n % 2 = 0 then
      let (s, d) := splitTwos limit (n / 2)
      (s + 1, d)
    else
      (0, n)

/-- Whether squaring `x` fewer than `s` times leads to `n - 1`. -/
def reachesMinusOne (n : Nat) : Nat → Nat → Bool
  | 0, _ => false
  | s + 1, x => x = n - 1 || reachesMinusOne n s (x * x % n)

/-- Whether an odd number above all bases passes the test of Miller and Rabin. -/
def passesTest (n : Nat) : Bool :=
  let (s, d) := splitTwos n.log2 (n - 1)
  witnesses.all fun a =>
    let x := powMod a d n
    x = 1 || reachesMinusOne n s x

/-- Whether a number above 400 is probably prime. -/
def isProbablePrime (n : Nat) : Bool :=
  n % 2 = 1 && smallPrimes.all (fun p => n % p ≠ 0) && passesTest n

/-- The first of `n`, `n + step` and so on, at most `attempts` numbers, that satisfies a test. -/
def search? (test : Nat → Bool) (step : Nat) : Nat → Nat → Option Nat
  | 0, _ => none
  | attempts + 1, n => if test n then some n else search? test step attempts (n + step)

end Keyring.Number
