import Keyring.Digest.Hmac
import Keyring.Number.Modular
/-!
This module contains the nonces of DSA signatures, which a keyed digest derives from the private
value and the message, so that signing needs no randomness.
-/

namespace Keyring.Dsa

open Digest

/-- A generator of bytes, each of which depends on all the material that it was started with. -/
structure NonceGenerator where
  key : Bytes
  value : Bytes

namespace NonceGenerator

/-- Mixes material into both parts of the state. -/
def mix (g : NonceGenerator) (material : Bytes) : NonceGenerator :=
  let key := Hmac.mac g.key (g.value ++ material)
  ⟨key, Hmac.mac key g.value⟩

def start (material : Bytes) : NonceGenerator :=
  let g : NonceGenerator := ⟨List.replicate 20 0, List.replicate 20 1⟩
  (g.mix (0 :: material)).mix (1 :: material)

/-- The values that follow, `n` of them, and the last one. -/
def values (key : Bytes) : Nat → Bytes → Bytes × Bytes
  | 0, value => ([], value)
  | n + 1, value =>
    let value := Hmac.mac key value
    let (rest, last) := values key n value
    (value ++ rest, last)

def bytes (g : NonceGenerator) (n : Nat) : Bytes × NonceGenerator :=
  let (bs, value) := values g.key ((n + 19) / 20) g.value
  (bs.take n, (⟨g.key, value⟩ : NonceGenerator).mix [0])

/-- The first of at most `attempts` numbers of `width` bytes that is positive, below `q` and
invertible modulo `q`, with its inverse. -/
def nonce? (q width : Nat) : Nat → NonceGenerator → Option (Nat × Nat)
  | 0, _ => none
  | attempts + 1, g =>
    let (bs, g) := g.bytes width
    let k := Bytes.toNat bs
    match Number.inverseMod? k q with
    | some inverse => if 0 < k ∧ k < q then some (k, inverse) else nonce? q width attempts g
    | none => nonce? q width attempts g

end NonceGenerator

end Keyring.Dsa
