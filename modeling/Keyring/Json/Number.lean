import Keyring.Decimal.Shortest
/-!
This module contains the numbers of JSON. Whole numbers that fit 64 bits are exact. All others are
floating point, and only their text is kept, since nothing that is read here may be one.
-/

namespace Keyring.Json

inductive Number where
  /-- A number below `2 ^ 64`. -/
  | natural (n : Nat)
  /-- The number `-n`, where `n` is positive and at most `2 ^ 63`. -/
  | negative (n : Nat)
  | real (text : String)
deriving DecidableEq

structure Numeral where
  isNegative : Bool
  whole : List Nat
  fraction : Option (List Nat)
  /-- Whether the exponent is negative, and its digits. -/
  exponent : Option (Bool × List Nat)
deriving DecidableEq

namespace Numeral

/-- Appends digits to a number below `2 ^ 64` as long as the result is below it too. Returns how many
digits were appended. -/
def append (n : Nat) : List Nat → Nat × Nat
  | [] => (n, 0)
  | d :: digits =>
    if n * 10 + d < UInt64.size then
      let (n, count) := append (n * 10 + d) digits
      (n, count + 1)
    else
      (n, 0)

/-- The floating point number `n` times ten to the power `e`, unless it is too large. -/
def float? (n : Nat) (e : Int) : Option Float :=
  let f := (UInt64.ofNat n).toFloat
  if 0 ≤ e ∧ e ≤ 308 then
    let f := f * Float.ofScientific 1 false e.toNat
    if f.isInf then none else some f
  else if 0 ≤ e then
    if n = 0 then some 0 else none
  else if -308 ≤ e then
    some (f / Float.ofScientific 1 false (-e).toNat)
  else if -616 ≤ e then
    some (f / 1e308 / Float.ofScientific 1 false (-e - 308).toNat)
  else
    some 0

/-- The value of an exponent's digits, where one beyond 31 bits is as good as any other. -/
def exponentValue (digits : List Nat) : Nat :=
  min (digits.foldl (fun e d => e * 10 + d) 0) 0x80000000

def real? (isNegative : Bool) (n : Nat) (e : Int) : Option Number := do
  let f ← float? n e
  return .real (Decimal.shortestText (if isNegative then -f else f))

/-- The value of a number, unless it is too large to be one. -/
def value? (numeral : Numeral) : Option Number :=
  let (n, count) := append 0 numeral.whole
  let e : Int := numeral.whole.length - count
  match numeral.fraction, numeral.exponent with
  | none, none =>
    if count < numeral.whole.length then real? numeral.isNegative n e
    else if !numeral.isNegative then some (.natural n)
    else if 0 < n ∧ n ≤ 0x8000000000000000 then some (.negative n)
    else real? true n 0
  | fraction, exponent =>
    let (n, count) := append n (fraction.getD [])
    let e := e - count
    let e := match exponent with
      | none => e
      | some (true, digits) => e - exponentValue digits
      | some (false, digits) => e + exponentValue digits
    real? numeral.isNegative n e

end Numeral

end Keyring.Json
