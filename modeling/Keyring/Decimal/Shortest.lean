/-!
This module contains the shortest decimal text of binary floating point numbers: the fewest digits
that read back as the same number and, of those, the nearest.
-/

namespace Keyring.Decimal

/-- Digits without zeros at their end, and where the point lies: the number is `0.d₁d₂…` times ten to
the power `point`. -/
structure Digits where
  digits : List Char
  point : Int

/-- A positive finite number as a quotient of natural numbers. -/
def quotient (f : Float) : Nat × Nat :=
  let bits := f.toBits.toNat
  let biased := (bits >>> 52) % 2048
  let fraction := bits % (1 <<< 52)
  let m := if biased = 0 then fraction else fraction + (1 <<< 52)
  let e : Int := (max 1 biased : Nat) - 1075
  if e ≥ 0 then (m <<< e.toNat, 1) else (m, 1 <<< (-e).toNat)

/-- The exponent of the first digit of a quotient. -/
def leadingExponent (num den : Nat) : Int :=
  if num ≥ den then
    ((Nat.toDigits 10 (num / den)).length : Int) - 1
  else
    match (List.range 400).find? fun k => num * Nat.pow 10 k ≥ den with
    | some k => -(k : Int)
    | none => -400

/-- The number `n` times ten to the power `-scale`, rounded to the nearest floating point number. -/
def scaled (n : Nat) (scale : Int) : Float :=
  if scale ≥ 0 then Float.ofScientific n true scale.toNat
  else Float.ofScientific n false (-scale).toNat

/-- A number with `count` digits that reads back as `f`, if there is one, and its scale. -/
def withDigits? (f : Float) (count : Nat) : Option (Nat × Int) :=
  let (num, den) := quotient f
  let scale := (count : Int) - 1 - leadingExponent num den
  let (num, den) := if scale ≥ 0 then (num * Nat.pow 10 scale.toNat, den)
    else (num, den * Nat.pow 10 (-scale).toNat)
  let below := num / den
  let candidates := if 2 * (num % den) > den then [below + 1, below] else [below, below + 1]
  (candidates.find? fun n => scaled n scale == f).map (·, scale)

def shortest (f : Float) : Digits :=
  match ((List.range 17).filterMap fun i => withDigits? f (i + 1)).head? with
  | some (n, scale) =>
    let digits := Nat.toDigits 10 n
    ⟨(digits.reverse.dropWhile (· == '0')).reverse, (digits.length : Int) - scale⟩
  | none => ⟨['0'], 1⟩

/-- Digits in positional notation if the point lies between 5 places before the first digit and 16
behind it, and with an exponent otherwise. -/
def Digits.text (d : Digits) : String :=
  let count : Int := d.digits.length
  let chars :=
    if count ≤ d.point ∧ d.point ≤ 16 then
      d.digits ++ List.replicate (d.point - count).toNat '0' ++ ['.', '0']
    else if 0 < d.point ∧ d.point ≤ 16 then
      d.digits.take d.point.toNat ++ '.' :: d.digits.drop d.point.toNat
    else if -5 < d.point ∧ d.point ≤ 0 then
      '0' :: '.' :: List.replicate (-d.point).toNat '0' ++ d.digits
    else
      let fraction := if d.digits.length ≤ 1 then [] else '.' :: d.digits.drop 1
      d.digits.take 1 ++ fraction ++ 'e' :: (toString (d.point - 1)).toList
  String.ofList chars

/-- The shortest text of a finite number. It always shows a point or an exponent. -/
def shortestText (f : Float) : String :=
  let sign := if f.toBits.toNat >>> 63 = 1 then "-" else ""
  if f == 0 then sign ++ "0.0" else sign ++ (shortest f.abs).text

end Keyring.Decimal
