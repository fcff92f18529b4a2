import Keyring.Json.Number
import Keyring.Text.Hex
/-!
This module contains the tokens of JSON texts. A text always has tokens: where it is no JSON the last
of them says so. Texts that cannot be characters and numbers that are too large are tokens without a
value, because it is no fault to have them where nobody reads them.
-/

namespace Keyring.Json

inductive Token where
  | openBrace
  | closeBrace
  | openBracket
  | closeBracket
  | comma
  | colon
  | null
  | boolean (b : Bool)
  | number (n : Option Number)
  | text (s : Option String)
  | malformed
deriving DecidableEq

namespace Token

def isBlank (c : Char) : Bool :=
  c = ' ' || c = '\n' || c = '\t' || c = '\r'

/-- The character that a short escape stands for. -/
def escaped? : Char → Option Char
  | '"' => some '"'
  | '\\' => some '\\'
  | '/' => some '/'
  | 'b' => some '\x08'
  | 'f' => some '\x0c'
  | 'n' => some '\n'
  | 'r' => some '\r'
  | 't' => some '\t'
  | _ => none

/-- The number that four hexadecimal digits spell. -/
def unit? (a b c d : Char) : Option Nat := do
  let a ← Text.Hex.digit? a
  let b ← Text.Hex.digit? b
  let c ← Text.Hex.digit? c
  let d ← Text.Hex.digit? d
  return ((a * 16 + b) * 16 + c) * 16 + d

/-- Splits a quoted text off the front, behind its first quote. A text is read as the numbers of its
characters, newest first, where escapes may have given halves of a pair. -/
def scanText : List Char → List Nat → Option (List Nat × List Char)
  | '"' :: rest, units => some (units, rest)
  | '\\' :: 'u' :: a :: b :: c :: d :: rest, units =>
    match unit? a b c d with
    | some unit => scanText rest (unit :: units)
    | none => none
  | '\\' :: c :: rest, units =>
    match escaped? c with
    | some c => scanText rest (c.toNat :: units)
    | none => none
  | '\\' :: [], _ => none
  | c :: rest, units => if c < ' ' then none else scanText rest (c.toNat :: units)
  | [], _ => none

def isHighHalf (unit : Nat) : Bool :=
  0xd800 ≤ unit && unit ≤ 0xdbff

def isLowHalf (unit : Nat) : Bool :=
  0xdc00 ≤ unit && unit ≤ 0xdfff

/-- Joins the halves of pairs, from the last unit to the first. Without its other half a half is no
character. -/
def joinPairs? : List Nat → List Char → Option (List Char)
  | [], chars => some chars
  | unit :: units, chars =>
    if isLowHalf unit then
      match units with
      | high :: units =>
        if isHighHalf high then
          joinPairs? units
            (Char.ofNat (0x10000 + (high - 0xd800) * 0x400 + (unit - 0xdc00)) :: chars)
        else
          none
      | [] => none
    else if isHighHalf unit then
      none
    else
      joinPairs? units (Char.ofNat unit :: chars)

def decimal? (c : Char) : Option Nat :=
  if '0' ≤ c ∧ c ≤ '9' then some (c.toNat - '0'.toNat) else none

def scanDigits : List Char → List Nat × List Char
  | [] => ([], [])
  | c :: rest =>
    match decimal? c with
    | some d =>
      let (digits, rest) := scanDigits rest
      (d :: digits, rest)
    | none => ([], c :: rest)

/-- Splits the digits of a whole number off the front. Only zero itself starts with a zero. -/
def scanWhole (cs : List Char) : Option (List Nat × List Char) :=
  match scanDigits cs with
  | ([], _) => none
  | (0 :: _ :: _, _) => none
  | split => some split

def scanFraction : List Char → Option (Option (List Nat) × List Char)
  | '.' :: cs =>
    match scanDigits cs with
    | ([], _) => none
    | (digits, rest) => some (some digits, rest)
  | cs => some (none, cs)

def scanSign : List Char → Bool × List Char
  | '-' :: cs => (true, cs)
  | '+' :: cs => (false, cs)
  | cs => (false, cs)

def scanExponent : List Char → Option (Option (Bool × List Nat) × List Char)
  | 'e' :: cs | 'E' :: cs =>
    let (isNegative, cs) := scanSign cs
    match scanDigits cs with
    | ([], _) => none
    | (digits, rest) => some (some (isNegative, digits), rest)
  | cs => some (none, cs)

def scanNumeral (isNegative : Bool) (cs : List Char) : Option (Numeral × List Char) := do
  let (whole, cs) ← scanWhole cs
  let (fraction, cs) ← scanFraction cs
  let (exponent, cs) ← scanExponent cs
  return (⟨isNegative, whole, fraction, exponent⟩, cs)

/-- Splits a token off the front of what is left of a text behind blanks. -/
def scan : List Char → Option (Token × List Char)
  | '{' :: cs => some (.openBrace, cs)
  | '}' :: cs => some (.closeBrace, cs)
  | '[' :: cs => some (.openBracket, cs)
  | ']' :: cs => some (.closeBracket, cs)
  | ',' :: cs => some (.comma, cs)
  | ':' :: cs => some (.colon, cs)
  | 'n' :: 'u' :: 'l' :: 'l' :: cs => some (.null, cs)
  | 't' :: 'r' :: 'u' :: 'e' :: cs => some (.boolean true, cs)
  | 'f' :: 'a' :: 'l' :: 's' :: 'e' :: cs => some (.boolean false, cs)
  | '"' :: cs =>
    (scanText cs []).map fun (units, cs) => (.text ((joinPairs? units []).map String.ofList), cs)
  | '-' :: cs => (scanNumeral true cs).map fun (numeral, cs) => (.number numeral.value?, cs)
  | cs => (scanNumeral false cs).map fun (numeral, cs) => (.number numeral.value?, cs)

theorem length_of_scanText {cs rest : List Char} {units all : List Nat}
    (h : scanText cs units = some (all, rest)) : rest.length < cs.length := by
  fun_induction scanText cs units <;> simp_all <;> omega

theorem length_scanDigits (cs : List Char) :
    (scanDigits cs).1.length + (scanDigits cs).2.length = cs.length := by
  fun_induction scanDigits cs <;> simp_all
  omega

theorem length_of_scanWhole {cs rest : List Char} {digits : List Nat}
    (h : scanWhole cs = some (digits, rest)) : rest.length < cs.length := by
  have := length_scanDigits cs
  unfold scanWhole at h
  split at h <;> simp_all
  cases digits with
  | nil => simp_all
  | cons d digits =>
    simp only [List.length_cons] at this
    omega

theorem length_of_scanFraction {cs rest : List Char} {digits : Option (List Nat)}
    (h : scanFraction cs = some (digits, rest)) : rest.length ≤ cs.length := by
  unfold scanFraction at h
  split at h
  · next cs =>
    have := length_scanDigits cs
    split at h <;> simp_all
    omega
  · simp_all

theorem length_scanSign (cs : List Char) : (scanSign cs).2.length ≤ cs.length := by
  unfold scanSign
  split <;> simp

theorem length_of_scanExponent {cs rest : List Char} {exponent : Option (Bool × List Nat)}
    (h : scanExponent cs = some (exponent, rest)) : rest.length ≤ cs.length := by
  unfold scanExponent at h
  split at h
  case h_3 => simp_all
  all_goals
    next cs =>
      have := length_scanSign cs
      have := length_scanDigits (scanSign cs).2
      dsimp only at h
      split at h <;> simp_all
      omega

theorem length_of_scanNumeral {isNegative : Bool} {cs rest : List Char} {numeral : Numeral}
    (h : scanNumeral isNegative cs = some (numeral, rest)) : rest.length < cs.length := by
  simp only [scanNumeral, Option.bind_eq_bind, Option.bind_eq_some_iff] at h
  obtain ⟨⟨_, cs₁⟩, h₁, ⟨_, cs₂⟩, h₂, ⟨_, cs₃⟩, h₃, h₄⟩ := h
  obtain ⟨_, rfl⟩ : _ ∧ cs₃ = rest := by simpa using h₄
  have := length_of_scanWhole h₁
  have := length_of_scanFraction h₂
  have := length_of_scanExponent h₃
  simp_all only
  omega

theorem length_of_scan {cs rest : List Char} {t : Token} (h : scan cs = some (t, rest)) :
    rest.length < cs.length := by
  unfold scan at h
  split at h
  case h_10 =>
    obtain ⟨⟨_, rest'⟩, h₁, h₂⟩ := Option.map_eq_some_iff.mp h
    obtain ⟨_, rfl⟩ : _ ∧ rest' = rest := by simpa using h₂
    exact Nat.lt_succ_of_lt (length_of_scanText h₁)
  case h_11 =>
    obtain ⟨⟨_, rest'⟩, h₁, h₂⟩ := Option.map_eq_some_iff.mp h
    obtain ⟨_, rfl⟩ : _ ∧ rest' = rest := by simpa using h₂
    exact Nat.lt_succ_of_lt (length_of_scanNumeral h₁)
  case h_12 =>
    obtain ⟨⟨_, rest'⟩, h₁, h₂⟩ := Option.map_eq_some_iff.mp h
    obtain ⟨_, rfl⟩ : _ ∧ rest' = rest := by simpa using h₂
    exact length_of_scanNumeral h₁
  all_goals
    simp only [Option.some.injEq, Prod.mk.injEq] at h
    simp only [← h.2, List.length_cons]
    omega

def all (cs : List Char) : List Token :=
  match cs with
  | [] => []
  | c :: cs =>
    if isBlank c then
      all cs
    else
      match _ : scan (c :: cs) with
      | some (t, rest) => t :: all rest
      | none => [.malformed]
termination_by cs.length
decreasing_by
  · simp
  · exact length_of_scan (by assumption)

end Token

end Keyring.Json
