import Keyring.Json.Value
import Mathlib.Data.List.Basic
/-!
This module contains how numbers are written. Whatever whole digits, fraction and exponent a number
is written with, it is scanned up to where it ends, and the digits of an exact number spell it.
-/

namespace Keyring.Json

/-- Numbers that are read back as they are written. -/
def Number.IsExact : Number → Prop
  | .natural n => n < UInt64.size
  | .negative n => 0 < n ∧ n ≤ 0x8000000000000000
  | .real _ => False

namespace Token

def digitValue (c : Char) : Nat :=
  c.toNat - '0'.toNat

theorem isDigit_iff {c : Char} : c.isDigit ↔ '0' ≤ c ∧ c ≤ '9' := by
  rw [Char.isDigit, Bool.and_eq_true, decide_eq_true_eq, decide_eq_true_eq]
  rfl

theorem decimal?_eq_some {c : Char} (h : c.isDigit) : decimal? c = some (digitValue c) := by
  rw [decimal?, if_pos (isDigit_iff.mp h)]
  rfl

theorem eq_zero_of_digitValue_eq_zero {c : Char} (h : c.isDigit) (hzero : digitValue c = 0) :
    c = '0' := by
  have hle : '0'.toNat ≤ c.toNat := (isDigit_iff.mp h).1
  unfold digitValue at hzero
  apply Char.toNat_inj.mp
  omega

theorem scanDigits_append {ds rest : List Char} (hds : ∀ c ∈ ds, c.isDigit)
    (hrest : ∀ c ∈ rest.head?, decimal? c = none) :
    scanDigits (ds ++ rest) = (ds.map digitValue, rest) := by
  induction ds with
  | nil =>
    cases rest with
    | nil => rfl
    | cons c rest =>
      have hc := hrest c rfl
      rw [List.nil_append, scanDigits, hc]
      rfl
  | cons d ds ih =>
    rw [List.forall_mem_cons] at hds
    rw [List.cons_append, scanDigits, decimal?_eq_some hds.1]
    simp only [ih hds.2, List.map_cons]

/-- Decimal digits, one at least. -/
structure IsDigits (ds : List Char) : Prop where
  ne_nil : ds ≠ []
  isDigit : ∀ c ∈ ds, c.isDigit

/-- The digits of a whole number. Only zero itself starts with a zero. -/
structure IsWhole (ds : List Char) : Prop extends IsDigits ds where
  eq_zero : ds.head? = some '0' → ds = ['0']

inductive WritesFraction : Option (List Nat) → List Char → Prop where
  | absent : WritesFraction none []
  | present {ds : List Char} : IsDigits ds → WritesFraction (some (ds.map digitValue)) ('.' :: ds)

inductive WritesSign : Bool → List Char → Prop where
  | minus : WritesSign true ['-']
  | plus : WritesSign false ['+']
  | absent : WritesSign false []

inductive WritesExponent : Option (Bool × List Nat) → List Char → Prop where
  | absent : WritesExponent none []
  | present {e : Char} {isNegative : Bool} {sign ds : List Char} : e = 'e' ∨ e = 'E' →
      WritesSign isNegative sign → IsDigits ds →
      WritesExponent (some (isNegative, ds.map digitValue)) (e :: (sign ++ ds))

/-- How a number is written behind its sign. -/
inductive WritesNumeral (isNegative : Bool) : Numeral → List Char → Prop where
  | mk {whole fs es : List Char} {fraction : Option (List Nat)}
      {exponent : Option (Bool × List Nat)} : IsWhole whole → WritesFraction fraction fs →
      WritesExponent exponent es →
      WritesNumeral isNegative ⟨isNegative, whole.map digitValue, fraction, exponent⟩
        (whole ++ (fs ++ es))

theorem IsDigits.exists_cons {ds : List Char} (h : IsDigits ds) :
    ∃ d ds', ds = d :: ds' ∧ d.isDigit := by
  cases ds with
  | nil => exact absurd rfl h.ne_nil
  | cons d ds => exact ⟨d, ds, rfl, h.isDigit d List.mem_cons_self⟩

theorem IsDigits.scanDigits_append {ds rest : List Char} (h : IsDigits ds)
    (hrest : ∀ c ∈ rest.head?, decimal? c = none) :
    ∃ d digits, ds.map digitValue = d :: digits ∧
      scanDigits (ds ++ rest) = (d :: digits, rest) := by
  rcases h.exists_cons with ⟨d, ds, rfl, _⟩
  exact ⟨_, _, rfl, Token.scanDigits_append h.isDigit hrest⟩

theorem IsWhole.scanWhole_append {ds rest : List Char} (h : IsWhole ds)
    (hrest : ∀ c ∈ rest.head?, decimal? c = none) :
    scanWhole (ds ++ rest) = some (ds.map digitValue, rest) := by
  unfold scanWhole
  rw [Token.scanDigits_append h.isDigit hrest]
  split
  . next heq => exact absurd (List.map_eq_nil_iff.mp (Prod.mk.inj heq).1) h.ne_nil
  -- a zero before other digits, which no number is written with
  . next heq =>
    rcases List.map_eq_cons_iff.mp (Prod.mk.inj heq).1 with ⟨c, _, rfl, hzero, htail⟩
    rcases List.map_eq_cons_iff.mp htail with ⟨d, ds, rfl, _⟩
    have hc := eq_zero_of_digitValue_eq_zero (h.isDigit c List.mem_cons_self) hzero
    have heq := h.eq_zero (congrArg some hc)
    simp at heq
  . rfl

/-- Whether a number ends where some text follows it. -/
def EndsNumber (rest : List Char) : Prop :=
  ∀ c ∈ rest.head?, decimal? c = none ∧ c ≠ '.' ∧ c ≠ 'e' ∧ c ≠ 'E'

theorem endsNumber_nil : EndsNumber [] := by
  simp [EndsNumber]

theorem endsNumber_cons {c : Char} {rest : List Char} :
    EndsNumber (c :: rest) ↔ decimal? c = none ∧ c ≠ '.' ∧ c ≠ 'e' ∧ c ≠ 'E' := by
  simp [EndsNumber]

theorem WritesSign.scanSign_append {isNegative : Bool} {sign ds : List Char}
    (h : WritesSign isNegative sign) (hds : IsDigits ds) (rest : List Char) :
    scanSign (sign ++ (ds ++ rest)) = (isNegative, ds ++ rest) := by
  cases h with
  | minus => rfl
  | plus => rfl
  | absent =>
    rcases hds.exists_cons with ⟨d, ds, rfl, hd⟩
    unfold scanSign
    split
    . next heq =>
      rw [(List.cons.inj heq).1] at hd
      simp at hd
    . next heq =>
      rw [(List.cons.inj heq).1] at hd
      simp at hd
    . rfl

section

variable {fraction : Option (List Nat)} {exponent : Option (Bool × List Nat)}
  {cs rest : List Char}

theorem WritesExponent.scanExponent_append (h : WritesExponent exponent cs)
    (hrest : EndsNumber rest) : scanExponent (cs ++ rest) = some (exponent, rest) := by
  cases h with
  | absent =>
    rw [List.nil_append]
    unfold scanExponent
    split
    . exact absurd rfl (hrest 'e' rfl).2.2.1
    . exact absurd rfl (hrest 'E' rfl).2.2.2
    . rfl
  | present he hsign hds =>
    rcases hds.scanDigits_append fun c hc => (hrest c hc).1 with ⟨d, digits, hvalue, hscan⟩
    rw [List.cons_append, List.append_assoc, hvalue]
    rcases he with rfl | rfl
    all_goals
      rw [scanExponent, hsign.scanSign_append hds]
      dsimp only
      rw [hscan]

theorem WritesExponent.head?_append (h : WritesExponent exponent cs) (hrest : EndsNumber rest) :
    ∀ c ∈ (cs ++ rest).head?, decimal? c = none ∧ c ≠ '.' := by
  intro c hc
  cases h with
  | absent => exact ⟨(hrest c hc).1, (hrest c hc).2.1⟩
  | present he _ _ =>
    cases hc
    rcases he with rfl | rfl <;> decide

theorem WritesFraction.scanFraction_append (h : WritesFraction fraction cs)
    (hrest : ∀ c ∈ rest.head?, decimal? c = none ∧ c ≠ '.') :
    scanFraction (cs ++ rest) = some (fraction, rest) := by
  cases h with
  | absent =>
    rw [List.nil_append]
    unfold scanFraction
    split
    . exact absurd rfl (hrest '.' rfl).2
    . rfl
  | present hds =>
    rcases hds.scanDigits_append fun c hc => (hrest c hc).1 with ⟨d, digits, hvalue, hscan⟩
    rw [List.cons_append, hvalue, scanFraction, hscan]

theorem WritesFraction.head?_append (h : WritesFraction fraction cs)
    (hrest : ∀ c ∈ rest.head?, decimal? c = none) :
    ∀ c ∈ (cs ++ rest).head?, decimal? c = none := by
  intro c hc
  cases h with
  | absent => exact hrest c hc
  | present _ =>
    cases hc
    decide

theorem WritesNumeral.scanNumeral_append {isNegative : Bool} {numeral : Numeral}
    (h : WritesNumeral isNegative numeral cs) (hrest : EndsNumber rest) :
    scanNumeral isNegative (cs ++ rest) = some (numeral, rest) := by
  cases h with
  | mk hwhole hfraction hexponent =>
    have hafter := hexponent.head?_append hrest
    have hscan := hwhole.scanWhole_append (hfraction.head?_append fun c hc => (hafter c hc).1)
    rw [List.append_assoc, List.append_assoc]
    simp only [scanNumeral, hscan, hfraction.scanFraction_append hafter,
      hexponent.scanExponent_append hrest, Option.bind_eq_bind, Option.bind_some, Option.pure_def]

end

theorem head?_toDigits_ne_zero {n : Nat} (hn : n ≠ 0) : (Nat.toDigits 10 n).head? ≠ some '0' := by
  induction n using Nat.strongRecOn with
  | ind n ih =>
    by_cases hlt : n < 10
    . have hdigit : ∀ d < 10, d ≠ 0 → d.digitChar ≠ '0' := by decide
      rw [Nat.toDigits_of_lt_base hlt, List.head?_cons, ne_eq, Option.some.injEq]
      exact hdigit n hlt hn
    . rw [Nat.toDigits_of_base_le (by omega) (by omega),
        List.head?_append_of_ne_nil _ Nat.toDigits_ne_nil]
      exact ih (n / 10) (by omega) (by omega)

theorem isWhole_toDigits (n : Nat) : IsWhole (Nat.toDigits 10 n) where
  ne_nil := Nat.toDigits_ne_nil
  isDigit c hc := Nat.isDigit_of_mem_toDigits (by omega) (by omega) hc
  eq_zero h := by
    by_cases hn : n = 0
    . rw [hn, Nat.toDigits_zero]
    . exact absurd h (head?_toDigits_ne_zero hn)

theorem writesNumeral_toDigits (isNegative : Bool) (n : Nat) :
    WritesNumeral isNegative ⟨isNegative, (Nat.toDigits 10 n).map digitValue, none, none⟩
      (Nat.toDigits 10 n) := by
  have h : WritesNumeral isNegative _ (Nat.toDigits 10 n ++ ([] ++ [])) :=
    .mk (isWhole_toDigits n) .absent .absent
  rw [List.append_nil, List.append_nil] at h
  exact h

theorem le_ofDigitChars (ds : List Char) (n : Nat) : n ≤ Nat.ofDigitChars 10 ds n := by
  induction ds generalizing n with
  | nil => exact Nat.le_refl n
  | cons d ds ih =>
    rw [Nat.ofDigitChars_cons]
    have hle := ih (10 * n + (d.toNat - '0'.toNat))
    omega

theorem append_map_digitValue {ds : List Char} {n : Nat}
    (h : Nat.ofDigitChars 10 ds n < UInt64.size) :
    Numeral.append n (ds.map digitValue) = (Nat.ofDigitChars 10 ds n, ds.length) := by
  induction ds generalizing n with
  | nil => rfl
  | cons d ds ih =>
    rw [Nat.ofDigitChars_cons, Nat.mul_comm] at h ⊢
    have hlt := Nat.lt_of_le_of_lt (le_ofDigitChars ds _) h
    rw [List.map_cons, Numeral.append, digitValue, if_pos hlt, ih h, List.length_cons]

theorem append_toDigits {n : Nat} (h : n < UInt64.size) :
    Numeral.append 0 ((Nat.toDigits 10 n).map digitValue) =
      (n, ((Nat.toDigits 10 n).map digitValue).length) := by
  rw [append_map_digitValue, Nat.ofDigitChars_ten_toDigits, List.length_map]
  rw [Nat.ofDigitChars_ten_toDigits]
  exact h

theorem value?_natural {n : Nat} (h : n < UInt64.size) :
    Numeral.value? ⟨false, (Nat.toDigits 10 n).map digitValue, none, none⟩ =
      some (.natural n) := by
  simp [Numeral.value?, append_toDigits h]

theorem value?_negative {n : Nat} (hpos : 0 < n) (hle : n ≤ 0x8000000000000000) :
    Numeral.value? ⟨true, (Nat.toDigits 10 n).map digitValue, none, none⟩ =
      some (.negative n) := by
  have hlt : n < UInt64.size := Nat.lt_of_le_of_lt hle (by decide)
  simp [Numeral.value?, append_toDigits hlt, hpos, hle]

end Token

end Keyring.Json
