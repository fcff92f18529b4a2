import Keyring.Proofs.Json.Number
/-!
This module contains how tokens are written: each on its own, with all the ways to spell a text or a
number, and one after the other with any blanks between them. The tokens of a text are those that it
is written with, and quoted texts and exact numbers are written in one of these ways.
-/

namespace Keyring.Json

namespace Token

/-- How a unit of a text is written between quotes. -/
inductive WritesUnit : Nat → List Char → Prop where
  | plain {c : Char} : c ≠ '"' → c ≠ '\\' → ¬c < ' ' → WritesUnit c.toNat [c]
  | short {e c : Char} : escaped? e = some c → WritesUnit c.toNat ['\\', e]
  | unit {a b c d : Char} {n : Nat} : unit? a b c d = some n →
      WritesUnit n ['\\', 'u', a, b, c, d]

inductive WritesUnits : List Nat → List Char → Prop where
  | nil : WritesUnits [] []
  | cons {unit : Nat} {units : List Nat} {cs rest : List Char} : WritesUnit unit cs →
      WritesUnits units rest → WritesUnits (unit :: units) (cs ++ rest)

/-- The text that units make up, unless there is half of a pair among them. -/
def ofUnits? (units : List Nat) : Option String :=
  (joinPairs? units.reverse []).map String.ofList

/-- How a token is written. -/
inductive Writes : Token → List Char → Prop where
  | openBrace : Writes .openBrace ['{']
  | closeBrace : Writes .closeBrace ['}']
  | openBracket : Writes .openBracket ['[']
  | closeBracket : Writes .closeBracket [']']
  | comma : Writes .comma [',']
  | colon : Writes .colon [':']
  | null : Writes .null ['n', 'u', 'l', 'l']
  | isTrue : Writes (.boolean true) ['t', 'r', 'u', 'e']
  | isFalse : Writes (.boolean false) ['f', 'a', 'l', 's', 'e']
  | positive {numeral : Numeral} {cs : List Char} : WritesNumeral false numeral cs →
      Writes (.number numeral.value?) cs
  | negative {numeral : Numeral} {cs : List Char} : WritesNumeral true numeral cs →
      Writes (.number numeral.value?) ('-' :: cs)
  | text {units : List Nat} {cs : List Char} : WritesUnits units cs →
      Writes (.text (ofUnits? units)) ('"' :: cs ++ ['"'])

/-- Whether a token ends where some text follows it. Only numbers can go on. -/
def EndsBefore : Token → List Char → Prop
  | .number _, rest => EndsNumber rest
  | _, _ => True

/-- How tokens are written one after the other. Blanks between them do not matter. -/
inductive WritesAll : List Token → List Char → Prop where
  | nil : WritesAll [] []
  | blank {tokens : List Token} {c : Char} {cs : List Char} : isBlank c → WritesAll tokens cs →
      WritesAll tokens (c :: cs)
  | cons {t : Token} {tokens : List Token} {cs rest : List Char} : t.Writes cs →
      t.EndsBefore rest → WritesAll tokens rest → WritesAll (t :: tokens) (cs ++ rest)

theorem WritesAll.symbol {t : Token} {c : Char} {tokens : List Token} {rest : List Char}
    (ht : t.Writes [c]) (hrest : t.EndsBefore rest) (h : WritesAll tokens rest) :
    WritesAll (t :: tokens) (c :: rest) := by
  rw [← List.singleton_append]
  exact .cons ht hrest h

theorem all_nil : all [] = [] := by
  rw [all]

theorem all_blank {c : Char} (h : isBlank c) (cs : List Char) : all (c :: cs) = all cs := by
  rw [all, if_pos h]

theorem all_cons {c : Char} {cs rest : List Char} {t : Token} (hblank : isBlank c = false)
    (h : scan (c :: cs) = some (t, rest)) : all (c :: cs) = t :: all rest := by
  rw [all, hblank, if_neg Bool.false_ne_true]
  split
  . next t' rest' h' =>
    rw [h, Option.some.injEq, Prod.mk.injEq] at h'
    rw [h'.1, h'.2]
  . next h' => simp [h] at h'

theorem scanText_cons {c : Char} (hquote : c ≠ '"') (hslash : c ≠ '\\') (hcontrol : ¬c < ' ')
    (rest : List Char) (units : List Nat) :
    scanText (c :: rest) units = scanText rest (c.toNat :: units) := by
  rw [scanText, if_neg hcontrol]
  . exact hquote
  . intro _ _ _ _ _ h _
    exact hslash h
  . intro _ _ h _
    exact hslash h
  . intro h _
    exact hslash h

theorem WritesUnit.scanText_append {unit : Nat} {cs : List Char} (h : WritesUnit unit cs)
    (rest : List Char) (units : List Nat) :
    scanText (cs ++ rest) units = scanText rest (unit :: units) := by
  cases h with
  | plain hquote hslash hcontrol => exact scanText_cons hquote hslash hcontrol rest units
  | short he =>
    unfold escaped? at he
    split at he
    case h_9 => cases he
    all_goals
      cases he
      rfl
  | unit hunit =>
    rw [List.cons_append, List.cons_append, List.cons_append, List.cons_append, List.cons_append,
      List.cons_append, List.nil_append, scanText, hunit]

theorem WritesUnits.scanText_append {units : List Nat} {cs : List Char} (h : WritesUnits units cs)
    (rest : List Char) (before : List Nat) :
    scanText (cs ++ '"' :: rest) before = some (units.reverse ++ before, rest) := by
  induction h generalizing before with
  | nil => rfl
  | cons hunit _ ih =>
    rw [List.append_assoc, hunit.scanText_append, ih, List.reverse_cons, List.append_assoc,
      List.singleton_append]

theorem scan_of_isDigit {c : Char} (h : c.isDigit) (cs : List Char) :
    scan (c :: cs) =
      (scanNumeral false (c :: cs)).map fun (numeral, cs) => (.number numeral.value?, cs) := by
  unfold scan
  split
  case h_12 => rfl
  all_goals
    next heq =>
      rw [(List.cons.inj heq).1] at h
      simp at h

theorem isBlank_of_isDigit {c : Char} (h : c.isDigit) : isBlank c = false := by
  by_contra hblank
  rw [Bool.not_eq_false, isBlank] at hblank
  simp only [Bool.or_eq_true, decide_eq_true_eq] at hblank
  rcases hblank with ((rfl | rfl) | rfl) | rfl <;> simp at h

theorem WritesNumeral.exists_cons {isNegative : Bool} {numeral : Numeral} {cs : List Char}
    (h : WritesNumeral isNegative numeral cs) : ∃ c cs', cs = c :: cs' ∧ c.isDigit := by
  cases h with
  | mk hwhole _ _ =>
    rcases hwhole.exists_cons with ⟨d, ds, rfl, hd⟩
    exact ⟨d, _, rfl, hd⟩

/-- A token is scanned as itself, whatever comes after it. -/
theorem Writes.all_append {t : Token} {cs rest : List Char} (h : t.Writes cs)
    (hrest : t.EndsBefore rest) : all (cs ++ rest) = t :: all rest := by
  cases h with
  | openBrace | closeBrace | openBracket | closeBracket | comma | colon | null | isTrue | isFalse =>
    exact all_cons rfl rfl
  | positive hnumeral =>
    have hscan := hnumeral.scanNumeral_append hrest
    rcases hnumeral.exists_cons with ⟨c, cs, rfl, hc⟩
    rw [List.cons_append] at hscan ⊢
    apply all_cons (isBlank_of_isDigit hc)
    rw [scan_of_isDigit hc, hscan, Option.map_some]
  | negative hnumeral =>
    rw [List.cons_append]
    apply all_cons rfl
    rw [scan, hnumeral.scanNumeral_append hrest, Option.map_some]
  | text hunits =>
    have hscan := hunits.scanText_append rest []
    rw [List.append_nil] at hscan
    rw [List.cons_append, List.cons_append, List.append_assoc, List.singleton_append]
    apply all_cons rfl
    rw [scan, hscan, Option.map_some]
    rfl

theorem WritesAll.all_eq {tokens : List Token} {cs : List Char} (h : WritesAll tokens cs) :
    all cs = tokens := by
  induction h with
  | nil => exact all_nil
  | blank hc _ ih => rw [all_blank hc, ih]
  | cons ht hrest _ ih => rw [ht.all_append hrest, ih]

theorem digit?_lowerDigits :
    ∀ n < 16, Text.Hex.digit? (Text.Hex.lowerDigits.getD n '0') = some n := by
  decide

theorem unit?_digitsOf (b : UInt8) :
    unit? '0' '0' (Text.Hex.lowerDigits.getD (b.toNat / 16) '0')
      (Text.Hex.lowerDigits.getD (b.toNat % 16) '0') = some b.toNat := by
  have hhigh := digit?_lowerDigits (b.toNat / 16) (by have := b.toNat_lt; omega)
  have hlow := digit?_lowerDigits (b.toNat % 16) (by omega)
  have hzero : Text.Hex.digit? '0' = some 0 := rfl
  simp only [unit?, hzero, hhigh, hlow, Option.bind_eq_bind, Option.bind_some, Option.pure_def,
    Option.some.injEq]
  omega

theorem writesUnit_escapeChar (c : Char) : WritesUnit c.toNat (Value.escapeChar c) := by
  unfold Value.escapeChar
  split_ifs with hquote hslash hbackspace hfeed hline hreturn htab hcontrol
  . rw [hquote]; exact .short rfl
  . rw [hslash]; exact .short rfl
  . rw [hbackspace]; exact .short rfl
  . rw [hfeed]; exact .short rfl
  . rw [hline]; exact .short rfl
  . rw [hreturn]; exact .short rfl
  . rw [htab]; exact .short rfl
  . have hbyte : c.toUInt8.toNat = c.toNat := by
      have hlt : c.val.toNat < 32 := hcontrol
      unfold Char.toUInt8
      rw [UInt32.toNat_toUInt8]
      exact Nat.mod_eq_of_lt (by omega)
    rw [← hbyte]
    exact .unit (unit?_digitsOf _)
  . exact .plain hquote hslash hcontrol

theorem writesUnits_flatMap_escapeChar (cs : List Char) :
    WritesUnits (cs.map Char.toNat) (cs.flatMap Value.escapeChar) := by
  induction cs with
  | nil => exact .nil
  | cons c cs ih => exact .cons (writesUnit_escapeChar c) ih

/-- No character is half of a pair. -/
theorem isHalf_toNat (c : Char) : isLowHalf c.toNat = false ∧ isHighHalf c.toNat = false := by
  have hvalid : c.toNat < 0xd800 ∨ 0xdfff < c.toNat ∧ c.toNat < 0x110000 := c.valid
  unfold isLowHalf isHighHalf
  simp only [Bool.and_eq_false_iff, decide_eq_false_iff_not]
  omega

theorem joinPairs?_map_toNat (cs chars : List Char) :
    joinPairs? (cs.map Char.toNat) chars = some (cs.reverse ++ chars) := by
  induction cs generalizing chars with
  | nil => rfl
  | cons c cs ih =>
    rcases isHalf_toNat c with ⟨hlow, hhigh⟩
    rw [List.map_cons, joinPairs?.eq_def]
    simp only [hlow, hhigh, Bool.false_eq_true, ↓reduceIte, Char.ofNat_toNat, ih]
    rw [List.reverse_cons, List.append_assoc, List.singleton_append]

theorem ofUnits?_map_toNat (cs : List Char) :
    ofUnits? (cs.map Char.toNat) = some (String.ofList cs) := by
  rw [ofUnits?, ← List.map_reverse, joinPairs?_map_toNat, List.reverse_reverse, List.append_nil,
    Option.map_some]

theorem writes_quote (s : String) : Writes (.text (some s)) (Value.quote s) := by
  have hunits := ofUnits?_map_toNat s.toList
  rw [String.ofList_toList] at hunits
  rw [← hunits]
  exact .text (writesUnits_flatMap_escapeChar s.toList)

theorem writes_numberChars {n : Number} (hn : n.IsExact) :
    Writes (.number (some n)) (Value.numberChars n) := by
  cases n with
  | natural n =>
    rw [← value?_natural hn]
    exact .positive (writesNumeral_toDigits false n)
  | negative n =>
    rw [← value?_negative hn.1 hn.2]
    exact .negative (writesNumeral_toDigits true n)
  | real text => exact hn.elim

end Token

end Keyring.Json
