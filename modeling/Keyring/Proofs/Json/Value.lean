import Keyring.Proofs.Json.Token
/-!
This module contains the tokens of values. The text of a value whose numbers are exact is one of the
ways to write these tokens, wherever it stands.
-/

namespace Keyring.Json.Value

/-- Induction where the items of an array and the values in an object may be assumed. -/
@[elab_as_elim]
theorem induction {motive : Value → Prop} (null : motive .null)
    (boolean : ∀ b, motive (.boolean b)) (number : ∀ n, motive (.number n))
    (text : ∀ s, motive (.text s))
    (array : ∀ items, (∀ v ∈ items, motive v) → motive (.array items))
    (object : ∀ members, (∀ m ∈ members, motive m.2) → motive (.object members)) (v : Value) :
    motive v := by
  refine @Value.rec motive (fun items => ∀ v ∈ items, motive v)
    (fun members => ∀ m ∈ members, motive m.2) (fun m => motive m.2) null boolean number text array
    object ?_ ?_ ?_ ?_ ?_ v
  . simp
  . intro item items hitem hitems
    rw [List.forall_mem_cons]
    exact ⟨hitem, hitems⟩
  . simp
  . intro m members hm hmembers
    rw [List.forall_mem_cons]
    exact ⟨hm, hmembers⟩
  . intro key value hvalue
    exact hvalue

/-- Values whose numbers are read back as they are written. -/
inductive IsExact : Value → Prop where
  | null : IsExact .null
  | boolean (b : Bool) : IsExact (.boolean b)
  | number {n : Number} : n.IsExact → IsExact (.number n)
  | text (s : String) : IsExact (.text s)
  | array {items : List Value} : (∀ v ∈ items, v.IsExact) → IsExact (.array items)
  | object {members : List (String × Value)} :
      (∀ m ∈ members, m.2.IsExact) → IsExact (.object members)

mutual

def tokens : Value → List Token
  | .null => [.null]
  | .boolean b => [.boolean b]
  | .number n => [.number (some n)]
  | .text s => [.text (some s)]
  | .array items => .openBracket :: itemTokens items ++ [.closeBracket]
  | .object members => .openBrace :: memberTokens members ++ [.closeBrace]

def itemTokens : List Value → List Token
  | [] => []
  | [item] => item.tokens
  | item :: items => item.tokens ++ .comma :: itemTokens items

def memberTokens : List (String × Value) → List Token
  | [] => []
  | [(key, value)] => .text (some key) :: .colon :: value.tokens
  | (key, value) :: members =>
    .text (some key) :: .colon :: value.tokens ++ .comma :: memberTokens members

end

/-- The text of a value is a way to write its tokens, whatever comes after it. -/
def Writes (v : Value) : Prop :=
  ∀ {tokens : List Token} {rest : List Char}, Token.EndsNumber rest →
    Token.WritesAll tokens rest → Token.WritesAll (v.tokens ++ tokens) (v.render ++ rest)

section

variable {tokens : List Token} {rest : List Char}

theorem writesAll_renderItems {items : List Value} (h : ∀ v ∈ items, v.Writes)
    (hends : Token.EndsNumber rest) (hrest : Token.WritesAll tokens rest) :
    Token.WritesAll (itemTokens items ++ tokens) (renderItems items ++ rest) := by
  induction items with
  | nil => rw [renderItems, itemTokens]; exact hrest
  | cons item items ih =>
    rw [List.forall_mem_cons] at h
    cases items with
    | nil => rw [renderItems, itemTokens]; exact h.1 hends hrest
    | cons item' items =>
      rw [renderItems, itemTokens]
      . simp only [List.append_assoc, List.cons_append]
        apply h.1 (Token.endsNumber_cons.mpr (by decide))
        exact .symbol .comma trivial (ih h.2)
      . simp
      . simp

theorem writesAll_renderMembers {members : List (String × Value)} (h : ∀ m ∈ members, m.2.Writes)
    (hends : Token.EndsNumber rest) (hrest : Token.WritesAll tokens rest) :
    Token.WritesAll (memberTokens members ++ tokens) (renderMembers members ++ rest) := by
  induction members with
  | nil => rw [renderMembers, memberTokens]; exact hrest
  | cons m members ih =>
    rw [List.forall_mem_cons] at h
    cases members with
    | nil =>
      rw [renderMembers, memberTokens, List.append_assoc]
      apply Token.WritesAll.cons (Token.writes_quote m.1) trivial
      apply Token.WritesAll.symbol .colon trivial
      exact h.1 hends hrest
    | cons m' members =>
      rw [renderMembers, memberTokens]
      . simp only [List.append_assoc, List.cons_append]
        apply Token.WritesAll.cons (Token.writes_quote m.1) trivial
        apply Token.WritesAll.symbol .colon trivial
        apply h.1 (Token.endsNumber_cons.mpr (by decide))
        exact .symbol .comma trivial (ih h.2)
      . simp
      . simp

end

theorem IsExact.writes {v : Value} (h : v.IsExact) : v.Writes := by
  induction h with
  | null =>
    intro tokens rest _ hrest
    exact .cons .null trivial hrest
  | boolean b =>
    intro tokens rest _ hrest
    cases b with
    | false => exact .cons .isFalse trivial hrest
    | true => exact .cons .isTrue trivial hrest
  | number hn =>
    intro tokens rest hends hrest
    exact .cons (Token.writes_numberChars hn) hends hrest
  | text s =>
    intro tokens rest _ hrest
    exact .cons (Token.writes_quote s) trivial hrest
  | array _ ih =>
    intro tokens rest _ hrest
    simp only [render, Value.tokens, List.append_assoc, List.cons_append]
    apply Token.WritesAll.symbol .openBracket trivial
    apply writesAll_renderItems ih (Token.endsNumber_cons.mpr (by decide))
    exact .symbol .closeBracket trivial hrest
  | object _ ih =>
    intro tokens rest _ hrest
    simp only [render, Value.tokens, List.append_assoc, List.cons_append]
    apply Token.WritesAll.symbol .openBrace trivial
    apply writesAll_renderMembers ih (Token.endsNumber_cons.mpr (by decide))
    exact .symbol .closeBrace trivial hrest

theorem IsExact.writesAll_toText {v : Value} (h : v.IsExact) :
    Token.WritesAll v.tokens v.toText.toList := by
  have hwrites := h.writes Token.endsNumber_nil .nil
  rw [List.append_nil, List.append_nil] at hwrites
  rw [toText, String.toList_ofList]
  exact hwrites

end Keyring.Json.Value
