import Keyring.Json.Draft
import Keyring.Proofs.Json.Value
/-!
This module contains how drafts are written. The tokens of a draft are read as this draft, in any
place where a value can stand, so every text that is written with them is read as the draft and
nothing is left over. The text of a value is such a text for the draft of the value.
-/

namespace Keyring.Json

namespace Draft

mutual

/-- The draft of a whole value. -/
def ofValue : Value → Draft
  | .null => .null
  | .boolean b => .boolean b
  | .number n => .number (some n)
  | .text s => .text (some s)
  | .array items => .array (ofItems items) true
  | .object members => .object (ofMembers members) true

def ofItems : List Value → List Draft
  | [] => []
  | item :: items => ofValue item :: ofItems items

def ofMembers : List (String × Value) → List (Draft × Draft)
  | [] => []
  | (key, value) :: members => (.text (some key), ofValue value) :: ofMembers members

end

theorem ofItems_eq_map (items : List Value) : ofItems items = items.map ofValue := by
  induction items with
  | nil => rfl
  | cons item items ih => rw [ofItems, ih, List.map_cons]

/-- Members whose keys are texts. -/
def named (members : List (String × Draft)) : List (Draft × Draft) :=
  members.map fun m => (.text (some m.1), m.2)

theorem ofMembers_eq_named (members : List (String × Value)) :
    ofMembers members = named (members.map fun m => (m.1, ofValue m.2)) := by
  induction members with
  | nil => rfl
  | cons m members ih => rw [ofMembers, ih]; rfl

mutual

/-- The tokens that a draft is read from. -/
def tokens : Draft → List Token
  | .null => [.null]
  | .boolean b => [.boolean b]
  | .number n => [.number n]
  | .text s => [.text s]
  | .array items _ => .openBracket :: itemTokens items ++ [.closeBracket]
  | .object members _ => .openBrace :: memberTokens members ++ [.closeBrace]
  | .absent | .malformed => [.malformed]

def itemTokens : List Draft → List Token
  | [] => []
  | [item] => item.tokens
  | item :: items => item.tokens ++ .comma :: itemTokens items

def memberTokens : List (Draft × Draft) → List Token
  | [] => []
  | [(key, value)] => key.tokens ++ .colon :: value.tokens
  | (key, value) :: members =>
    key.tokens ++ .colon :: (value.tokens ++ .comma :: memberTokens members)

end

/-- The drafts of JSON, whose arrays and objects go on to their end. Numbers and texts need not have
a value. -/
inductive IsJson : Draft → Prop where
  | null : IsJson .null
  | boolean (b : Bool) : IsJson (.boolean b)
  | number (n : Option Number) : IsJson (.number n)
  | text (s : Option String) : IsJson (.text s)
  | array {items : List Draft} : (∀ d ∈ items, d.IsJson) → IsJson (.array items true)
  | object {members : List (Draft × Draft)} : (∀ m ∈ members, ∃ s, m.1 = .text s) →
      (∀ m ∈ members, m.2.IsJson) → IsJson (.object members true)

theorem isJson_named {members : List (String × Draft)} (h : ∀ m ∈ members, m.2.IsJson) :
    IsJson (.object (named members) true) := by
  apply IsJson.object
  . exact List.forall_mem_map.mpr fun m _ => ⟨some m.1, rfl⟩
  . exact List.forall_mem_map.mpr h

theorem areComplete_of_forall {items : List Draft} (h : ∀ d ∈ items, d.isComplete) :
    areComplete items := by
  induction items with
  | nil => rfl
  | cons item items ih =>
    rw [List.forall_mem_cons] at h
    rw [areComplete, h.1, ih h.2, Bool.and_self]

theorem membersAreComplete_of_forall {members : List (Draft × Draft)}
    (hkeys : ∀ m ∈ members, ∃ s, m.1 = .text s) (h : ∀ m ∈ members, m.2.isComplete) :
    membersAreComplete members := by
  induction members with
  | nil => rfl
  | cons m members ih =>
    rw [List.forall_mem_cons] at hkeys h
    rcases m with ⟨key, value⟩
    rcases hkeys.1 with ⟨s, rfl⟩
    rw [membersAreComplete, isComplete, Bool.true_and, h.1, ih hkeys.2 h.2, Bool.and_self]

theorem IsJson.isComplete {d : Draft} (h : d.IsJson) : d.isComplete := by
  induction h with
  | null => rfl
  | boolean b => rfl
  | number n => rfl
  | text s => rfl
  | array _ ih => rw [Draft.isComplete, areComplete_of_forall ih, Bool.and_self]
  | object hkeys _ ih =>
    rw [Draft.isComplete, membersAreComplete_of_forall hkeys ih, Bool.and_self]

theorem IsJson.isComplete_of_mem {members : List (Draft × Draft)} {isClosed : Bool}
    (h : IsJson (.object members isClosed)) : ∀ m ∈ members, m.2.isComplete := by
  cases h with
  | object _ hvalues =>
    intro m hm
    exact (hvalues m hm).isComplete

/-- The tokens of a draft are read as this draft, whatever it stands in and what comes after it. -/
def Parses (d : Draft) : Prop :=
  ∀ (tokens : List Token) (frames : List Frame),
    run (d.tokens ++ tokens) .value frames = run tokens (.after d) frames

theorem run_value_cons {t : Token} {mode : Mode} {frames frames' : List Frame}
    (h : startValue t frames = some (mode, frames')) (tokens : List Token) :
    run (t :: tokens) .value frames = run tokens mode frames' := by
  cases frames with
  | nil => simp [run, h]
  | cons frame frames => simp [run, step, h]

theorem IsJson.run_item {d : Draft} (h : d.IsJson) (tokens : List Token) (frame : Frame)
    (frames : List Frame) :
    run (d.tokens ++ tokens) .item (frame :: frames) =
      run (d.tokens ++ tokens) .value (frame :: frames) := by
  cases h <;> rfl

/-- The first item of an array is read like any value. -/
theorem run_item_itemTokens {item : Draft} (h : item.IsJson) (items : List Draft)
    (tokens : List Token) (frame : Frame) (frames : List Frame) :
    run (itemTokens (item :: items) ++ tokens) .item (frame :: frames) =
      run (itemTokens (item :: items) ++ tokens) .value (frame :: frames) := by
  cases items with
  | nil => exact h.run_item tokens frame frames
  | cons item' items =>
    rw [itemTokens, List.append_assoc]
    . apply h.run_item
    . simp

/-- The first key of an object is read like any other. -/
theorem run_member_memberTokens {m : Draft × Draft} (h : ∃ s, m.1 = .text s)
    (members : List (Draft × Draft)) (tokens : List Token) (before : List (Draft × Draft))
    (frames : List Frame) :
    run (memberTokens (m :: members) ++ tokens) .member (.object before :: frames) =
      run (memberTokens (m :: members) ++ tokens) .key (.object before :: frames) := by
  rcases m with ⟨key, value⟩
  rcases h with ⟨s, rfl⟩
  cases members <;> rfl

theorem run_itemTokens {items : List Draft} (h : ∀ d ∈ items, Parses d) (hne : items ≠ [])
    (before : List Draft) (tokens : List Token) (frames : List Frame) :
    run (itemTokens items ++ .closeBracket :: tokens) .value (.array before :: frames) =
      run tokens (.after (.array (before.reverse ++ items) true)) frames := by
  -- each item goes to the items before it, newest first, until the bracket turns them round
  induction items generalizing before with
  | nil => exact absurd rfl hne
  | cons item items ih =>
    rw [List.forall_mem_cons] at h
    cases items with
    | nil =>
      rw [itemTokens, h.1, ← List.reverse_cons]
      rfl
    | cons item' items =>
      have hitems := ih h.2 (List.cons_ne_nil item' items) (item :: before)
      rw [itemTokens, List.append_assoc, List.cons_append, h.1]
      . rw [List.reverse_cons, List.append_assoc, List.singleton_append] at hitems
        exact hitems
      . simp

theorem run_memberTokens {members : List (Draft × Draft)}
    (hkeys : ∀ m ∈ members, ∃ s, m.1 = .text s) (h : ∀ m ∈ members, Parses m.2)
    (hne : members ≠ []) (before : List (Draft × Draft)) (tokens : List Token)
    (frames : List Frame) :
    run (memberTokens members ++ .closeBrace :: tokens) .key (.object before :: frames) =
      run tokens (.after (.object (before.reverse ++ members) true)) frames := by
  induction members generalizing before with
  | nil => exact absurd rfl hne
  | cons m members ih =>
    rw [List.forall_mem_cons] at hkeys h
    rcases m with ⟨key, value⟩
    rcases hkeys.1 with ⟨s, rfl⟩
    cases members with
    | nil =>
      rw [memberTokens, ← List.reverse_cons]
      exact h.1 (.closeBrace :: tokens) (.member before (.text s) :: frames)
    | cons m' members =>
      have hmembers := ih hkeys.2 h.2 (List.cons_ne_nil m' members) ((.text s, value) :: before)
      have hvalue := h.1 (.comma :: (memberTokens (m' :: members) ++ .closeBrace :: tokens))
        (.member before (.text s) :: frames)
      rw [List.reverse_cons, List.append_assoc, List.singleton_append] at hmembers
      rw [memberTokens, ← hmembers]
      . simp only [List.append_assoc, List.cons_append]
        exact hvalue
      . simp

theorem IsJson.parses {d : Draft} (h : d.IsJson) : Parses d := by
  induction h with
  | null => intro tokens frames; exact run_value_cons rfl tokens
  | boolean b => intro tokens frames; exact run_value_cons rfl tokens
  | number n => intro tokens frames; exact run_value_cons rfl tokens
  | text s => intro tokens frames; exact run_value_cons rfl tokens
  | @array items h ih =>
    intro tokens frames
    rw [Draft.tokens, List.cons_append, List.cons_append, List.append_assoc, List.singleton_append,
      run_value_cons rfl]
    cases items with
    | nil => rfl
    | cons item items =>
      rw [run_item_itemTokens (h item List.mem_cons_self),
        run_itemTokens ih (List.cons_ne_nil item items) [] tokens frames]
      rfl
  | @object members hkeys _ ih =>
    intro tokens frames
    rw [Draft.tokens, List.cons_append, List.cons_append, List.append_assoc, List.singleton_append,
      run_value_cons rfl]
    cases members with
    | nil => rfl
    | cons m members =>
      rw [run_member_memberTokens (hkeys m List.mem_cons_self),
        run_memberTokens hkeys ih (List.cons_ne_nil m members) [] tokens frames]
      rfl

/-- Whether a text says what a draft has, in any of the ways to write it. -/
def IsWritten (d : Draft) (text : String) : Prop :=
  d.IsJson ∧ Token.WritesAll d.tokens text.toList

theorem ofText_of_isWritten {d : Draft} {text : String} (h : d.IsWritten text) :
    ofText text = (d, []) := by
  have hparses := h.1.parses [] []
  rw [List.append_nil] at hparses
  rw [ofText, h.2.all_eq, hparses]
  rfl

theorem itemTokens_ofItems {items : List Value} (h : ∀ v ∈ items, (ofValue v).tokens = v.tokens) :
    itemTokens (ofItems items) = Value.itemTokens items := by
  induction items with
  | nil => rfl
  | cons item items ih =>
    rw [List.forall_mem_cons] at h
    cases items with
    | nil => exact h.1
    | cons item' items =>
      rw [Value.itemTokens, ← h.1, ← ih h.2]
      . rfl
      . simp

theorem memberTokens_ofMembers {members : List (String × Value)}
    (h : ∀ m ∈ members, (ofValue m.2).tokens = m.2.tokens) :
    memberTokens (ofMembers members) = Value.memberTokens members := by
  induction members with
  | nil => rfl
  | cons m members ih =>
    rw [List.forall_mem_cons] at h
    cases members with
    | nil => rw [Value.memberTokens, ← h.1]; rfl
    | cons m' members =>
      rw [Value.memberTokens, ← h.1, ← ih h.2]
      . rfl
      . simp

theorem tokens_ofValue (v : Value) : (ofValue v).tokens = v.tokens := by
  induction v using Value.induction with
  | null => rfl
  | boolean b => rfl
  | number n => rfl
  | text s => rfl
  | array items ih => rw [ofValue, tokens, Value.tokens, itemTokens_ofItems ih]
  | object members ih => rw [ofValue, tokens, Value.tokens, memberTokens_ofMembers ih]

theorem isJson_ofValue (v : Value) : (ofValue v).IsJson := by
  induction v using Value.induction with
  | null => exact .null
  | boolean b => exact .boolean b
  | number n => exact .number n
  | text s => exact .text s
  | array items ih =>
    rw [ofValue, ofItems_eq_map]
    exact .array (List.forall_mem_map.mpr ih)
  | object members ih =>
    rw [ofValue, ofMembers_eq_named]
    exact isJson_named (List.forall_mem_map.mpr ih)

theorem isWritten_toText {v : Value} (h : v.IsExact) : (ofValue v).IsWritten v.toText := by
  refine ⟨isJson_ofValue v, ?_⟩
  rw [tokens_ofValue]
  exact h.writesAll_toText

theorem values?_ofItems {items : List Value} (h : ∀ v ∈ items, (ofValue v).value? = some v) :
    values? (ofItems items) = some items := by
  induction items with
  | nil => rfl
  | cons item items ih =>
    rw [List.forall_mem_cons] at h
    simp [ofItems, values?, h.1, ih h.2]

theorem memberValues?_ofMembers {members : List (String × Value)}
    (h : ∀ m ∈ members, (ofValue m.2).value? = some m.2) :
    memberValues? (ofMembers members) = some members := by
  induction members with
  | nil => rfl
  | cons m members ih =>
    rw [List.forall_mem_cons] at h
    simp [ofMembers, memberValues?, h.1, ih h.2]

theorem value?_ofValue (v : Value) : (ofValue v).value? = some v := by
  induction v using Value.induction with
  | null => rfl
  | boolean b => rfl
  | number n => rfl
  | text s => rfl
  | array items ih => rw [ofValue, value?, values?_ofItems ih, Option.map_some]
  | object members ih => rw [ofValue, value?, memberValues?_ofMembers ih, Option.map_some]

end Draft

/-- Every value whose numbers are exact is read back from its text. -/
theorem Value.ofText?_toText {v : Value} (h : v.IsExact) : ofText? v.toText = some v := by
  rw [ofText?, Draft.ofText_of_isWritten (Draft.isWritten_toText h)]
  exact Draft.value?_ofValue v

end Keyring.Json
