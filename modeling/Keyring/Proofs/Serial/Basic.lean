import Keyring.Proofs.Json.Draft
import Keyring.Proofs.Serial.Compact
import Keyring.Serial.Basic
/-!
This module contains the laws of types with two serialized forms. What is written in either form is
read back, in the compact form whatever comes after it.
-/

namespace Keyring

open Json (Value)

/-- A type whose values are read back from what they are written as. -/
class LawfulSerial (α : Type) [Serial α] : Prop where
  isExact_toValue (a : α) : (Serial.toValue a).IsExact
  ofDraft_ofValue (a : α) : Serial.ofDraft (Json.Draft.ofValue (Serial.toValue a)) = .ok a
  readCompact_append (a : α) (rest : Bytes) :
    Serial.readCompact (Serial.toCompact a ++ rest) = .ok (a, rest)

namespace Serial

variable {α : Type}

/-- A text is read like what it says. -/
theorem ofJson_of_isWritten [Serial α] {d : Json.Draft} {text : String} (h : d.IsWritten text) :
    ofJson text = ofDraft (α := α) d := by
  simp only [ofJson, Json.Draft.ofText_of_isWritten h]
  cases ofDraft (α := α) d with
  | error refusal => rfl
  | ok a => rfl

theorem ofJson_toJson_eq [Serial α] {a : α} (h : (toValue a).IsExact) :
    ofJson (toJson a) = ofDraft (α := α) (Json.Draft.ofValue (toValue a)) := by
  exact ofJson_of_isWritten (Json.Draft.isWritten_toText h)

theorem ofCompact_eq_of_readCompact [Serial α] {bs rest : Bytes} {x : Except Refusal α}
    (h : readCompact bs = x.map fun a => (a, rest)) : ofCompact bs = x := by
  rw [ofCompact, h]
  cases x with
  | error refusal => rfl
  | ok a => rfl

theorem ensures_ofJson [Serial α] {P : α → Prop} (h : ∀ d, Ensures P (ofDraft d))
    (text : String) : Ensures P (ofJson text) := by
  unfold ofJson
  cases Json.Draft.ofText text with
  | mk d rest =>
    refine (h d).bind ?_
    intro a ha
    apply Ensures.bind_right
    intro _
    exact ensures_pure.mpr ha

theorem ensures_ofCompact [Serial α] {P : α → Prop}
    (h : ∀ bs, Ensures (fun read => P read.1) (readCompact bs)) (bs : Bytes) :
    Ensures P (ofCompact bs) := by
  unfold ofCompact
  refine (h bs).bind ?_
  intro read hread
  exact ensures_pure.mpr hread

section

variable [Serial α] [LawfulSerial α]

theorem ofJson_toJson (a : α) : ofJson (toJson a) = .ok a := by
  rw [ofJson_toJson_eq (LawfulSerial.isExact_toValue a), LawfulSerial.ofDraft_ofValue]

theorem mapM_ofItems (items : List α) :
    (Json.Draft.ofItems (items.map toValue)).mapM (ofDraft (α := α)) = .ok items := by
  induction items with
  | nil => rfl
  | cons item items ih =>
    rw [List.map_cons, Json.Draft.ofItems, List.mapM_cons, LawfulSerial.ofDraft_ofValue, ok_bind,
      ih, ok_bind, pure_eq_ok]

end

theorem readChoice_text [Choice α] [LawfulChoice α] (a : α) :
    Draft.readChoice (.text (some (Choice.name a))) = .ok a := by
  rw [Draft.readChoice, choiceOfName, LawfulChoice.ofName?_name]
  rfl

theorem readMembers_cons_eq_ok_iff {σ : Type} {read : σ → String → Json.Draft → Except Refusal σ}
    {isClosed : Bool} {s s' : σ} {m : Json.Draft × Json.Draft}
    {members : List (Json.Draft × Json.Draft)} :
    Draft.readMembers read isClosed s (m :: members) = .ok s' ↔ ∃ key t,
      m.1 = .text (some key) ∧ read s key m.2 = .ok t ∧
        Draft.readMembers read isClosed t members = .ok s' := by
  rcases m with ⟨d, value⟩
  cases d with
  | text s => cases s <;> simp [Draft.readMembers, bind_eq_ok_iff]
  | _ => simp [Draft.readMembers]

theorem readUInt32_number (n : UInt32) :
    Draft.readUInt32 (.number (some (.natural n.toNat))) = .ok n := by
  rw [Draft.readUInt32, Draft.readNatural, if_pos n.toNat_lt]
  simp

theorem readUInt64_number (n : UInt64) :
    Draft.readUInt64 (.number (some (.natural n.toNat))) = .ok n := by
  rw [Draft.readUInt64, Draft.readNatural, if_pos n.toNat_lt]
  simp

end Serial

end Keyring
