import Keyring.Proofs.Key.Canonical
import Keyring.Proofs.Serial.Basic
import Keyring.Proofs.Text.Base58
import Keyring.Proofs.Text.Base64
import Keyring.Serial.Item
/-!
This module contains the serialized forms of keys and key hashes. What is accepted in either form is
exactly an item under its tag, so no form of a key is one of a key hash, and each is read back.
-/

namespace Keyring

namespace Json.Draft

theorem value?_eq_some_text_iff {d : Draft} {s : String} :
    d.value? = some (.text s) ↔ d = .text (some s) := by
  cases d with
  | text t => simp [value?]
  | array items isClosed => cases isClosed <;> simp [value?]
  | object members isClosed => cases isClosed <;> simp [value?]
  | null | boolean _ | number _ | absent | malformed => simp [value?]

theorem memberValues?_eq_some_nil_iff {members : List (Draft × Draft)} :
    memberValues? members = some [] ↔ members = [] := by
  constructor
  . intro h
    unfold memberValues? at h
    split at h
    . rfl
    . simp [Option.bind_eq_some_iff] at h
    . simp at h
  . rintro rfl
    rfl

/-- Only one draft is read as an object with one text. -/
theorem value?_eq_some_member_iff {d : Draft} {key s : String} :
    d.value? = some (.object [(key, .text s)]) ↔
      d = .object [(.text (some key), .text (some s))] true := by
  constructor
  . intro h
    unfold value? at h
    split at h
    case h_6 members =>
      simp only [Option.map_eq_some_iff, Value.object.injEq, exists_eq_right] at h
      unfold memberValues? at h
      split at h
      . simp at h
      . simp only [Option.bind_eq_bind, Option.bind_eq_some_iff, Option.pure_def,
          Option.some.injEq, List.cons.injEq, Prod.mk.injEq] at h
        rcases h with ⟨_, hvalue, _, hmembers, ⟨rfl, rfl⟩, rfl⟩
        rw [value?_eq_some_text_iff.mp hvalue, memberValues?_eq_some_nil_iff.mp hmembers]
      . simp at h
    all_goals simp at h
  . rintro rfl
    rfl

end Json.Draft

namespace Serial

theorem liftFault_eq_ok_iff {α : Type} {x : Except Fault α} {a : α} :
    liftFault x = .ok a ↔ x = .ok a := by
  cases x with
  | error fault => simp [liftFault]
  | ok a => simp [liftFault]

theorem liftError_eq_ok_iff {α : Type} {x : Except Error α} {a : α} :
    liftError x = .ok a ↔ x = .ok a := by
  cases x with
  | error error => simp [liftError]
  | ok a => simp [liftError]

theorem Draft.readText_eq_ok_iff {expected s : String} {d : Json.Draft} :
    readText expected d = .ok s ↔ d = .text (some s) := by
  constructor
  . intro h
    unfold readText at h
    split at h
    . rw [Except.ok.injEq] at h
      rw [h]
    . simp at h
  . rintro rfl
    rfl

theorem Draft.close_eq_ok_iff {isClosed : Bool} {u : Unit} :
    close isClosed = .ok u ↔ isClosed = true := by
  cases isClosed with
  | false => simp [close]
  | true => simp [close]

namespace ItemKind

theorem ofName_eq_ok_iff {name : String} {kind : ItemKind} :
    ofName name = .ok kind ↔ name = kind.name := by
  constructor
  . intro h
    unfold ofName at h
    split at h
    . cases h
      rfl
    . cases h
      rfl
    . simp at h
  . rintro rfl
    cases kind <;> rfl

theorem ofIndex_eq_ok_iff {i : Nat} {kind : ItemKind} : ofIndex i = .ok kind ↔ i = kind.index := by
  constructor
  . intro h
    unfold ofIndex at h
    split at h
    . cases h
      rfl
    . cases h
      rfl
    . simp at h
  . rintro rfl
    cases kind <;> rfl

theorem name_inj {kind kind' : ItemKind} (h : kind.name = kind'.name) : kind = kind' := by
  have hself := ofName_eq_ok_iff.mpr h
  rw [ofName_eq_ok_iff.mpr rfl, Except.ok.injEq] at hself
  exact hself

theorem index_inj {kind kind' : ItemKind} (h : kind.index = kind'.index) : kind = kind' := by
  have hself := ofIndex_eq_ok_iff.mpr h
  rw [ofIndex_eq_ok_iff.mpr rfl, Except.ok.injEq] at hself
  exact hself

theorem index_lt (kind : ItemKind) : kind.index < 256 ^ 4 := by
  cases kind <;> decide

theorem expect_eq_ok_iff {wanted kind : ItemKind} {u : Unit} :
    wanted.expect kind = .ok u ↔ kind = wanted := by
  unfold expect
  split
  . next h => simp [h]
  . next h => simp [h]

end ItemKind

namespace Item

variable {α : Type} [Item α]

theorem ofDraft_eq_ok_iff {d : Json.Draft} {a : α} :
    ofDraft d = .ok a ↔ ∃ s, d = .object [(.text (some (kind α).name), .text (some s))] true ∧
      ofText s = .ok a := by
  constructor
  . intro h
    unfold ofDraft at h
    split at h
    . simp at h
    . next key value members isClosed =>
      simp only [bind_eq_ok_iff, liftFault_eq_ok_iff, ItemKind.ofName_eq_ok_iff,
        Draft.readText_eq_ok_iff] at h
      rcases h with ⟨_, ⟨_, rfl, rfl⟩, tag, rfl, h⟩
      split at h
      . simp at h
      . simp only [bind_eq_ok_iff, liftFault_eq_ok_iff, ItemKind.expect_eq_ok_iff,
          Draft.readText_eq_ok_iff, Draft.close_eq_ok_iff, Bool.and_eq_true, List.isEmpty_iff,
          pure_eq_ok, Except.ok.injEq] at h
        rcases h with ⟨_, htag, s, rfl, _, hs, _, ⟨rfl, rfl⟩, rfl⟩
        rw [htag]
        exact ⟨s, rfl, hs⟩
    . simp at h
  . rintro ⟨s, rfl, hs⟩
    have hname : ItemKind.ofName (kind α).name = .ok (kind α) := ItemKind.ofName_eq_ok_iff.mpr rfl
    have hkind : (kind α).expect (kind α) = .ok () := ItemKind.expect_eq_ok_iff.mpr rfl
    simp [ofDraft, Draft.readText, Draft.close, hname, hkind, hs, liftFault]

theorem ofJson_eq_ok_iff {text : String} {a : α} :
    ofJson text = .ok a ↔ ∃ s, Json.Value.ofText? text = some (.object [((kind α).name, .text s)]) ∧
      ofText s = .ok a := by
  unfold ofJson Json.Value.ofText?
  rcases Json.Draft.ofText text with ⟨d, rest⟩
  simp only [bind_eq_ok_iff, Draft.close_eq_ok_iff, List.isEmpty_iff, pure_eq_ok, Except.ok.injEq]
  cases rest with
  | nil =>
    simp only [Json.Draft.value?_eq_some_member_iff, exists_const, true_and, exists_eq_right]
    exact ofDraft_eq_ok_iff
  | cons t rest => simp

theorem readCompact_eq_ok_iff {bs rest : Bytes} {a : α} :
    readCompact bs = .ok (a, rest) ↔ ∃ data : Bytes, data.length < 256 ^ 8 ∧
      bs = Bytes.littleEndian 4 (kind α).index ++ Compact.writeBlob data ++ rest ∧
      ofBytes data = .ok a := by
  unfold readCompact
  simp only [bind_eq_ok_iff, Prod.exists, Compact.readNatural_eq_ok_iff, liftFault_eq_ok_iff,
    ItemKind.ofIndex_eq_ok_iff, ItemKind.expect_eq_ok_iff, Compact.readBlob_eq_ok_iff, pure_eq_ok,
    Except.ok.injEq, Prod.mk.injEq]
  constructor
  . rintro ⟨_, _, ⟨_, rfl⟩, tag, rfl, _, htag, data, _, ⟨hdata, rfl⟩, _, hread, rfl, rfl⟩
    rw [htag, ← List.append_assoc]
    exact ⟨data, hdata, rfl, hread⟩
  . rintro ⟨data, hdata, rfl, hread⟩
    rw [List.append_assoc]
    exact ⟨_, _, ⟨(kind α).index_lt, rfl⟩, kind α, rfl, (), rfl, data, rest, ⟨hdata, rfl⟩, a, hread,
      rfl, rfl⟩

theorem ofCompact_eq_ok_iff {bs : Bytes} {a : α} :
    ofCompact bs = .ok a ↔ ∃ data rest : Bytes, data.length < 256 ^ 8 ∧
      bs = Bytes.littleEndian 4 (kind α).index ++ Compact.writeBlob data ++ rest ∧
      ofBytes data = .ok a := by
  simp only [ofCompact, bind_eq_ok_iff, Prod.exists, pure_eq_ok, Except.ok.injEq]
  constructor
  . rintro ⟨_, rest, hread, rfl⟩
    rcases readCompact_eq_ok_iff.mp hread with ⟨data, hdata, hbs, hok⟩
    exact ⟨data, rest, hdata, hbs, hok⟩
  . rintro ⟨data, rest, hdata, hbs, hok⟩
    exact ⟨a, rest, readCompact_eq_ok_iff.mpr ⟨data, hdata, hbs, hok⟩, rfl⟩

theorem ofJson_eq_ok_iff_ofText {text s : String}
    (h : Json.Value.ofText? text = some (.object [((kind α).name, .text s)])) {a : α} :
    ofJson text = .ok a ↔ ofText s = .ok a := by
  rw [ofJson_eq_ok_iff, h]
  simp

theorem ofText?_toText_member (key s : String) :
    Json.Value.ofText? (Json.Value.toText (.object [(key, .text s)])) =
      some (.object [(key, .text s)]) := by
  apply Json.Value.ofText?_toText
  apply Json.Value.IsExact.object
  simp only [List.forall_mem_cons, List.not_mem_nil, false_implies, implies_true, and_true]
  exact .text s

theorem ofJson_toJson_eq_ok_iff {a b : α} :
    ofJson (toJson a) = .ok b ↔ ofText (toText a) = .ok b := by
  exact ofJson_eq_ok_iff_ofText (ofText?_toText_member (kind α).name (toText a))

theorem ofCompact_toCompact_of_lt {a : α} (hlt : (toBytes a).length < 256 ^ 8)
    (h : ofBytes (toBytes a) = .ok a) : ofCompact (Serial.toCompact a) = .ok a := by
  rw [ofCompact_eq_ok_iff]
  refine ⟨toBytes a, [], hlt, ?_, h⟩
  rw [List.append_nil]
  rfl

variable {β : Type} [Item β]

/-- The tags tell items of two kinds apart. -/
theorem ofJson_ne_ok (hkind : kind α ≠ kind β) {text : String} {a : α} (h : ofJson text = .ok a)
    (b : β) : ofJson text ≠ .ok b := by
  intro h'
  rcases ofJson_eq_ok_iff.mp h with ⟨s, hvalue, _⟩
  rcases ofJson_eq_ok_iff.mp h' with ⟨s', hvalue', _⟩
  rw [hvalue, Option.some.injEq, Json.Value.object.injEq, List.cons.injEq, Prod.mk.injEq] at hvalue'
  exact hkind (ItemKind.name_inj hvalue'.1.1)

theorem ofCompact_ne_ok (hkind : kind α ≠ kind β) {bs : Bytes} {a : α} (h : ofCompact bs = .ok a)
    (b : β) : ofCompact bs ≠ .ok b := by
  intro h'
  rcases ofCompact_eq_ok_iff.mp h with ⟨data, rest, _, hbs, _⟩
  rcases ofCompact_eq_ok_iff.mp h' with ⟨data', rest', _, hbs', _⟩
  rw [hbs, List.append_assoc, List.append_assoc] at hbs'
  have hindex := congrArg Bytes.toNatLE (List.append_inj_left hbs' (by simp))
  rw [Bytes.toNatLE_littleEndian, Bytes.toNatLE_littleEndian, Nat.mod_eq_of_lt (kind α).index_lt,
    Nat.mod_eq_of_lt (kind β).index_lt] at hindex
  exact hkind (ItemKind.index_inj hindex)

end Item

end Serial

namespace Key

open Serial

theorem length_flatMap_field_le {fields : List Bytes}
    (h : ∀ field ∈ fields, field.length < 256 ^ 4) :
    (fields.flatMap Bytes.field).length ≤ fields.length * (256 ^ 4 + 3) := by
  induction fields with
  | nil => simp
  | cons field fields ih =>
    rw [List.forall_mem_cons] at h
    have hrest := ih h.2
    have hfirst := h.1
    rw [List.flatMap_cons, List.length_append, Bytes.field, List.length_append,
      Bytes.length_bigEndian, List.length_cons]
    omega

theorem length_encode_lt {k : Key} (h : k.ShortFields) : k.encode.length < 256 ^ 8 := by
  have hfields := length_flatMap_field_le h
  have hcount : k.fields.length ≤ 5 := by
    cases k <;> simp [fields]
  rw [encode, List.length_cons]
  omega

theorem decode_encode_of_decode_eq_ok {bs : Bytes} {k : Key} (h : decode bs = .ok k) :
    decode k.encode = .ok k := by
  exact decode_encode_of_loadable (shortFields_of_decode_eq_ok h) (loadable_of_decode_eq_ok h)

theorem ofText_eq_ok_iff {s : String} {k : Key} :
    Item.ofText s = .ok k ↔ ∃ bs, s = Text.Base64.standard.encode bs ∧ decode bs = .ok k := by
  have hread : ∀ bs, Text.Base64.standard.decode? s = some bs ↔
      s = Text.Base64.standard.encode bs := by
    intro bs
    rw [Text.Base64.Spelling.decode?_eq_some_iff Text.Base64.Spelling.lawful_standard, eq_comm]
  simp only [← hread, Item.ofText]
  cases Text.Base64.standard.decode? s with
  | none => simp
  | some bs => simp [liftError_eq_ok_iff]

end Key

namespace KeyHash

open Serial

theorem ofText_eq_ok_iff {s : String} {h : KeyHash} :
    Item.ofText s = .ok h ↔ s = Text.Base58.encode h.bytes := by
  change liftError (ofBase58 s) = .ok h ↔ _
  rw [liftError_eq_ok_iff, ofBase58_eq_ok_iff]
  constructor
  . intro hread
    rw [Text.Base58.encode_of_decode?_eq_some hread]
  . rintro rfl
    exact Text.Base58.decode?_encode h.bytes

theorem ofBytes_bytes (h : KeyHash) : ofBytes h.bytes = .ok h := by
  rw [ofBytes_of_length_eq h.length_bytes]

end KeyHash

/-- Key hashes and keys are read back from both of their forms. A JSON text is read as one of them
only if its value is an object with one text under the tag, which has to be what writes the key hash
or a byte string that decodes to the key, and no form is read as both. -/
theorem Serial.Item.forms_told_apart :
    (∀ h : KeyHash, ofJson (toJson h) = .ok h ∧ ofCompact (Serial.toCompact h) = .ok h) ∧
    (∀ bs (k : Key), Key.decode bs = .ok k →
      ofJson (toJson k) = .ok k ∧ ofCompact (Serial.toCompact k) = .ok k) ∧
    (∀ text (h : KeyHash) (k : Key), ¬(ofJson text = .ok h ∧ ofJson text = .ok k)) ∧
    (∀ bs (h : KeyHash) (k : Key), ¬(ofCompact bs = .ok h ∧ ofCompact bs = .ok k)) ∧
    (∀ text s, Json.Value.ofText? text = some (.object [("Key", .text s)]) → ∀ k : Key,
      ofJson text = .ok k ↔ ∃ bs, s = Text.Base64.standard.encode bs ∧ Key.decode bs = .ok k) ∧
    (∀ text s, Json.Value.ofText? text = some (.object [("KeyHash", .text s)]) → ∀ h : KeyHash,
      ofJson text = .ok h ↔ ∃ bs, bs.length = 4 ∧ s = Text.Base58.encode bs ∧ h.bytes = bs) ∧
    (∀ text (k : Key), ofJson text = .ok k →
      ∃ s, Json.Value.ofText? text = some (.object [("Key", .text s)])) ∧
    (∀ text (h : KeyHash), ofJson text = .ok h →
      ∃ s, Json.Value.ofText? text = some (.object [("KeyHash", .text s)])) := by
  have hkind : kind KeyHash ≠ kind Key := by decide
  refine ⟨?_, ?_, ?_, ?_, ?_, ?_, ?_, ?_⟩
  . intro h
    refine ⟨ofJson_toJson_eq_ok_iff.mpr (KeyHash.ofText_eq_ok_iff.mpr rfl), ?_⟩
    apply ofCompact_toCompact_of_lt
    . exact Nat.lt_of_le_of_lt (Nat.le_of_eq h.length_bytes) (by decide)
    . exact liftError_eq_ok_iff.mpr h.ofBytes_bytes
  . intro bs k h
    have hagain := Key.decode_encode_of_decode_eq_ok h
    constructor
    . exact ofJson_toJson_eq_ok_iff.mpr (Key.ofText_eq_ok_iff.mpr ⟨k.encode, rfl, hagain⟩)
    . apply ofCompact_toCompact_of_lt
      . exact Key.length_encode_lt (Key.shortFields_of_decode_eq_ok h)
      . exact liftError_eq_ok_iff.mpr hagain
  . rintro text h k ⟨hhash, hkey⟩
    exact ofJson_ne_ok hkind hhash k hkey
  . rintro bs h k ⟨hhash, hkey⟩
    exact ofCompact_ne_ok hkind hhash k hkey
  . intro text s hvalue k
    rw [← Key.ofText_eq_ok_iff]
    exact ofJson_eq_ok_iff_ofText hvalue
  . intro text s hvalue h
    refine (ofJson_eq_ok_iff_ofText hvalue).trans ?_
    rw [KeyHash.ofText_eq_ok_iff]
    constructor
    . intro hs
      exact ⟨h.bytes, h.length_bytes, hs, rfl⟩
    . rintro ⟨_, _, hs, rfl⟩
      exact hs
  . intro text k h
    rcases ofJson_eq_ok_iff.mp h with ⟨s, hvalue, _⟩
    exact ⟨s, hvalue⟩
  . intro text h hread
    rcases ofJson_eq_ok_iff.mp hread with ⟨s, hvalue, _⟩
    exact ⟨s, hvalue⟩

/-- The JSON form of a key that is encoded with a leading zero byte. -/
def paddedKeyJson : String :=
  Json.Value.toText (.object [("Key", .text (Text.Base64.standard.encode Key.padded))])

theorem Serial.Item.forms_told_apart_padded :
    ofJson "\x7b\"KeyHash\":\"115R\"\x7d" = .ok KeyHash.zeroEnded ∧
      (∀ k : Key, ofJson "\x7b\"KeyHash\":\"115R\"\x7d" ≠ .ok k) ∧
      ofJson paddedKeyJson = .ok (Key.dsaPublic Key.smallDsa) ∧
      (∀ h : KeyHash, ofJson paddedKeyJson ≠ .ok h) ∧
      ofJson (toJson (Key.dsaPublic Key.smallDsa)) = .ok (Key.dsaPublic Key.smallDsa) ∧
      ofCompact (Serial.toCompact (Key.dsaPublic Key.smallDsa)) =
        .ok (Key.dsaPublic Key.smallDsa) ∧
      ∀ h : KeyHash, ofCompact (Serial.toCompact (Key.dsaPublic Key.smallDsa)) ≠ .ok h := by
  have hjson : toJson KeyHash.zeroEnded = "\x7b\"KeyHash\":\"115R\"\x7d" := by decide +kernel
  rcases forms_told_apart with ⟨hhash, hkey, hjsons, hcompacts, hkeyText, _⟩
  have hread := (hhash KeyHash.zeroEnded).1
  rw [hjson] at hread
  have hpadded : ofJson paddedKeyJson = .ok (Key.dsaPublic Key.smallDsa) := by
    rw [paddedKeyJson, hkeyText _ _ (ofText?_toText_member "Key" _)]
    exact ⟨Key.padded, rfl, Key.decode_padded⟩
  rcases hkey _ _ Key.decode_padded with ⟨hsmall, hsmall'⟩
  refine ⟨hread, ?_, hpadded, ?_, hsmall, hsmall', ?_⟩
  . intro k hk
    exact hjsons _ _ _ ⟨hread, hk⟩
  . intro h hh
    exact hjsons _ _ _ ⟨hh, hpadded⟩
  . intro h hh
    exact hcompacts _ _ _ ⟨hh, hsmall'⟩

end Keyring
