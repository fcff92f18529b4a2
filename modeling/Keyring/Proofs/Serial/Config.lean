import Keyring.Proofs.Serial.Basic
import Keyring.Serial.Config
/-!
This module contains the reading of settings member by member. Each member of an object that has a
known name gives its own part of the settings, wherever it stands, all other members are passed over,
and no known name can come twice.
-/

namespace Keyring

open Serial

instance : LawfulChoice Encoding where
  mem_all e := by cases e <;> decide
  nodup_names := by decide
  length_all_lt := by decide

instance : LawfulChoice Compression where
  mem_all c := by cases c <;> decide
  nodup_names := by decide
  length_all_lt := by decide

namespace Config

open Json (Token)
open Json.Draft (named)

variable {c : Config} {s s' : Draft} {name key : String} {d : Json.Draft} {done : List String}
  {isClosed : Bool}

/-- The members of settings and the values that they are written as. -/
def members (c : Config) : List (String × Json.Value) := [
  ("aes_key_bits", .number (.natural c.aesKeyBits.toNat)),
  ("hmac_key_bits", .number (.natural c.hmacKeyBits.toNat)),
  ("rsa_key_bits", .number (.natural c.rsaKeyBits.toNat)),
  ("dsa_key_bits", .number (.natural c.dsaKeyBits.toNat)),
  ("max_generation_attempts", .number (.natural c.maxGenerationAttempts.toNat)),
  ("encoding", .text (Choice.name c.encoding)),
  ("compression", .text (Choice.name c.compression))]

theorem toValue_eq (c : Config) : c.toValue = .object c.members := by
  rfl

theorem map_fst_members (c : Config) : c.members.map (·.1) = memberNames := by
  rfl

/-- The settings that have the members of `c` under some names and the default for all others. -/
def restrict (c : Config) (names : List String) : Config :=
  let default : Config := {}
  { aesKeyBits := if "aes_key_bits" ∈ names then c.aesKeyBits else default.aesKeyBits
    hmacKeyBits := if "hmac_key_bits" ∈ names then c.hmacKeyBits else default.hmacKeyBits
    rsaKeyBits := if "rsa_key_bits" ∈ names then c.rsaKeyBits else default.rsaKeyBits
    dsaKeyBits := if "dsa_key_bits" ∈ names then c.dsaKeyBits else default.dsaKeyBits
    maxGenerationAttempts :=
      if "max_generation_attempts" ∈ names then c.maxGenerationAttempts
      else default.maxGenerationAttempts
    encoding := if "encoding" ∈ names then c.encoding else default.encoding
    compression := if "compression" ∈ names then c.compression else default.compression }

/-- What has been read once the members of `c` under some names have. -/
def draft (c : Config) (names : List String) : Draft where
  aesKeyBits := if "aes_key_bits" ∈ names then some c.aesKeyBits else none
  hmacKeyBits := if "hmac_key_bits" ∈ names then some c.hmacKeyBits else none
  rsaKeyBits := if "rsa_key_bits" ∈ names then some c.rsaKeyBits else none
  dsaKeyBits := if "dsa_key_bits" ∈ names then some c.dsaKeyBits else none
  maxGenerationAttempts :=
    if "max_generation_attempts" ∈ names then some c.maxGenerationAttempts else none
  encoding := if "encoding" ∈ names then some c.encoding else none
  compression := if "compression" ∈ names then some c.compression else none

theorem getD_ite_some {α : Type} (p : Prop) [Decidable p] (a b : α) :
    (if p then some a else none).getD b = if p then a else b := by
  split <;> rfl

theorem ofMembers_draft (c : Config) (names : List String) :
    ofMembers (c.draft names) = c.restrict names := by
  simp only [ofMembers, draft, restrict, getD_ite_some]

/-- Members that give parts of `c`. Under its names they have its values, each name at most once, and
under other names there may be anything. -/
structure Gives (members : List (String × Json.Draft)) (c : Config) : Prop where
  values : ∀ m ∈ members, ∀ value, (m.1, value) ∈ c.members → m.2 = Json.Draft.ofValue value
  once : members.Pairwise fun m m' => m.1 ∈ memberNames → m'.1 ≠ m.1

theorem readMember_of_mem {value : Json.Value} (hvalue : (key, value) ∈ c.members)
    (hnew : key ∉ done) :
    readMember (c.draft done) key (Json.Draft.ofValue value) = .ok (c.draft (done ++ [key])) := by
  simp only [members, List.mem_cons, Prod.mk.injEq, List.not_mem_nil, or_false] at hvalue
  rcases hvalue with ⟨rfl, rfl⟩ | ⟨rfl, rfl⟩ | ⟨rfl, rfl⟩ | ⟨rfl, rfl⟩ | ⟨rfl, rfl⟩ | ⟨rfl, rfl⟩ |
    ⟨rfl, rfl⟩
  all_goals
    simp [readMember, draft, Draft.readOnce, hnew, Json.Draft.ofValue, readUInt64_number,
      readUInt32_number, readChoice_text]

theorem readMember_of_not_mem (hkey : key ∉ memberNames) (hd : d.isComplete) :
    readMember s key d = .ok s := by
  unfold readMember
  split
  case h_8 => rw [Draft.skip, if_pos hd]; rfl
  all_goals exact absurd (by decide) hkey

theorem draft_append_of_not_mem (hkey : key ∉ memberNames) :
    c.draft (done ++ [key]) = c.draft done := by
  have hne : ∀ name ∈ memberNames, name ∈ done ++ [key] ↔ name ∈ done := by
    intro name hname
    rw [List.mem_append, List.mem_singleton, or_iff_left]
    rintro rfl
    exact hkey hname
  simp only [memberNames, List.forall_mem_cons] at hne
  simp only [draft, hne]

theorem mem_memberNames_iff : name ∈ memberNames ↔ ∃ value, (name, value) ∈ c.members := by
  simp [← map_fst_members c]

/-- Members are read into the draft one after the other. -/
theorem Gives.readMembers_append {members : List (String × Json.Draft)} (h : Gives members c)
    (hjson : ∀ m ∈ members, m.2.isComplete) (hnew : ∀ m ∈ members, m.1 ∈ memberNames → m.1 ∉ done)
    (rest : List (Json.Draft × Json.Draft)) :
    Draft.readMembers readMember isClosed (c.draft done) (named members ++ rest) =
      Draft.readMembers readMember isClosed (c.draft (done ++ members.map (·.1))) rest := by
  -- the names that are done grow, so those to come have to be other names at every step
  induction members generalizing done with
  | nil => rw [List.map_nil, List.append_nil]; rfl
  | cons m members ih =>
    rcases h with ⟨hvalues, honce⟩
    rw [List.forall_mem_cons] at hjson hvalues hnew
    rw [List.pairwise_cons] at honce
    have hread : readMember (c.draft done) m.1 m.2 = .ok (c.draft (done ++ [m.1])) := by
      by_cases hm : m.1 ∈ memberNames
      . rcases mem_memberNames_iff.mp hm with ⟨value, hvalue⟩
        rw [hvalues.1 value hvalue, readMember_of_mem hvalue (hnew.1 hm)]
      . rw [readMember_of_not_mem hm hjson.1, draft_append_of_not_mem hm]
    have hlater : ∀ m' ∈ members, m'.1 ∈ memberNames → m'.1 ∉ done ++ [m.1] := by
      intro m' hm' hname hdone
      rw [List.mem_append, List.mem_singleton] at hdone
      rcases hdone with hdone | heq
      . exact hnew.2 m' hm' hname hdone
      . exact honce.1 m' hm' (heq ▸ hname) heq
    have hmembers := ih ⟨hvalues.2, honce.2⟩ hjson.2 hlater
    rw [List.append_assoc, List.singleton_append] at hmembers
    rw [List.map_cons, ← hmembers, named, List.map_cons, List.cons_append, Draft.readMembers, hread]
    rfl

namespace Draft

/-- Whether a member has been read. -/
def Has (s : Draft) (name : String) : Prop :=
  name = "aes_key_bits" ∧ s.aesKeyBits.isSome ∨ name = "hmac_key_bits" ∧ s.hmacKeyBits.isSome ∨
    name = "rsa_key_bits" ∧ s.rsaKeyBits.isSome ∨ name = "dsa_key_bits" ∧ s.dsaKeyBits.isSome ∨
    name = "max_generation_attempts" ∧ s.maxGenerationAttempts.isSome ∨
    name = "encoding" ∧ s.encoding.isSome ∨ name = "compression" ∧ s.compression.isSome

end Draft

theorem readMember_of_has (h : s.Has key) :
    readMember s key d = .error (.fault (.duplicateField key)) := by
  rcases h with ⟨rfl, h⟩ | ⟨rfl, h⟩ | ⟨rfl, h⟩ | ⟨rfl, h⟩ | ⟨rfl, h⟩ | ⟨rfl, h⟩ | ⟨rfl, h⟩
  all_goals
    simp [readMember, Draft.readOnce, h]

theorem isSome_of_readOnce {α : Type} {before after : Option α} {read : Json.Draft → Except Refusal α}
    (h : Draft.readOnce name before read d = .ok after) : after.isSome := by
  rw [Draft.readOnce, ite_error_eq_ok_iff] at h
  cases hread : read d with
  | error refusal => simp [hread] at h
  | ok a =>
    rw [hread] at h
    rw [← Except.ok.inj h.2]
    rfl

theorem has_of_readMember (h : readMember s key d = .ok s')
    (hname : s.Has name ∨ name = key ∧ key ∈ memberNames) : s'.Has name := by
  unfold readMember at h
  split at h
  all_goals
    simp only [bind_eq_ok_iff, pure_eq_ok, Except.ok.injEq] at h
    rcases h with ⟨value, hvalue, rfl⟩
  case h_8 =>
    rcases hname with hname | ⟨rfl, hmem⟩
    . exact hname
    . simp_all [memberNames]
  -- a known name adds its own member and leaves all others
  all_goals
    have hsome := isSome_of_readOnce hvalue
    rcases hname with hname | ⟨rfl, hmem⟩
    . simp only [Draft.Has, hsome, and_true] at hname ⊢
      grind
    . simp [Draft.Has, hsome]

/-- Once a member has been read, no later one has its name. -/
theorem ne_of_readMembers {members : List (Json.Draft × Json.Draft)}
    (h : Draft.readMembers readMember isClosed s members = .ok s') (hname : s.Has name) :
    ∀ m ∈ members, m.1 ≠ .text (some name) := by
  induction members generalizing s with
  | nil => simp
  | cons m members ih =>
    rcases readMembers_cons_eq_ok_iff.mp h with ⟨key, t, hkey, hread, hrest⟩
    rw [List.forall_mem_cons, hkey]
    refine ⟨?_, ih hrest (has_of_readMember hread (.inl hname))⟩
    intro heq
    rw [Json.Draft.text.injEq, Option.some.injEq] at heq
    rw [heq, readMember_of_has hname] at hread
    cases hread

/-- No known name comes twice in members that are read. -/
theorem pairwise_of_readMembers {members : List (Json.Draft × Json.Draft)}
    (h : Draft.readMembers readMember isClosed s members = .ok s') :
    members.Pairwise fun m m' => ∀ name ∈ memberNames,
      m.1 = .text (some name) → m'.1 ≠ .text (some name) := by
  induction members generalizing s with
  | nil => exact .nil
  | cons m members ih =>
    rcases readMembers_cons_eq_ok_iff.mp h with ⟨key, t, hkey, hread, hrest⟩
    refine .cons ?_ (ih hrest)
    intro m' hm' name hname heq
    rw [hkey, Json.Draft.text.injEq, Option.some.injEq] at heq
    rw [heq] at hread
    exact ne_of_readMembers hrest (has_of_readMember hread (.inr ⟨rfl, hname⟩)) m' hm'

theorem has_draft (hname : name ∈ memberNames) (hdone : name ∈ done) : (c.draft done).Has name := by
  simp only [memberNames, List.mem_cons, List.not_mem_nil, or_false] at hname
  rcases hname with rfl | rfl | rfl | rfl | rfl | rfl | rfl
  all_goals
    simp [Draft.Has, draft, hdone]

theorem isExact_toValue (c : Config) : c.toValue.IsExact := by
  have hattempts : c.maxGenerationAttempts.toNat < UInt64.size :=
    Nat.lt_trans c.maxGenerationAttempts.toNat_lt (by decide)
  rw [toValue_eq]
  apply Json.Value.IsExact.object
  simp only [members, List.forall_mem_cons, List.not_mem_nil, false_implies, implies_true, and_true]
  exact ⟨.number c.aesKeyBits.toNat_lt, .number c.hmacKeyBits.toNat_lt,
    .number c.rsaKeyBits.toNat_lt, .number c.dsaKeyBits.toNat_lt, .number hattempts, .text _,
    .text _⟩

theorem ofDraft_ofValue (c : Config) : ofDraft (Json.Draft.ofValue c.toValue) = .ok c := by
  simp [ofDraft, toValue, Json.Draft.ofValue, Json.Draft.ofMembers, Draft.readMembers, readMember,
    Draft.readOnce, readUInt32_number, readUInt64_number, readChoice_text, Draft.close, ofMembers]

theorem readCompact_append (c : Config) (rest : Bytes) :
    readCompact (toCompact c ++ rest) = .ok (c, rest) := by
  simp only [readCompact, toCompact, List.append_assoc, Compact.readUInt64_append,
    Compact.readUInt32_append, Compact.readChoice_append, ok_bind, pure_eq_ok]

instance : LawfulSerial Config :=
  ⟨isExact_toValue, ofDraft_ofValue, readCompact_append⟩

theorem ofJson_eq_of_isWritten {members : List (Json.Draft × Json.Draft)} {text : String}
    (h : (Json.Draft.object members true).IsWritten text) :
    ofJson (α := Config) text = ofMembers <$> Draft.readMembers readMember true {} members := by
  exact ofJson_of_isWritten h

theorem Gives.ofJson_named_append {members : List (String × Json.Draft)} {text : String}
    {rest : List (Json.Draft × Json.Draft)} (h : Gives members c)
    (htext : (Json.Draft.object (named members ++ rest) true).IsWritten text) :
    ofJson (α := Config) text =
      ofMembers <$> Draft.readMembers readMember true (c.draft (members.map (·.1))) rest := by
  have hjson : ∀ m ∈ members, m.2.isComplete := by
    intro m hm
    have hmem : (.text (some m.1), m.2) ∈ named members ++ rest :=
      List.mem_append_left rest (List.mem_map_of_mem hm)
    exact htext.1.isComplete_of_mem _ hmem
  have hdraft : c.draft [] = {} := by simp [draft]
  rw [ofJson_eq_of_isWritten htext, ← hdraft, h.readMembers_append hjson (by simp),
    List.nil_append]

theorem Gives.ofJson_named {members : List (String × Json.Draft)} {text : String}
    (h : Gives members c) (htext : (Json.Draft.object (named members) true).IsWritten text) :
    ofJson text = .ok (c.restrict (members.map (·.1))) := by
  rw [← List.append_nil (named members)] at htext
  rw [h.ofJson_named_append htext, ← ofMembers_draft]
  rfl

theorem Gives.ofJson_duplicate {members : List (String × Json.Draft)} {text : String}
    {rest : List (Json.Draft × Json.Draft)} (h : Gives members c) (hname : name ∈ memberNames)
    (hmem : name ∈ members.map (·.1))
    (htext : (Json.Draft.object (named members ++ (.text (some name), d) :: rest) true).IsWritten
      text) :
    ofJson (α := Config) text = .error (.fault (.duplicateField name)) := by
  rw [h.ofJson_named_append htext, Draft.readMembers, readMember_of_has (has_draft hname hmem)]
  rfl

theorem exists_error_of_duplicate {before between after : List (Json.Draft × Json.Draft)}
    {d' : Json.Draft} {text : String} (hname : name ∈ memberNames)
    (htext : (Json.Draft.object (before ++ (.text (some name), d) ::
      (between ++ (.text (some name), d') :: after)) true).IsWritten text) :
    ∃ refusal, ofJson (α := Config) text = .error refusal := by
  rw [ofJson_eq_of_isWritten htext]
  cases hread : Draft.readMembers readMember true {} (before ++ (.text (some name), d) ::
      (between ++ (.text (some name), d') :: after)) with
  | error refusal => exact ⟨refusal, rfl⟩
  | ok s =>
    have honce := (List.pairwise_append.mp (pairwise_of_readMembers hread)).2.1
    have hlater := (List.pairwise_cons.mp honce).1 (.text (some name), d') (by simp)
    exact absurd rfl (hlater name hname rfl)

theorem validate_eq_ok_iff : c.validate = .ok () ↔ c.maxGenerationAttempts ≠ 0 := by
  rw [validate, ite_error_eq_ok_iff, and_iff_left rfl]

/-- Settings are read back from their text. An object with some of their members, each of them once,
in any order and among any other members, gives these members and the default for all others. An
object where a known name comes twice is refused, and the name is the fault if everything before it
is fine. Settings are valid exactly when a new key may be tried at all. -/
theorem json_read_by_member :
    (∀ c : Config, ofJson (toJson c) = .ok c) ∧
    (∀ (c : Config) (members : List (String × Json.Draft)) (text : String), Gives members c →
      (Json.Draft.object (named members) true).IsWritten text →
      ofJson text = .ok (c.restrict (members.map (·.1)))) ∧
    (∀ (name : String) (before between after : List (Json.Draft × Json.Draft))
      (d d' : Json.Draft) (text : String), name ∈ memberNames →
      (Json.Draft.object (before ++ (.text (some name), d) ::
        (between ++ (.text (some name), d') :: after)) true).IsWritten text →
      ∃ refusal, ofJson (α := Config) text = .error refusal) ∧
    (∀ (c : Config) (members : List (String × Json.Draft)) (name : String) (d : Json.Draft)
      (rest : List (Json.Draft × Json.Draft)) (text : String), Gives members c →
      name ∈ memberNames → name ∈ members.map (·.1) →
      (Json.Draft.object (named members ++ (.text (some name), d) :: rest) true).IsWritten text →
      ofJson (α := Config) text = .error (.fault (.duplicateField name))) ∧
    ∀ c : Config, c.validate = .ok () ↔ c.maxGenerationAttempts ≠ 0 := by
  refine ⟨ofJson_toJson, ?_, ?_, ?_, ?_⟩
  . intro c members text hgives htext
    exact hgives.ofJson_named htext
  . intro name before between after d d' text hname htext
    exact exists_error_of_duplicate hname htext
  . intro c members name d rest text hgives hname hmem htext
    exact hgives.ofJson_duplicate hname hmem htext
  . intro c
    exact validate_eq_ok_iff

/-- A value that is passed over, with a number and a text that have no value of their own. -/
def sampleNote : Json.Draft :=
  .array [.number (Json.Numeral.value? ⟨false, [1], none, some (false, [4, 0, 0])⟩),
    .text (Token.ofUnits? [0xd800])] true

def sampleMembers : List (String × Json.Draft) :=
  [("compression", .text (some "gzip")), ("note", sampleNote),
    ("rsa_key_bits", .number (some (.natural 1024)))]

/-- How a text with these members may start. -/
def sampleStart : String :=
  "\x7b \"compression\":\"gzip\",\n\"note\":[1e400,\"\\ud800\"],\"rsa_key_bits\":1024"

theorem gives_sampleMembers :
    Gives sampleMembers { rsaKeyBits := 1024, compression := .gzip } where
  values := by simp [sampleMembers, members, Json.Draft.ofValue, Choice.name]
  once := by simp [sampleMembers, memberNames]

theorem isJson_sampleMembers : ∀ m ∈ sampleMembers, m.2.IsJson := by
  have hnote : sampleNote.IsJson := by
    apply Json.Draft.IsJson.array
    simp only [List.forall_mem_cons, List.not_mem_nil, false_implies, implies_true, and_true]
    exact ⟨.number _, .text _⟩
  simp only [sampleMembers, List.forall_mem_cons, List.not_mem_nil, false_implies, implies_true,
    and_true]
  exact ⟨.text _, hnote, .number _⟩

theorem writesAll_sampleStart {tokens : List Token} {rest : List Char}
    (hends : Token.EndsNumber rest) (hrest : Token.WritesAll tokens rest) :
    Token.WritesAll (.openBrace :: Json.Draft.memberTokens (named sampleMembers) ++ tokens)
      (sampleStart.toList ++ rest) := by
  have hwhole : Token.IsWhole ['1'] := ⟨⟨by simp, by simp⟩, by simp⟩
  have hdigits : Token.IsDigits ['4', '0', '0'] := ⟨by simp, by simp⟩
  have hlarge : Token.WritesNumeral false _ ['1', 'e', '4', '0', '0'] :=
    .mk hwhole .absent (.present (.inl rfl) .absent hdigits)
  have hhalf : Token.WritesUnits [0xd800] ['\\', 'u', 'd', '8', '0', '0'] :=
    .cons (.unit rfl) .nil
  have hbits : (Json.Number.natural 1024).IsExact := by
    unfold Json.Number.IsExact
    decide
  have hchars : sampleStart.toList =
      '{' :: ' ' :: (Json.Value.quote "compression" ++ ':' :: (Json.Value.quote "gzip" ++ ',' :: '\n' ::
        (Json.Value.quote "note" ++ ':' :: '[' :: (['1', 'e', '4', '0', '0'] ++ ',' ::
          ('"' :: ['\\', 'u', 'd', '8', '0', '0'] ++ ['"'] ++ ']' :: ',' ::
            (Json.Value.quote "rsa_key_bits" ++ ':' :: Nat.toDigits 10 1024)))))) := by
    decide
  rw [hchars]
  simp only [List.cons_append, List.append_assoc]
  apply Token.WritesAll.symbol .openBrace trivial
  apply Token.WritesAll.blank rfl
  apply Token.WritesAll.cons (Token.writes_quote "compression") trivial
  apply Token.WritesAll.symbol .colon trivial
  apply Token.WritesAll.cons (Token.writes_quote "gzip") trivial
  apply Token.WritesAll.symbol .comma trivial
  apply Token.WritesAll.blank rfl
  apply Token.WritesAll.cons (Token.writes_quote "note") trivial
  apply Token.WritesAll.symbol .colon trivial
  apply Token.WritesAll.symbol .openBracket trivial
  apply Token.WritesAll.cons (.positive hlarge) (Token.endsNumber_cons.mpr (by decide))
  apply Token.WritesAll.symbol .comma trivial
  apply Token.WritesAll.cons (.text hhalf) trivial
  apply Token.WritesAll.symbol .closeBracket trivial
  apply Token.WritesAll.symbol .comma trivial
  apply Token.WritesAll.cons (Token.writes_quote "rsa_key_bits") trivial
  apply Token.WritesAll.symbol .colon trivial
  exact .cons (Token.writes_numberChars hbits) hends hrest

theorem json_read_by_member_sample :
    ofJson (sampleStart ++ "\x7d") =
        .ok ({ rsaKeyBits := 1024, compression := .gzip } : Config) ∧
      ofJson (α := Config) (sampleStart ++ ",\"rsa_key_bits\":null\x7d") =
        .error (.fault (.duplicateField "rsa_key_bits")) := by
  have hclosed : (Json.Draft.object (named sampleMembers) true).IsWritten
      (sampleStart ++ "\x7d") := by
    refine ⟨Json.Draft.isJson_named isJson_sampleMembers, ?_⟩
    rw [String.toList_append]
    apply writesAll_sampleStart (Token.endsNumber_cons.mpr (by decide))
    exact .symbol .closeBrace trivial .nil
  have hrepeated : (Json.Draft.object
      (named sampleMembers ++ [(.text (some "rsa_key_bits"), .null)]) true).IsWritten
      (sampleStart ++ ",\"rsa_key_bits\":null\x7d") := by
    have hchars : ",\"rsa_key_bits\":null\x7d".toList =
        ',' :: (Json.Value.quote "rsa_key_bits" ++ ':' :: (['n', 'u', 'l', 'l'] ++ ['}'])) := by
      decide
    have hjson : ∀ m ∈ sampleMembers ++ [("rsa_key_bits", .null)], m.2.IsJson := by
      rw [List.forall_mem_append, List.forall_mem_singleton]
      exact ⟨isJson_sampleMembers, .null⟩
    refine ⟨Json.Draft.isJson_named hjson, ?_⟩
    rw [String.toList_append, hchars]
    apply writesAll_sampleStart (Token.endsNumber_cons.mpr (by decide))
    apply Token.WritesAll.symbol .comma trivial
    apply Token.WritesAll.cons (Token.writes_quote "rsa_key_bits") trivial
    apply Token.WritesAll.symbol .colon trivial
    exact .cons .null trivial (.symbol .closeBrace trivial .nil)
  rcases json_read_by_member with ⟨_, hparts, _, hfault, _⟩
  refine ⟨?_, ?_⟩
  . exact hparts _ _ _ gives_sampleMembers hclosed
  . exact hfault _ _ _ _ _ _ gives_sampleMembers (by decide) (by decide) hrepeated

end Config

end Keyring
