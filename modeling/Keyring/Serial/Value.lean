import Keyring.Serial.Config
/-!
This module contains the reading of choices and settings out of JSON values. Unlike a text, a value
has its members under distinct keys and in the order of the keys.
-/

namespace Keyring

namespace Json.Value

/-- Puts a member into its place among sorted members. It takes the place of one with its key. -/
def insertMember (key : String) (value : Draft) : List (String × Draft) → List (String × Draft)
  | [] => [(key, value)]
  | member :: members =>
    if key < member.1 then (key, value) :: member :: members
    else if key = member.1 then (key, value) :: members
    else member :: insertMember key value members

mutual

/-- The draft that a value is. Of several members with one key the last one counts. -/
def toDraft : Value → Draft
  | .null => .null
  | .boolean b => .boolean b
  | .number n => .number (some n)
  | .text s => .text (some s)
  | .array items => .array (itemDrafts items) true
  | .object members =>
    .object ((memberDrafts members []).map fun (key, value) => (.text (some key), value)) true

def itemDrafts : List Value → List Draft
  | [] => []
  | item :: items => item.toDraft :: itemDrafts items

/-- The sorted members, together with others before them. -/
def memberDrafts : List (String × Value) → List (String × Draft) → List (String × Draft)
  | [], before => before
  | (key, value) :: members, before =>
    memberDrafts members (insertMember key value.toDraft before)

end

end Json.Value

namespace Serial

/-- Checks that a value has the form of a choice. -/
def checkChoice : Json.Draft → Except Refusal Unit
  | .text _ => .ok ()
  | .object [_] _ => .ok ()
  | .object _ _ => .error (.fault (.invalidValue .map "map with a single key"))
  | d => .error (unexpected "string or map" d)

def choiceOfValue {α : Type} [Choice α] (value : Json.Value) : Except Refusal α := do
  checkChoice value.toDraft
  Draft.readChoice value.toDraft

end Serial

namespace Config

open Serial

def readValueMember (s : Draft) (key : String) (d : Json.Draft) : Except Refusal Draft := do
  if key = "encoding" ∨ key = "compression" then
    checkChoice d
  readMember s key d

/-- Reads settings out of a value. What is not given has its default. -/
def ofValue (value : Json.Value) : Except Refusal Config :=
  match value.toDraft with
  | .object members isClosed =>
    ofMembers <$> Draft.readMembers readValueMember isClosed {} members
  | .array items _ => do
    let s ← (memberNames.zip items).foldlM (fun s (key, d) => readValueMember s key d) {}
    if memberNames.length < items.length then
      throw (.fault (.invalidLength items.length "fewer elements in array"))
    return ofMembers s
  | d => .error (unexpected "struct KeysetConfig" d)

end Config

end Keyring
