import Keyring.Serial.Refusal
/-!
This module contains the reading of numbers, texts, truth values, choices and the members of objects
out of drafts of JSON texts. Everything is read in the order of the text, so the first fault wins.
-/

namespace Keyring.Serial.Draft

open Json (Draft)

def readNatural (expected : String) (bound : Nat) : Draft → Except Refusal Nat
  | .number (some (.natural n)) =>
    if n < bound then .ok n else .error (.fault (.invalidValue (.integer n) expected))
  | .number (some (.negative n)) => .error (.fault (.invalidValue (.integer (-n)) expected))
  | d => .error (unexpected expected d)

def readUInt32 (d : Draft) : Except Refusal UInt32 :=
  UInt32.ofNat <$> readNatural "u32" UInt32.size d

def readUInt64 (d : Draft) : Except Refusal UInt64 :=
  UInt64.ofNat <$> readNatural "usize" UInt64.size d

def readText (expected : String) : Draft → Except Refusal String
  | .text (some s) => .ok s
  | d => .error (unexpected expected d)

def readBool : Draft → Except Refusal Bool
  | .boolean b => .ok b
  | d => .error (unexpected "a boolean" d)

/-- Reads nothing, which is written as null. -/
def readUnit : Draft → Except Refusal Unit
  | .null => .ok ()
  | d => .error (unexpected "unit" d)

/-- Checks that a value that is not read is JSON. -/
def skip (d : Draft) : Except Refusal Unit :=
  if d.isComplete then .ok () else .error .malformed

/-- Checks that an array or object goes on to its end. -/
def close (isClosed : Bool) : Except Refusal Unit :=
  if isClosed then .ok () else .error .malformed

/-- Reads a choice, either as its name or as an object whose one member leads from its name to
nothing. -/
def readChoice {α : Type} [Choice α] : Draft → Except Refusal α
  | .text (some name) => liftFault (choiceOfName name)
  | .object ((key, value) :: members) isClosed => do
    let a ← liftFault (choiceOfName (← readText "variant identifier" key))
    readUnit value
    close (isClosed && members.isEmpty)
    return a
  | _ => .error .malformed

/-- Goes through the members of an object. A key has to be a text. -/
def readMembers {σ : Type} (read : σ → String → Draft → Except Refusal σ) (isClosed : Bool) :
    σ → List (Draft × Draft) → Except Refusal σ
  | s, [] => do
    close isClosed
    return s
  | s, (.text (some key), value) :: members => do
    readMembers read isClosed (← read s key value) members
  | _, _ => .error .malformed

/-- Reads a member that may come once. -/
def readOnce {α : Type} (name : String) (before : Option α) (read : Draft → Except Refusal α)
    (d : Draft) : Except Refusal (Option α) :=
  if before.isSome then
    .error (.fault (.duplicateField name))
  else
    some <$> read d

/-- The value of a member that has to come. -/
def required {α : Type} (name : String) : Option α → Except Refusal α
  | some a => .ok a
  | none => .error (.fault (.missingField name))

/-- Splits the item at a position off the front of an array. -/
def nextItem (expected : String) (position : Nat) (isClosed : Bool) :
    List Draft → Except Refusal (Draft × List Draft)
  | d :: items => .ok (d, items)
  | [] => do
    close isClosed
    throw (.fault (.invalidLength position expected))

/-- Checks that an array has no more items. -/
def endItems (isClosed : Bool) (items : List Draft) : Except Refusal Unit :=
  close (isClosed && items.isEmpty)

end Keyring.Serial.Draft
