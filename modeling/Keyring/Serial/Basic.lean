import Keyring.Serial.Compact
import Keyring.Serial.Draft
/-!
This module contains the class of types that are written and read in two forms, JSON text for people
and a compact form in bytes, and the instance for choices.
-/

namespace Keyring

class Serial (α : Type) where
  toValue : α → Json.Value
  ofDraft : Json.Draft → Except Serial.Refusal α
  toCompact : α → Bytes
  /-- Reads the compact form off the front. -/
  readCompact : Bytes → Except Serial.Refusal (α × Bytes)

namespace Serial

variable {α : Type}

def toJson [Serial α] (a : α) : String :=
  (toValue a).toText

/-- Reads a whole JSON text. Faults of the value come before what follows it. -/
def ofJson [Serial α] (text : String) : Except Refusal α := do
  let (draft, rest) := Json.Draft.ofText text
  let a ← ofDraft draft
  Draft.close rest.isEmpty
  return a

/-- Reads a compact form. What follows it does not matter. -/
def ofCompact [Serial α] (bs : Bytes) : Except Refusal α := do
  let (a, _) ← readCompact bs
  return a

instance [Choice α] [BEq α] : Serial α where
  toValue a := .text (Choice.name a)
  ofDraft := Draft.readChoice
  toCompact := Compact.writeChoice
  readCompact := Compact.readChoice

end Serial

end Keyring
