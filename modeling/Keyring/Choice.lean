/-!
This module contains choices: types with a few values, each of which has a name in text and a
position in the order of declaration.
-/

namespace Keyring

/-- A type with finitely many named values. -/
class Choice (α : Type) where
  /-- The values in the order of declaration. -/
  all : List α
  name : α → String

namespace Choice

variable {α : Type} [Choice α]

def ofName? (name : String) : Option α :=
  all.find? fun a => Choice.name a == name

def names (α : Type) [Choice α] : List String :=
  (all (α := α)).map name

def ofIndex? (i : Nat) : Option α :=
  (all (α := α))[i]?

def index [BEq α] (a : α) : Nat :=
  all.idxOf a

end Choice

end Keyring
