import Keyring.Error
import Keyring.Json.Draft
import Keyring.Text.Quoted
/-!
This module contains the causes for which serialized data is refused, and the wording of those that
lie in the data rather than in its form.
-/

namespace Keyring.Serial

/-- What data has in a place. -/
inductive Found where
  | integer (n : Int)
  | real (digits : String)
  | boolean (b : Bool)
  | text (s : String)
  | null
  | map
  | sequence
  | unitVariant
  | other (name : String)
deriving DecidableEq

/-- What is wrong with data whose form is sound. -/
inductive Fault where
  | invalidType (found : Found) (expected : String)
  | invalidValue (found : Found) (expected : String)
  | invalidLength (length : Nat) (expected : String)
  | unknownVariant (name : String) (known : List String)
  | missingField (name : String)
  | duplicateField (name : String)
  /-- The data is refused for what it means. -/
  | invalid (error : Error)
deriving DecidableEq

/-- Why data is refused. -/
inductive Refusal where
  /-- A text is no JSON, or no JSON of the kind that is read. -/
  | malformed
  | truncated
  /-- A byte for a truth value is neither 0 nor 1. -/
  | badBoolean
  /-- The bytes of a text are not UTF-8. -/
  | badText
  | fault (fault : Fault)
deriving DecidableEq

def Found.describe : Found → String
  | integer n => s!"integer `{n}`"
  | real digits => s!"floating point `{digits}`"
  | boolean b => s!"boolean `{b}`"
  | text s => "string " ++ Text.Quoted.quote s
  | null => "null"
  | map => "map"
  | sequence => "sequence"
  | unitVariant => "unit variant"
  | other name => name

/-- A list of known names for people. -/
def describeNames : List String → String
  | [a, b] => s!"`{a}` or `{b}`"
  | names => "one of " ++ ", ".intercalate (names.map fun name => s!"`{name}`")

def Fault.message : Fault → String
  | invalidType found expected => s!"invalid type: {found.describe}, expected {expected}"
  | invalidValue found expected => s!"invalid value: {found.describe}, expected {expected}"
  | invalidLength length expected => s!"invalid length {length}, expected {expected}"
  | unknownVariant name known => s!"unknown variant `{name}`, expected " ++ describeNames known
  | missingField name => s!"missing field `{name}`"
  | duplicateField name => s!"duplicate field `{name}`"
  | invalid error => error.message

def Found.ofNumber : Json.Number → Found
  | .natural n => .integer n
  | .negative n => .integer (-n)
  | .real digits => .real digits

/-- What is wrong with a draft where something else is expected. -/
def unexpected (expected : String) : Json.Draft → Refusal
  | .null => .fault (.invalidType .null expected)
  | .boolean b => .fault (.invalidType (.boolean b) expected)
  | .number (some n) => .fault (.invalidType (.ofNumber n) expected)
  | .text (some s) => .fault (.invalidType (.text s) expected)
  | .array _ _ => .fault (.invalidType .sequence expected)
  | .object _ _ => .fault (.invalidType .map expected)
  | .number none | .text none | .absent | .malformed => .malformed

/-- The name of a choice, or that it is unknown. -/
def choiceOfName {α : Type} [Choice α] (name : String) : Except Fault α :=
  match Choice.ofName? name with
  | some a => .ok a
  | none => .error (.unknownVariant name (Choice.names α))

/-- The place of a choice in the order of declaration, or that there is none. -/
def choiceOfIndex {α : Type} [Choice α] (i : Nat) : Except Fault α :=
  match Choice.ofIndex? i with
  | some a => .ok a
  | none =>
    let count := (Choice.all (α := α)).length
    .error (.invalidValue (.integer i) s!"variant index 0 <= i < {count}")

/-- Turns a fault of the data into a refusal. -/
def liftFault {α : Type} : Except Fault α → Except Refusal α
  | .ok a => .ok a
  | .error fault => .error (.fault fault)

end Keyring.Serial
