import Keyring.Key.Codec
import Keyring.Serial.Basic
import Keyring.Text.Base64
/-!
This module contains the serialized forms of keys and key hashes. Both are written under a tag that
tells them apart, a key hash as 1 or `KeyHash` and a key as 2 or `Key`. The content is base 58 or
base 64 in text, and bytes in the compact form.
-/

namespace Keyring.Serial

inductive ItemKind where
  | keyHash
  | key
deriving DecidableEq

namespace ItemKind

def name : ItemKind → String
  | .keyHash => "KeyHash"
  | .key => "Key"

def index : ItemKind → Nat
  | .keyHash => 1
  | .key => 2

def ofName : String → Except Fault ItemKind
  | "KeyHash" => .ok .keyHash
  | "Key" => .ok .key
  | name => .error (.unknownVariant name ["KeyHash", "Key"])

def ofIndex : Nat → Except Fault ItemKind
  | 1 => .ok .keyHash
  | 2 => .ok .key
  | i => .error (.invalidValue (.integer i) "variant index 1 <= i <= 2")

/-- Checks that an item is of the kind that is wanted. -/
def expect (wanted kind : ItemKind) : Except Fault Unit :=
  if kind = wanted then .ok () else .error (.invalidType (.other kind.name) wanted.name)

/-- What is expected where no tagged item is found. -/
def expectation (kind : ItemKind) : String :=
  s!"_KeysetType enum with variant {kind.name} (id {kind.index})"

end ItemKind

/-- A type whose values are written under a tag. -/
class Item (α : Type) where
  kind : ItemKind
  toText : α → String
  ofText : String → Except Fault α
  toBytes : α → Bytes
  ofBytes : Bytes → Except Fault α

/-- Takes an error for a fault of the data. -/
def liftError {α : Type} : Except Error α → Except Fault α
  | .ok a => .ok a
  | .error error => .error (.invalid error)

instance : Item KeyHash where
  kind := .keyHash
  toText := KeyHash.toBase58
  ofText text := liftError (KeyHash.ofBase58 text)
  toBytes := KeyHash.bytes
  ofBytes bs := liftError (KeyHash.ofBytes bs)

instance : Item Key where
  kind := .key
  toText k := Text.Base64.standard.encode k.encode
  ofText text :=
    match Text.Base64.standard.decode? text with
    | some bs => liftError (Key.decode bs)
    | none => .error (.invalidValue (.other "invalid base64") "base64 key")
  toBytes := Key.encode
  ofBytes bs := liftError (Key.decode bs)

/-- A tag as some format may write it. -/
inductive Tag where
  | name (name : String)
  | nameBytes (bs : Bytes)
  | index (i : Nat)
  | boolean (b : Bool)

def Tag.kind : Tag → Except Fault ItemKind
  | .name text => ItemKind.ofName text
  | .nameBytes bs =>
    ItemKind.ofName ((Text.Utf8.decode? bs).getD (String.ofList (Text.Utf8.decodeLossy bs)))
  | .index i => ItemKind.ofIndex i
  | .boolean b => .error (.invalidType (.boolean b) "variant identifier")

/-- An item of a text format, either a tag with content, or a tag or something else without. -/
inductive Tagged where
  | content (tag : Tag) (text : String)
  | bare (name : String)
  | untagged (found : Found)

namespace Item

variable {α : Type} [Item α]

/-- What is wrong with a tag that has no content. -/
def bareFault (α : Type) [Item α] (name : String) : Fault :=
  match do (Item.kind α).expect (← ItemKind.ofName name) with
  | .ok () => .invalidType .unitVariant "newtype variant"
  | .error fault => fault

def ofTagged : Tagged → Except Fault α
  | .content tag text => do
    (kind α).expect (← tag.kind)
    ofText text
  | .bare name => .error (bareFault α name)
  | .untagged found => .error (.invalidType found (kind α).expectation)

def toValue (a : α) : Json.Value :=
  .object [((kind α).name, .text (toText a))]

/-- Reads an object whose one member leads from the tag to the content. -/
def ofDraft : Json.Draft → Except Refusal α
  | .text (some name) => .error (.fault (bareFault α name))
  | .object ((key, value) :: members) isClosed => do
    let tag ← liftFault (ItemKind.ofName (← Draft.readText "variant identifier" key))
    if let .absent := value then
      throw .malformed
    liftFault ((kind α).expect tag)
    let a ← liftFault (ofText (← Draft.readText "a string" value))
    Draft.close (isClosed && members.isEmpty)
    return a
  | _ => .error .malformed

def toCompact (a : α) : Bytes :=
  Bytes.littleEndian 4 (kind α).index ++ Compact.writeBlob (toBytes a)

def readCompact (bs : Bytes) : Except Refusal (α × Bytes) := do
  let (i, bs) ← Compact.readNatural 4 bs
  liftFault ((kind α).expect (← liftFault (ItemKind.ofIndex i)))
  let (data, bs) ← Compact.readBlob bs
  return (← liftFault (ofBytes data), bs)

instance : Serial α := ⟨toValue, ofDraft, toCompact, readCompact⟩

end Item

end Keyring.Serial
