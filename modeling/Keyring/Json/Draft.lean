import Keyring.Json.Value
/-!
This module contains what a text says up to the first place where it is no JSON. Such a place is part
of the draft, so that readers which go through a draft in order meet faults of the data and of the
text in the order in which the text has them.
-/

namespace Keyring.Json

inductive Draft where
  | null
  | boolean (b : Bool)
  | number (n : Option Number)
  | text (s : Option String)
  /-- The items, and whether the array goes on to its end. -/
  | array (items : List Draft) (isClosed : Bool)
  /-- The keys and values, and whether the object goes on to its end. -/
  | object (members : List (Draft × Draft)) (isClosed : Bool)
  /-- The place of a value whose colon is missing. -/
  | absent
  | malformed

namespace Draft

/-- An array or object whose end is not reached yet, with its content so far, newest first. -/
inductive Frame where
  | array (items : List Draft)
  | object (members : List (Draft × Draft))
  /-- An object at the value of a key. -/
  | member (members : List (Draft × Draft)) (key : Draft)

namespace Frame

/-- The array or object with an item or value after which it breaks off. -/
def breakAfter (d : Draft) : Frame → Draft
  | .array items => .array (d :: items).reverse false
  | .object members => .object members.reverse false
  | .member members key => .object ((key, d) :: members).reverse false

/-- The array or object where it breaks off before anything more. -/
def breakOff : Frame → Draft
  | .array items => .array items.reverse false
  | .object members => .object members.reverse false
  | .member members key => .object ((key, .absent) :: members).reverse false

end Frame

/-- The outermost array or object where an inner one breaks off. -/
def breakAll (d : Draft) (frames : List Frame) : Draft :=
  frames.foldl Frame.breakAfter d

inductive Mode where
  | value
  /-- The first item of an array or its end. -/
  | item
  | key
  /-- The first key of an object or its end. -/
  | member
  | colon
  | after (d : Draft)

/-- The draft of a value that is a single token. -/
def ofToken? : Token → Option Draft
  | .null => some .null
  | .boolean b => some (.boolean b)
  | .number n => some (.number n)
  | .text s => some (.text s)
  | _ => none

/-- How a value goes on with a token that starts it: as a whole, or as an array or object. -/
def startValue (t : Token) (frames : List Frame) : Option (Mode × List Frame) :=
  match t with
  | .openBracket => some (.item, .array [] :: frames)
  | .openBrace => some (.member, .object [] :: frames)
  | t => (ofToken? t).map fun d => (.after d, frames)

/-- What stands where a key has to, if it is no text. -/
def badKey : Token → Draft
  | .openBracket => .array [] false
  | .openBrace => .object [] false
  | t => (ofToken? t).getD .malformed

/-- How the innermost frame goes on with a token, or what it is where it breaks off. -/
def step (mode : Mode) (t : Token) (frame : Frame) (frames : List Frame) :
    Except Draft (Mode × List Frame) :=
  let start := match startValue t (frame :: frames) with
    | some next => .ok next
    | none => .error (frame.breakAfter .malformed)
  match mode, t, frame with
  | .item, .closeBracket, .array _ => .ok (.after (.array [] true), frames)
  | .value, _, _ | .item, _, _ => start
  | .member, .closeBrace, .object _ => .ok (.after (.object [] true), frames)
  | .key, .text s, .object members | .member, .text s, .object members =>
    .ok (.colon, .member members (.text s) :: frames)
  | .key, t, .object members | .member, t, .object members =>
    .error (.object ((badKey t, .absent) :: members).reverse false)
  | .colon, .colon, _ => .ok (.value, frame :: frames)
  | .after d, .comma, .array items => .ok (.value, .array (d :: items) :: frames)
  | .after d, .closeBracket, .array items => .ok (.after (.array (d :: items).reverse true), frames)
  | .after d, .comma, .member members key => .ok (.key, .object ((key, d) :: members) :: frames)
  | .after d, .closeBrace, .member members key =>
    .ok (.after (.object ((key, d) :: members).reverse true), frames)
  | .after d, _, frame => .error (frame.breakAfter d)
  | _, _, frame => .error frame.breakOff

/-- What is read where the tokens end too early. -/
def stop (mode : Mode) (frame : Frame) : Draft :=
  match mode with
  | .after d => frame.breakAfter d
  | .value => frame.breakAfter .malformed
  | _ => frame.breakOff

/-- Reads on within frames. Returns what is read and the tokens after it. -/
def run : List Token → Mode → List Frame → Draft × List Token
  | tokens, .after d, [] => (d, tokens)
  | [], _, [] => (.malformed, [])
  | t :: tokens, _, [] =>
    match startValue t [] with
    | some (mode, frames) => run tokens mode frames
    | none => (.malformed, tokens)
  | [], mode, frame :: frames => (breakAll (stop mode frame) frames, [])
  | t :: tokens, mode, frame :: frames =>
    match step mode t frame frames with
    | .ok (mode, frames) => run tokens mode frames
    | .error d => (breakAll d frames, tokens)

def ofText (text : String) : Draft × List Token :=
  run (Token.all text.toList) .value []

mutual

/-- Whether a draft is JSON to its end. That a text is no text or a number too large does not
matter. -/
def isComplete : Draft → Bool
  | .null | .boolean _ | .number _ | .text _ => true
  | .array items isClosed => isClosed && areComplete items
  | .object members isClosed => isClosed && membersAreComplete members
  | .absent | .malformed => false

def areComplete : List Draft → Bool
  | [] => true
  | d :: ds => d.isComplete && areComplete ds

def membersAreComplete : List (Draft × Draft) → Bool
  | [] => true
  | (key, value) :: members =>
    key.isComplete && value.isComplete && membersAreComplete members

end

mutual

def value? : Draft → Option Value
  | .null => some .null
  | .boolean b => some (.boolean b)
  | .number n => n.map .number
  | .text s => s.map .text
  | .array items true => (values? items).map .array
  | .object members true => (memberValues? members).map .object
  | _ => none

def values? : List Draft → Option (List Value)
  | [] => some []
  | d :: ds => do return (← d.value?) :: (← values? ds)

def memberValues? : List (Draft × Draft) → Option (List (String × Value))
  | [] => some []
  | (.text (some key), value) :: members => do
    return (key, ← value.value?) :: (← memberValues? members)
  | _ => none

end

end Draft

def Value.ofText? (text : String) : Option Value :=
  match Draft.ofText text with
  | (d, []) => d.value?
  | _ => none

end Keyring.Json
