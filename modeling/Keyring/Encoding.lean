import Keyring.Error
import Keyring.Text.Base64
/-!
This module contains the text encodings of signatures and ciphertexts.
-/

namespace Keyring

inductive Encoding where
  | webSafeBase64
  | base64
deriving DecidableEq, Repr

namespace Encoding

instance : Choice Encoding where
  all := [.webSafeBase64, .base64]
  name
    | .webSafeBase64 => "web_safe_base64"
    | .base64 => "base64"

def spelling : Encoding → Text.Base64.Spelling
  | .webSafeBase64 => Text.Base64.webSafe
  | .base64 => Text.Base64.standard

def encode (e : Encoding) (data : Bytes) : String :=
  e.spelling.encode data

def decode (e : Encoding) (text : String) : Except Error Bytes :=
  match e.spelling.decode? text with
  | some data => .ok data
  | none => .error (.badFormat "Not valid base64")

end Encoding

end Keyring
