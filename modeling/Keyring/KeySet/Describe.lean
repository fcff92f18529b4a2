import Keyring.KeySet.Basic
import Keyring.Text.Quoted
/-!
This module contains descriptions of key sets, which show no keys.
-/

namespace Keyring

namespace KeyVersion

def describe (v : KeyVersion) : String :=
  s!"KeyVersion \x7b version: {v.version}, status: {v.status.title}, exportable: {v.exportable} \x7d"

end KeyVersion

namespace KeySet

def describe (s : KeySet) : String :=
  let name := Text.Quoted.quote s.name
  let versions := ", ".intercalate (s.versions.map KeyVersion.describe)
  let primary := match s.primary with
    | some version => s!"Some({version})"
    | none => "None"
  s!"KeySet \x7b name: {name}, purpose: {s.purpose.title}, key_type: {s.keyType.label}, " ++
    s!"versions: [{versions}], primary: {primary} \x7d"

end KeySet

end Keyring
