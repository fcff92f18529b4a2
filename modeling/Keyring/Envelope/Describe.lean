import Keyring.Envelope.FrontEnd
import Keyring.KeySet.Describe
/-!
This module contains descriptions of front ends, which show the key set behind them.
-/

namespace Keyring

/-- A front end of some title and the set behind it. -/
def KeySet.describeBehind (s : KeySet) (title : String) : String :=
  s!"{title} \x7b keyset: {s.describe} \x7d"

def Verifier.describe (v : Verifier) : String :=
  v.keySet.describeBehind "Verifier"

def Signer.describe (s : Signer) : String :=
  s.keySet.describeBehind "Signer"

def UnversionedVerifier.describe (v : UnversionedVerifier) : String :=
  v.keySet.describeBehind "UnversionedVerifier"

def UnversionedSigner.describe (s : UnversionedSigner) : String :=
  s.keySet.describeBehind "UnversionedSigner"

def Encrypter.describe (e : Encrypter) : String :=
  e.keySet.describeBehind "Encrypter"

def Crypter.describe (c : Crypter) : String :=
  c.keySet.describeBehind "Crypter"

end Keyring
