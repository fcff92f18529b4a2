import Keyring.Digest.Sha1
/-!
This module contains the keyed digest HMAC over SHA-1.
-/

namespace Keyring.Digest.Hmac

/-- A key brought to the size of a block: a long one is digested first. -/
def blockKey (key : Bytes) : Bytes :=
  let key := if key.length > Sha1.blockSize then Sha1.digest key else key
  key ++ List.replicate (Sha1.blockSize - key.length) 0

/-- A keyed digest under way. -/
structure State where
  blockKey : Bytes
  fed : Bytes := []

/-- A digest under a key. There is one for keys of every size. -/
def start? (key : Bytes) : Option State :=
  some { blockKey := blockKey key }

namespace State

def update (s : State) (data : Bytes) : State :=
  { s with fed := s.fed ++ data }

def finish (s : State) : Bytes :=
  let inner := Sha1.digest (s.blockKey.map (· ^^^ 0x36) ++ s.fed)
  Sha1.digest (s.blockKey.map (· ^^^ 0x5c) ++ inner)

def describe (_ : State) : String :=
  "HmacStream \x7b .. \x7d"

@[simp]
theorem update_nil (s : State) : s.update [] = s := by
  simp [update]

@[simp]
theorem update_update (s : State) (data more : Bytes) :
    (s.update data).update more = s.update (data ++ more) := by
  simp [update]

@[simp]
theorem length_finish (s : State) : s.finish.length = Sha1.size := by
  simp [finish]

end State

def mac (key message : Bytes) : Bytes :=
  State.finish ⟨blockKey key, message⟩

@[simp]
theorem length_mac (key message : Bytes) : (mac key message).length = Sha1.size :=
  State.length_finish _

end Keyring.Digest.Hmac
