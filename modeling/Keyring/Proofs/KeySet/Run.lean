import Keyring.KeySet.Load
/-!
This module contains the runs of calls that administer a key set, and the key sets that there are:
those which runs reach from a new or a loaded set. A call that fails leaves the set as it was.
-/

namespace Keyring

/-- What a call did to a key set. -/
inductive Change where
  | failed (error : Error)
  | added (version : UInt32) (key : Key)
  | promoted (version : UInt32)
  | demoted (version : UInt32)
  | revoked (version : UInt32)
deriving DecidableEq

namespace KeySet

/-- A call on a key set, what it did, and the set that it left. -/
inductive Step (s : KeySet) : Change → KeySet → Prop where
  | add {σ : Type} {status : Status} {generate : EStateM Error σ Key} {start rest : σ}
      {version : UInt32} {key : Key} {s' : KeySet} :
      (s.addVersionWith status generate).run start = .ok (version, s') rest →
      s'.keyByVersion? version = some key → Step s (.added version key) s'
  | addFailed {σ : Type} {status : Status} {generate : EStateM Error σ Key} {start rest : σ}
      {e : Error} :
      (s.addVersionWith status generate).run start = .error e rest → Step s (.failed e) s
  | promote {version : UInt32} {s' : KeySet} :
      s.promote version = .ok s' → Step s (.promoted version) s'
  | promoteFailed {version : UInt32} {e : Error} :
      s.promote version = .error e → Step s (.failed e) s
  | demote {version : UInt32} {s' : KeySet} :
      s.demote version = .ok s' → Step s (.demoted version) s'
  | demoteFailed {version : UInt32} {e : Error} :
      s.demote version = .error e → Step s (.failed e) s
  | revoke {version : UInt32} {s' : KeySet} :
      s.revoke version = .ok s' → Step s (.revoked version) s'
  | revokeFailed {version : UInt32} {e : Error} :
      s.revoke version = .error e → Step s (.failed e) s

/-- Calls one after another, with what each of them did. -/
inductive Run : KeySet → List Change → KeySet → Prop where
  | nil {s : KeySet} : Run s [] s
  | cons {s t u : KeySet} {change : Change} {changes : List Change} :
      Step s change t → Run t changes u → Run s (change :: changes) u

/-- The sets that calls lead to from a new or a loaded one, publishing included. -/
inductive Reachable : KeySet → Prop where
  | new {name : String} {purpose : Purpose} {keyType : KeyType} {config : Config} {s : KeySet} :
      KeySet.new name purpose keyType config = .ok s → Reachable s
  | load {source : Source} {operations : OperationClass} {config : Config} {s : KeySet} :
      KeySet.load source operations config = .ok s → Reachable s
  | step {s s' : KeySet} {change : Change} : Reachable s → Step s change s' → Reachable s'
  | publicHalf {s s' : KeySet} : Reachable s → s.publicHalf = .ok s' → Reachable s'

theorem Run.exists_of_append {s u : KeySet} {changes changes' : List Change}
    (h : Run s (changes ++ changes') u) : ∃ t, Run s changes t ∧ Run t changes' u := by
  induction changes generalizing s with
  | nil => exact ⟨s, .nil, h⟩
  | cons change changes ih =>
    cases h with
    | cons hstep hrest =>
      rcases ih hrest with ⟨t, ht, hu⟩
      exact ⟨t, .cons hstep ht, hu⟩

end KeySet

end Keyring
