import Keyring.KeySet.Shared
import Keyring.Proofs.KeySet.InPlace
import Keyring.Proofs.KeySet.Invariant
/-!
This module contains the agreement of shared and plain key sets. A shared set takes its type and its
settings once and then looks at the set for every generated key anew, a plain set does all of this
in one call. As long as nobody else calls in between, nothing that can be seen tells the two apart.
-/

namespace Keyring

/-- A call that administers a key set. -/
inductive Call where
  | addVersion (status : Status)
  | promote (version : UInt32)
  | demote (version : UInt32)
  | revoke (version : UInt32)
deriving DecidableEq

/-- What a call returns, and the set and the random source that it leaves. -/
structure Answer (S : Type) where
  result : Except Error (Option UInt32)
  state : S
  source : RandomSource

namespace Answer

variable {S : Type}

/-- A failed call leaves the set as it was. -/
def ofRun (s : S) : EStateM.Result Error RandomSource (UInt32 × S) → Answer S
  | .ok (version, s') rest => ⟨.ok (some version), s', rest⟩
  | .error e rest => ⟨.error e, s, rest⟩

def ofExcept (s : S) (source : RandomSource) : Except Error S → Answer S
  | .ok s' => ⟨.ok none, s', source⟩
  | .error e => ⟨.error e, s, source⟩

/-- A failed call leaves what it has assigned until then. -/
def ofEdit {α : Type} (version? : α → Option UInt32) :
    EStateM.Result Error (S × RandomSource) α → Answer S
  | .ok a (s, rest) => ⟨.ok (version? a), s, rest⟩
  | .error e (s, rest) => ⟨.error e, s, rest⟩

end Answer

/-- Sets that are administered by operations that return a new set. -/
class Administered (S : Type) where
  addVersion : S → Status → Drawing (UInt32 × S)
  promote : S → UInt32 → Except Error S
  demote : S → UInt32 → Except Error S
  revoke : S → UInt32 → Except Error S

instance : Administered KeySet :=
  ⟨KeySet.addVersion, KeySet.promote, KeySet.demote, KeySet.revoke⟩

instance : Administered SharedKeySet :=
  ⟨SharedKeySet.addVersion, SharedKeySet.promote, SharedKeySet.demote, SharedKeySet.revoke⟩

namespace Call

def perform {S : Type} [Administered S] (s : S) (source : RandomSource) : Call → Answer S
  | addVersion status => .ofRun s ((Administered.addVersion s status).run source)
  | promote version => .ofExcept s source (Administered.promote s version)
  | demote version => .ofExcept s source (Administered.demote s version)
  | revoke version => .ofExcept s source (Administered.revoke s version)

open KeySet Editing in
/-- The call as assignments to one set, with either way of adding a version. -/
def performInPlace (add : Status → EStateM Error (KeySet × RandomSource) UInt32) (s : KeySet)
    (source : RandomSource) : Call → Answer KeySet
  | addVersion status => .ofEdit some ((add status).run (s, source))
  | promote version => .ofEdit (fun _ => none) ((onSet (Editing.promote version)).run (s, source))
  | demote version => .ofEdit (fun _ => none) ((onSet (Editing.demote version)).run (s, source))
  | revoke version => .ofEdit (fun _ => none) ((onSet (Editing.revoke version)).run (s, source))

end Call

/-- What can be seen of a call: its result, and the set and the number of random bytes drawn when it
has ended. -/
structure Response where
  result : Except Error (Option UInt32)
  keySet : KeySet
  drawn : Nat

section

variable {S T : Type}

/-- The responses to calls one after another. -/
def responses (perform : S → RandomSource → Call → Answer S) (plain : S → KeySet) :
    S → RandomSource → List Call → List Response
  | _, _, [] => []
  | s, source, call :: calls =>
    let answer := perform s source call
    ⟨answer.result, plain answer.state, answer.source.drawn⟩ ::
      responses perform plain answer.state answer.source calls

/-- Two answers are the same up to a relation between the sets. -/
structure Answer.Matches (R : S → T → Prop) (a : Answer S) (b : Answer T) : Prop where
  result_eq : a.result = b.result
  source_eq : a.source = b.source
  state : R a.state b.state

/-- What one call keeps, a run of calls keeps. -/
theorem responses_eq {R : S → T → Prop} {plain : S → KeySet} {plain' : T → KeySet}
    {perform : S → RandomSource → Call → Answer S} {perform' : T → RandomSource → Call → Answer T}
    (hplain : ∀ s t, R s t → plain s = plain' t)
    (hstep : ∀ s t source call, R s t → (perform s source call).Matches R (perform' t source call))
    {s : S} {t : T} (h : R s t) (source : RandomSource) (calls : List Call) :
    responses perform plain s source calls = responses perform' plain' t source calls := by
  induction calls generalizing s t source with
  | nil => rfl
  | cons call calls ih =>
    have hanswer := hstep s t source call h
    unfold responses
    dsimp only
    rw [hanswer.result_eq, hanswer.source_eq, hplain _ _ hanswer.state, ih hanswer.state]

end

namespace SharedKeySet

variable (s : KeySet) (source : RandomSource)

/-- The result of a plain set as that of a shared one. -/
def share : EStateM.Result Error RandomSource (UInt32 × KeySet) →
    EStateM.Result Error RandomSource (UInt32 × SharedKeySet)
  | .ok (version, s) rest => .ok (version, ⟨s⟩) rest
  | .error e rest => .error e rest

theorem run_go (status : Status) (attempts : Nat) :
    (addVersion.go ⟨s⟩ status s.keyType s.config attempts).run source =
      share ((KeySet.addVersionWith.go s status (Key.generate s.keyType s.config) attempts).run
        source) := by
  induction attempts generalizing source with
  | zero => rfl
  | succ attempts ih =>
    unfold addVersion.go KeySet.addVersionWith.go
    rw [EStateM.run_bind, EStateM.run_bind]
    cases (Key.generate s.keyType s.config).run source with
    | error e rest => rfl
    | ok key rest =>
      simp only [EStateM.run_bind]
      cases s.tryInsert status key with
      | error e => rfl
      | ok added =>
        cases added with
        | none => exact ih rest
        | some added => rfl

theorem run_addVersion (status : Status) :
    (addVersion ⟨s⟩ status).run source = share ((s.addVersion status).run source) := by
  apply run_go

theorem matches_perform (call : Call) :
    (call.perform (SharedKeySet.mk s) source).Matches (fun t s => t.inner = s)
      (call.perform s source) := by
  have hexcept : ∀ outcome : Except Error KeySet,
      (Answer.ofExcept (SharedKeySet.mk s) source (return ⟨← outcome⟩)).Matches
        (fun t s => t.inner = s) (.ofExcept s source outcome) := by
    intro outcome
    cases outcome with
    | error e => exact ⟨rfl, rfl, rfl⟩
    | ok s' => exact ⟨rfl, rfl, rfl⟩
  cases call with
  | addVersion status =>
    unfold Call.perform
    change (Answer.ofRun _ ((addVersion ⟨s⟩ status).run source)).Matches _
      (.ofRun _ ((s.addVersion status).run source))
    rw [run_addVersion]
    cases (s.addVersion status).run source with
    | error e rest => exact ⟨rfl, rfl, rfl⟩
    | ok added rest => exact ⟨rfl, rfl, rfl⟩
  | promote version => exact hexcept (s.promote version)
  | demote version => exact hexcept (s.demote version)
  | revoke version => exact hexcept (s.revoke version)

end SharedKeySet

namespace KeySet.Editing

/-- Adds a generated key, by the type and the settings of the set before the first attempt. -/
def addVersion (status : Status) : EStateM Error (KeySet × RandomSource) UInt32 := do
  let s := (← get).1
  addVersionWith status (Key.generate s.keyType s.config)

/-- Adds a generated key to a shared set, which is held to copy its type and its settings, and then
once for every key. -/
def addVersionShared (status : Status) : EStateM Error (KeySet × RandomSource) UInt32 := do
  let s := (← get).1
  go s.keyType s.config s.config.maxGenerationAttempts.toNat
where
  go (keyType : KeyType) (config : Config) : Nat → EStateM Error (KeySet × RandomSource) UInt32
    | 0 => throw (.exhaustedKeyGeneration config.maxGenerationAttempts)
    | attempts + 1 => do
      let key ← onGenerator (Key.generate keyType config)
      match ← onSet (tryInsert status key) with
      | some version => return version
      | none => go keyType config attempts

theorem addVersionShared_go_eq (status : Status) (keyType : KeyType) (config : Config)
    (attempts : Nat) :
    addVersionShared.go status keyType config attempts =
      addVersionWith.go status (Key.generate keyType config) config.maxGenerationAttempts
        attempts := by
  induction attempts with
  | zero => rfl
  | succ attempts ih =>
    unfold addVersionWith.go
    rw [← ih]
    rfl

theorem run_addVersionShared (s : KeySet) (source : RandomSource) (status : Status) :
    (addVersionShared status).run (s, source) = (addVersion status).run (s, source) := by
  change (addVersionShared.go status s.keyType s.config _).run (s, source) = _
  rw [addVersionShared_go_eq]
  rfl

theorem performInPlace_addVersionShared (s : KeySet) (source : RandomSource) (call : Call) :
    call.performInPlace addVersionShared s source = call.performInPlace addVersion s source := by
  cases call with
  | addVersion status =>
    unfold Call.performInPlace
    dsimp only
    rw [run_addVersionShared]
  | promote _ | demote _ | revoke _ => rfl

/-- On a consistent set, nothing has been assigned where a call fails. -/
theorem performInPlace_eq {s : KeySet} (h : s.Consistent) (source : RandomSource) (call : Call) :
    call.performInPlace addVersion s source = call.perform s source := by
  have hending : ∀ {edit : Editing Unit} {outcome : Except Error KeySet},
      edit.run s = ending s (outcome.map ((), ·)) →
        Answer.ofEdit (fun _ => none) ((onSet edit).run (s, source)) =
          .ofExcept s source outcome := by
    intro edit outcome hedit
    rw [run_onSet, hedit]
    cases outcome with
    | error e => rfl
    | ok s' => rfl
  cases call with
  | addVersion status =>
    have hrun := run_addVersionWith h.valid status (Key.generate s.keyType s.config) source
    change Answer.ofEdit some ((addVersionWith status _).run (s, source)) =
      .ofRun s ((s.addVersionWith status _).run source)
    rw [hrun]
    cases (s.addVersionWith status (Key.generate s.keyType s.config)).run source with
    | error e rest => rfl
    | ok added rest => rfl
  | promote version => exact hending (run_promote s version)
  | demote version => exact hending (run_demote s version)
  | revoke version => exact hending (run_revoke s version)

end KeySet.Editing

namespace KeySet

theorem Consistent.perform {s : KeySet} (h : s.Consistent) (source : RandomSource) (call : Call) :
    (call.perform s source).state.Consistent := by
  have hexcept : ∀ outcome : Except Error KeySet, (∀ s', outcome = .ok s' → s'.Consistent) →
      (Answer.ofExcept s source outcome).state.Consistent := by
    intro outcome houtcome
    cases outcome with
    | error e => exact h
    | ok s' => exact houtcome s' rfl
  cases call with
  | addVersion status =>
    change (Answer.ofRun s ((s.addVersionWith status _).run source)).state.Consistent
    cases hrun : (s.addVersionWith status (Key.generate s.keyType s.config)).run source with
    | error e rest => exact h
    | ok added rest => exact h.addVersionWith hrun
  | promote version => exact hexcept _ fun s' => h.promote
  | demote version => exact hexcept _ fun s' => h.demote
  | revoke version => exact hexcept _ fun s' => h.revoke

end KeySet

theorem SharedKeySet.responses_agree (s : KeySet) (source : RandomSource) (calls : List Call) :
    responses Call.perform SharedKeySet.inner ⟨s⟩ source calls =
      responses Call.perform id s source calls ∧
    responses (Call.performInPlace KeySet.Editing.addVersionShared) id s source calls =
      responses (Call.performInPlace KeySet.Editing.addVersion) id s source calls ∧
    (s.Reachable → responses (Call.performInPlace KeySet.Editing.addVersion) id s source calls =
      responses Call.perform id s source calls) := by
  refine ⟨?_, ?_, ?_⟩
  . apply responses_eq (R := fun t s => t.inner = s)
    . intro t s heq
      exact heq
    . rintro t s source call rfl
      apply matches_perform
    . rfl
  . apply responses_eq (R := Eq)
    . intro t s heq
      exact heq
    . rintro t s source call rfl
      rw [KeySet.Editing.performInPlace_addVersionShared]
      exact ⟨rfl, rfl, rfl⟩
    . rfl
  . intro h
    apply responses_eq (R := fun t s => t = s ∧ s.Consistent)
    . intro t s heq
      exact heq.1
    . rintro t s source call ⟨rfl, hs⟩
      rw [KeySet.Editing.performInPlace_eq hs]
      exact ⟨rfl, rfl, rfl, hs.perform source call⟩
    . exact ⟨rfl, h.consistent⟩

/-- A set without versions that makes two attempts at a key. -/
def KeySet.sampleAttempts : KeySet :=
  { sampleEmpty with config := { maxGenerationAttempts := 2 } }

theorem KeySet.reachable_sampleAttempts : sampleAttempts.Reachable := by
  exact @Reachable.new "sample" .signAndVerify .hmac { maxGenerationAttempts := 2 } _ rfl

/-- The second key that all zero bytes make is the first one again, in every attempt. -/
theorem SharedKeySet.responses_agree_sample :
    KeySet.sampleAttempts.Reachable ∧
      ((responses Call.perform SharedKeySet.inner ⟨KeySet.sampleAttempts⟩ (.cycle #[])
          [.addVersion .primary, .addVersion .active, .revoke 1]).map
        fun r => (r.result, r.drawn)) =
        [(.ok (some 1), 32), (.error (.exhaustedKeyGeneration 2), 96),
          (.error (.invalidStatusForRevocation 1), 96)] ∧
      responses (Call.performInPlace KeySet.Editing.addVersionShared) id KeySet.sampleAttempts
          (.cycle #[]) [.addVersion .primary, .addVersion .active, .revoke 1] =
        responses Call.perform SharedKeySet.inner ⟨KeySet.sampleAttempts⟩ (.cycle #[])
          [.addVersion .primary, .addVersion .active, .revoke 1] := by
  have hagree := responses_agree KeySet.sampleAttempts (.cycle #[])
    [.addVersion .primary, .addVersion .active, .revoke 1]
  refine ⟨KeySet.reachable_sampleAttempts, by decide +kernel, ?_⟩
  rw [hagree.2.1, hagree.2.2 KeySet.reachable_sampleAttempts, hagree.1]

end Keyring
