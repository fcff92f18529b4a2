import Keyring.Proofs.KeySet.Effect
/-!
This module contains the operations on key sets as sequences of assignments to one set, each of
which shows at once, and the proof that they end like the operations that return a new set. Where
these fail, nothing has been assigned, so no call leaves a set half way.
-/

namespace Keyring.KeySet

/-- A computation that changes a key set in place. What it assigns before it fails stays. -/
abbrev Editing := EStateM Error KeySet

namespace Editing

def promote (version : UInt32) : Editing Unit := do
  let status ← MonadExcept.ofExcept ((← get).status version)
  if status = .primary then
    return
  else
    match (← get).primary with
    | some former => modify (·.setStatus former .active)
    | none => pure ()
    modify (·.setStatus version .primary)
    modify fun s => { s with primary := some version }

def demote (version : UInt32) : Editing Unit := do
  match ← MonadExcept.ofExcept ((← get).status version) with
  | .primary =>
    modify fun s => { s with primary := none }
    modify (·.setStatus version .active)
  | .active | .scheduledForRevocation => modify (·.setStatus version .scheduledForRevocation)

def revoke (version : UInt32) : Editing Unit := do
  let status ← MonadExcept.ofExcept ((← get).status version)
  if status ≠ .scheduledForRevocation then
    throw (.invalidStatusForRevocation version)
  else
    modify fun s => { s with metadata := s.metadata.removeVersion version }
    let removed := (← get).keyByVersion? version
    modify fun s => { s with keys := s.keys.filter (·.1 != version) }
    match removed with
    | some key => modify fun s => { s with index := s.index.filter (·.1 != key.hash.toUInt32) }
    | none => pure ()

/-- Adds a version to the metadata and then its key to everything else. -/
def store (version : UInt32) (status : Status) (key : Key) : Editing Unit := do
  let metadata ← MonadExcept.ofExcept
    ((← get).metadata.pushVersion ⟨version, .active, false⟩)
  modify fun s => { s with metadata }
  modify fun s => { s with index := s.index ++ [(key.hash.toUInt32, version)] }
  modify fun s => { s with keys := s.keys ++ [(version, key)] }
  match status with
  | .primary => promote version
  | .scheduledForRevocation => modify (·.setStatus version status)
  | .active => return

def tryInsert (status : Status) (key : Key) : Editing (Option UInt32) := do
  if key.type ≠ (← get).keyType then
    throw (.unsupportedType key.type.tag)
  else if (← get).hasHash key.hash then
    return none
  else
    let version ← MonadExcept.ofExcept (← get).metadata.nextVersion
    store version status key
    return some version

section

variable {σ : Type}

def onSet {α : Type} (x : Editing α) : EStateM Error (KeySet × σ) α :=
  fun (s, t) => match x.run s with
    | .ok a s => .ok a (s, t)
    | .error e s => .error e (s, t)

def onGenerator {α : Type} (x : EStateM Error σ α) : EStateM Error (KeySet × σ) α :=
  fun (s, t) => match x.run t with
    | .ok a t => .ok a (s, t)
    | .error e t => .error e (s, t)

def addVersionWith (status : Status) (generate : EStateM Error σ Key) :
    EStateM Error (KeySet × σ) UInt32 := do
  let attempts := (← get).1.config.maxGenerationAttempts
  go attempts attempts.toNat
where
  go (limit : UInt32) : Nat → EStateM Error (KeySet × σ) UInt32
    | 0 => throw (.exhaustedKeyGeneration limit)
    | attempts + 1 => do
      let key ← onGenerator generate
      match ← onSet (tryInsert status key) with
      | some version => return version
      | none => go limit attempts

end

/-- How a call ends that takes over the set that an operation returns, and no other. -/
def ending {α : Type} (s : KeySet) : Except Error (α × KeySet) → EStateM.Result Error KeySet α
  | .ok (a, s') => .ok a s'
  | .error e => .error e s

variable (s : KeySet) (version : UInt32)

theorem run_promote :
    (promote version).run s = ending s ((s.promote version).map ((), ·)) := by
  unfold promote KeySet.promote
  cases hstatus : s.status version with
  | error e =>
    simp only [EStateM.run_bind, EStateM.run_get, hstatus, run_ofExcept_error]
    rfl
  | ok status =>
    simp only [EStateM.run_bind, EStateM.run_get, hstatus, run_ofExcept_ok, ok_bind]
    split
    . rfl
    . simp only [EStateM.run_bind, EStateM.run_get]
      cases s.primary with
      | none => rfl
      | some former => rfl

theorem run_demote :
    (demote version).run s = ending s ((s.demote version).map ((), ·)) := by
  unfold demote KeySet.demote
  cases hstatus : s.status version with
  | error e =>
    simp only [EStateM.run_bind, EStateM.run_get, hstatus, run_ofExcept_error]
    rfl
  | ok status =>
    simp only [EStateM.run_bind, EStateM.run_get, hstatus, run_ofExcept_ok, ok_bind]
    cases status with
    | primary => rfl
    | active => rfl
    | scheduledForRevocation => rfl

theorem run_revoke :
    (revoke version).run s = ending s ((s.revoke version).map ((), ·)) := by
  unfold revoke KeySet.revoke
  cases hstatus : s.status version with
  | error e =>
    simp only [EStateM.run_bind, EStateM.run_get, hstatus, run_ofExcept_error]
    rfl
  | ok status =>
    simp only [EStateM.run_bind, EStateM.run_get, hstatus, run_ofExcept_ok, ok_bind]
    split
    . rfl
    . simp only [EStateM.run_bind, EStateM.run_get, EStateM.run_modify]
      change EStateM.run (match s.keyByVersion? version with | some key => _ | none => _) _ = _
      cases s.keyByVersion? version with
      | none => rfl
      | some key => rfl

/-- Once the version is in the metadata, nothing fails any more. -/
theorem run_store {s : KeySet} (h : s.metadata.Valid)
    (hlast : s.metadata.lastVersion ≠ 0xffffffff) (status : Status) (key : Key) :
    (store (s.metadata.lastVersion + 1) status key).run s = .ok () (s.insert status key) := by
  have hpush : ¬s.metadata.lastVersion + 1 ≤ s.metadata.lastVersion := by
    rw [UInt32.not_le]
    exact lt_add_one hlast
  have hpromote : (promote (s.metadata.lastVersion + 1)).run (s.append key) =
      .ok () (s.insert .primary key) := by
    rw [run_promote, promote_eq, version?_append h key hlast]
    rfl
  unfold store
  simp only [EStateM.run_bind, EStateM.run_get, EStateM.run_modify, Metadata.pushVersion, hpush,
    ↓reduceIte, run_ofExcept_ok]
  cases status with
  | primary => exact hpromote
  | active => rfl
  | scheduledForRevocation =>
    rw [EStateM.run_modify, setStatus_eq_relabel]
    rfl

theorem run_tryInsert {s : KeySet} (h : s.metadata.Valid) (status : Status) (key : Key) :
    (tryInsert status key).run s = ending s ((s.tryInsert status key).map fun
      | some (version, s') => (some version, s')
      | none => (none, s)) := by
  rw [tryInsert_eq h]
  unfold tryInsert
  simp only [EStateM.run_bind, EStateM.run_get]
  split
  . rfl
  . simp only [EStateM.run_bind, EStateM.run_get]
    split
    . rfl
    . simp only [EStateM.run_bind, EStateM.run_get, Metadata.nextVersion]
      by_cases hlast : s.metadata.lastVersion = 0xffffffff
      . simp only [hlast, ↓reduceIte]
        rfl
      . simp only [hlast, ↓reduceIte, run_ofExcept_ok, run_store h hlast]
        rfl

section

variable {σ α : Type}

theorem run_onSet (x : Editing α) (s : KeySet) (t : σ) :
    (onSet x).run (s, t) = match x.run s with
      | .ok a s => .ok a (s, t)
      | .error e s => .error e (s, t) := by
  rfl

theorem run_onGenerator (x : EStateM Error σ α) (s : KeySet) (t : σ) :
    (onGenerator x).run (s, t) = match x.run t with
      | .ok a t => .ok a (s, t)
      | .error e t => .error e (s, t) := by
  rfl

theorem run_addVersionWith_go {s : KeySet} (h : s.metadata.Valid) (status : Status)
    (generate : EStateM Error σ Key) (attempts : Nat) (start : σ) :
    (addVersionWith.go status generate s.config.maxGenerationAttempts attempts).run (s, start) =
      match (KeySet.addVersionWith.go s status generate attempts).run start with
      | .ok (version, s') rest => .ok version (s', rest)
      | .error e rest => .error e (s, rest) := by
  induction attempts generalizing start with
  | zero => rfl
  | succ attempts ih =>
    unfold addVersionWith.go KeySet.addVersionWith.go
    rw [EStateM.run_bind, EStateM.run_bind, run_onGenerator]
    cases generate.run start with
    | error e rest => rfl
    | ok key rest =>
      simp only [EStateM.run_bind, run_onSet, run_tryInsert h]
      cases s.tryInsert status key with
      | error e => rfl
      | ok added =>
        cases added with
        | none => exact ih rest
        | some added => rfl

end

theorem run_addVersionWith {s : KeySet} (h : s.metadata.Valid) (status : Status) {σ : Type}
    (generate : EStateM Error σ Key) (start : σ) :
    (addVersionWith status generate).run (s, start) =
      match (s.addVersionWith status generate).run start with
      | .ok (version, s') rest => .ok version (s', rest)
      | .error e rest => .error e (s, rest) :=
  run_addVersionWith_go h status generate _ start

end Editing

end Keyring.KeySet
