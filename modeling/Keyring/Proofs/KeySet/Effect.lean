import Keyring.Proofs.KeySet.Run
import Keyring.Proofs.Metadata.Valid
/-!
This module contains the effect of each operation on a key set in closed form. Promotion and
demotion relabel the entries, revocation takes one version out, adding a key appends a version and
relabels, and publishing keeps the public parts of the keys.
-/

namespace Keyring

namespace Key

/-- The key without what is secret in it, where it has a public half. -/
def publicPart : Key → Key
  | .rsaPrivate k => .rsaPublic k.publicKey
  | .dsaPrivate k => .dsaPublic k.publicKey
  | .aes k => .aes k
  | .hmac k => .hmac k
  | .rsaPublic k => .rsaPublic k
  | .dsaPublic k => .dsaPublic k

@[simp]
theorem hash_publicPart (k : Key) : k.publicPart.hash = k.hash := by
  cases k with
  | aes _ | hmac _ | rsaPrivate _ | rsaPublic _ | dsaPrivate _ | dsaPublic _ => rfl

theorem publicHalf_of_type {k : Key} {type : KeyType} (h : k.type.publicHalf? = some type) :
    k.publicHalf = .ok k.publicPart ∧ k.publicPart.type = type := by
  cases k with
  | rsaPrivate _ | dsaPrivate _ =>
    rw [Key.type, KeyType.publicHalf?, Option.some.injEq] at h
    exact ⟨rfl, h⟩
  | aes _ | hmac _ | rsaPublic _ | dsaPublic _ => simp [Key.type, KeyType.publicHalf?] at h

end Key

namespace KeySet

/-- The same keys under other statuses. -/
def relabel (s : KeySet) (f : KeyVersion → Status) (primary : Option UInt32) : KeySet :=
  { s with metadata := s.metadata.relabel f, primary }

/-- The set with a key more, which is active. -/
def append (s : KeySet) (key : Key) : KeySet :=
  let version := s.metadata.lastVersion + 1
  { s with
    metadata := { s.metadata with
      lastVersion := version
      versions := s.versions ++ [⟨version, .active, false⟩] }
    keys := s.keys ++ [(version, key)]
    index := s.index ++ [(key.hash.toUInt32, version)] }

/-- The statuses after a version has taken over from the primary one. -/
def promotion (s : KeySet) (version : UInt32) (v : KeyVersion) : Status :=
  if v.version = version then .primary
  else if s.primary = some v.version then .active
  else v.status

/-- The set with a key more, which has some status. -/
def insert (s : KeySet) (status : Status) (key : Key) : KeySet :=
  let version := s.metadata.lastVersion + 1
  match status with
  | .primary => (s.append key).relabel ((s.append key).promotion version) (some version)
  | .active => s.append key
  | .scheduledForRevocation =>
    (s.append key).relabel
      (fun v => if v.version = version then .scheduledForRevocation else v.status) s.primary

/-- The set without a version. -/
def erase (s : KeySet) (version : UInt32) : KeySet :=
  { s with
    metadata := s.metadata.removeVersion version
    keys := s.keys.filter (·.1 != version)
    index := match s.keyByVersion? version with
      | some key => s.index.filter (·.1 != key.hash.toUInt32)
      | none => s.index }

/-- The purpose of the public half of a set, if it has one. -/
def publicPurpose? : Purpose → KeyType → Option Purpose
  | .signAndVerify, .rsaPrivate | .signAndVerify, .dsaPrivate => some .verify
  | .decryptAndEncrypt, .rsaPrivate => some .encrypt
  | _, _ => none

/-- The set under another purpose and key type, with the public parts of its keys. -/
def publicPart (s : KeySet) (purpose : Purpose) (keyType : KeyType) : KeySet :=
  { s with
    metadata := { s.metadata with purpose, keyType }
    keys := s.keys.map fun (version, key) => (version, key.publicPart) }

theorem setStatus_eq_relabel (s : KeySet) (version : UInt32) (status : Status) :
    s.setStatus version status =
      s.relabel (fun v => if v.version = version then status else v.status) s.primary := by
  unfold setStatus relabel
  rw [Metadata.setStatus_eq_relabel]

theorem relabel_self (s : KeySet) : s.relabel (·.status) s.primary = s := by
  simp [relabel, Metadata.relabel]

theorem relabel_relabel (s : KeySet) (f g : KeyVersion → Status) (p q : Option UInt32) :
    (s.relabel f p).relabel g q = s.relabel (fun v => g { v with status := f v }) q := by
  unfold relabel
  rw [Metadata.relabel_relabel]

theorem accepting_eq_ok {s : KeySet} {operations : OperationClass}
    (h : operations.accepts s.purpose) : s.accepting operations = .ok ⟨h⟩ := by
  unfold accepting
  rw [dif_pos h]

theorem accepting_eq_error {s : KeySet} {operations : OperationClass}
    (h : ¬operations.accepts s.purpose) :
    s.accepting operations =
      .error (.unacceptablePurpose s.purpose "purpose does not permit this operation") := by
  unfold accepting
  rw [dif_neg h]

theorem status_eq (s : KeySet) (version : UInt32) :
    s.status version = match s.metadata.version? version with
      | some v => .ok v.status
      | none => .error (.versionNotFound version) := by
  rfl

theorem promote_eq (s : KeySet) (version : UInt32) :
    s.promote version = match s.metadata.version? version with
      | some v =>
        .ok (if v.status = .primary then s else s.relabel (s.promotion version) (some version))
      | none => .error (.versionNotFound version) := by
  unfold promote
  rw [status_eq]
  cases s.metadata.version? version with
  | none => simp
  | some v =>
    simp only [ok_bind, pure_eq_ok]
    split
    . rfl
    . apply congrArg
      cases hprimary : s.primary with
      | none =>
        simp only [setStatus_eq_relabel]
        unfold promotion relabel
        simp [hprimary]
      | some former =>
        simp only [setStatus_eq_relabel, relabel_relabel]
        unfold promotion relabel
        simp only [hprimary, Option.some.injEq, eq_comm]

theorem demote_eq (s : KeySet) (version : UInt32) :
    s.demote version = match s.metadata.version? version with
      | some v =>
        .ok (if v.status = .primary then
          s.relabel (fun v => if v.version = version then .active else v.status) none
        else
          s.relabel (fun v => if v.version = version then .scheduledForRevocation else v.status)
            s.primary)
      | none => .error (.versionNotFound version) := by
  unfold demote
  rw [status_eq]
  cases s.metadata.version? version with
  | none => simp
  | some v =>
    simp only [ok_bind, pure_eq_ok]
    cases v.status with
    | primary => simp [setStatus_eq_relabel, relabel]
    | active => simp [setStatus_eq_relabel]
    | scheduledForRevocation => simp [setStatus_eq_relabel]

theorem revoke_eq (s : KeySet) (version : UInt32) :
    s.revoke version = match s.metadata.version? version with
      | some v =>
        if v.status = .scheduledForRevocation then
          .ok (s.erase version)
        else
          .error (.invalidStatusForRevocation version)
      | none => .error (.versionNotFound version) := by
  unfold revoke
  rw [status_eq]
  cases s.metadata.version? version with
  | none => simp
  | some v =>
    simp only [ok_bind, pure_eq_ok, throw_eq_error, error_bind, ite_not]
    split
    . rfl
    . rfl

theorem match_version?_eq_ok_iff {m : Metadata} (h : m.Valid) {version : UInt32} {e : Error}
    {f : KeyVersion → Except Error KeySet} {s' : KeySet} :
    (match m.version? version with
      | some v => f v
      | none => .error e) = .ok s' ↔ ∃ v ∈ m.versions, v.version = version ∧ f v = .ok s' := by
  split
  . next v hv =>
    rw [h.version?_eq_some_iff] at hv
    rcases hv with ⟨hv, rfl⟩
    constructor
    . intro hs'
      exact ⟨v, hv, rfl, hs'⟩
    . rintro ⟨w, hw, heq, hs'⟩
      rw [← h.eq_of_version_eq hw hv heq]
      exact hs'
  . next hnone =>
    constructor
    . simp
    . rintro ⟨v, hv, heq, _⟩
      rw [h.version?_eq_some_iff.mpr ⟨hv, heq⟩] at hnone
      simp at hnone

theorem promote_eq_ok_iff {s s' : KeySet} (h : s.metadata.Valid) {version : UInt32} :
    s.promote version = .ok s' ↔ ∃ v ∈ s.versions, v.version = version ∧
      s' = if v.status = .primary then s else s.relabel (s.promotion version) (some version) := by
  rw [promote_eq, match_version?_eq_ok_iff h]
  simp only [Except.ok.injEq, eq_comm]
  rfl

theorem demote_eq_ok_iff {s s' : KeySet} (h : s.metadata.Valid) {version : UInt32} :
    s.demote version = .ok s' ↔ ∃ v ∈ s.versions, v.version = version ∧
      s' = if v.status = .primary then
        s.relabel (fun v => if v.version = version then .active else v.status) none
      else
        s.relabel (fun v => if v.version = version then .scheduledForRevocation else v.status)
          s.primary := by
  rw [demote_eq, match_version?_eq_ok_iff h]
  simp only [Except.ok.injEq, eq_comm]
  rfl

theorem revoke_eq_ok_iff {s s' : KeySet} (h : s.metadata.Valid) {version : UInt32} :
    s.revoke version = .ok s' ↔ ∃ v ∈ s.versions, v.version = version ∧
      v.status = .scheduledForRevocation ∧ s' = s.erase version := by
  rw [revoke_eq, match_version?_eq_ok_iff h]
  constructor
  . rintro ⟨v, hv, hversion, hs'⟩
    split at hs'
    . next hstatus =>
      rw [Except.ok.injEq] at hs'
      exact ⟨v, hv, hversion, hstatus, hs'.symm⟩
    . simp at hs'
  . rintro ⟨v, hv, hversion, hstatus, rfl⟩
    refine ⟨v, hv, hversion, ?_⟩
    rw [if_pos hstatus]

theorem toNat_add_one {n : UInt32} (h : n ≠ 0xffffffff) : (n + 1).toNat = n.toNat + 1 := by
  have hlt := n.toNat_lt
  have hne : n.toNat ≠ 4294967295 := by
    intro heq
    apply h
    apply UInt32.toNat_inj.mp
    rw [heq]
    rfl
  rw [UInt32.toNat_add, UInt32.toNat_one]
  omega

theorem lt_add_one {n : UInt32} (h : n ≠ 0xffffffff) : n < n + 1 := by
  rw [UInt32.lt_iff_toNat_lt, toNat_add_one h]
  exact Nat.lt_succ_self _

theorem version_ne_next {s : KeySet} (h : s.metadata.Valid)
    (hlast : s.metadata.lastVersion ≠ 0xffffffff) {v : KeyVersion} (hv : v ∈ s.versions) :
    v.version ≠ s.metadata.lastVersion + 1 := by
  intro heq
  have hle := h.le_last v.version (Metadata.mem_numbers_of_mem hv)
  rw [heq] at hle
  exact UInt32.not_le.mpr (lt_add_one hlast) hle

theorem version?_append {s : KeySet} (h : s.metadata.Valid) (key : Key)
    (hlast : s.metadata.lastVersion ≠ 0xffffffff) :
    (s.append key).metadata.version? (s.metadata.lastVersion + 1) =
      some ⟨s.metadata.lastVersion + 1, .active, false⟩ := by
  unfold append Metadata.version?
  rw [List.find?_append, List.find?_eq_none.mpr]
  . simp
  . intro v hv heq
    exact version_ne_next h hlast hv (eq_of_beq heq)

theorem keys_insert (s : KeySet) (status : Status) (key : Key) :
    (s.insert status key).keys = s.keys ++ [(s.metadata.lastVersion + 1, key)] := by
  cases status with
  | primary => rfl
  | active => rfl
  | scheduledForRevocation => rfl

theorem tryInsert_eq {s : KeySet} (h : s.metadata.Valid) (status : Status) (key : Key) :
    s.tryInsert status key =
      if key.type ≠ s.keyType then
        .error (.unsupportedType key.type.tag)
      else if s.hasHash key.hash then
        .ok none
      else if s.metadata.lastVersion = 0xffffffff then
        .error (.badFormat "version numbers exhausted")
      else
        .ok (some (s.metadata.lastVersion + 1, s.insert status key)) := by
  unfold tryInsert
  simp only [throw_eq_error, error_bind, pure_eq_ok]
  split
  . rfl
  . split
    . rfl
    . unfold Metadata.nextVersion
      split
      . rfl
      . next hlast =>
        have hpush : ¬ s.metadata.lastVersion + 1 ≤ s.metadata.lastVersion := by
          rw [UInt32.not_le]
          exact lt_add_one hlast
        have hpromote := promote_eq (s.append key) (s.metadata.lastVersion + 1)
        rw [version?_append h key hlast] at hpromote
        simp only [ok_bind, Metadata.pushVersion, hpush, ↓reduceIte]
        cases status with
        | primary =>
          change ((s.append key).promote (s.metadata.lastVersion + 1) >>= _) = _
          rw [hpromote]
          rfl
        | active => rfl
        | scheduledForRevocation =>
          simp only [setStatus_eq_relabel]
          rfl

theorem lastVersion_insert (s : KeySet) (status : Status) (key : Key) :
    (s.insert status key).metadata.lastVersion = s.metadata.lastVersion + 1 := by
  cases status with
  | primary => rfl
  | active => rfl
  | scheduledForRevocation => rfl

theorem exists_tryInsert_of_go {σ : Type} {s : KeySet} {status : Status}
    {generate : EStateM Error σ Key} {attempts : Nat} {start rest : σ} {added : UInt32 × KeySet}
    (h : (addVersionWith.go s status generate attempts).run start = .ok added rest) :
    ∃ key, s.tryInsert status key = .ok (some added) := by
  induction attempts generalizing start with
  | zero => simp [addVersionWith.go] at h
  | succ attempts ih =>
    unfold addVersionWith.go at h
    simp only [run_bind_eq_ok_iff, run_ofExcept_eq_ok_iff] at h
    rcases h with ⟨key, t, _, inserted, _, ⟨hinsert, rfl⟩, hrest⟩
    cases inserted with
    | none =>
      -- The key was discarded, and the next attempt starts from the same set.
      exact ih hrest
    | some added' =>
      simp only [EStateM.run_pure, EStateM.Result.ok.injEq] at hrest
      rw [hrest.1] at hinsert
      exact ⟨key, hinsert⟩

theorem exists_tryInsert_of_addVersionWith {σ : Type} {s : KeySet} {status : Status}
    {generate : EStateM Error σ Key} {start rest : σ} {added : UInt32 × KeySet}
    (h : (s.addVersionWith status generate).run start = .ok added rest) :
    ∃ key, s.tryInsert status key = .ok (some added) := by
  apply exists_tryInsert_of_go
  exact h

theorem run_addVersionWith_pure {s : KeySet} {status : Status} {key : Key}
    {added : UInt32 × KeySet} (hattempts : s.config.maxGenerationAttempts ≠ 0)
    (h : s.tryInsert status key = .ok (some added)) :
    (s.addVersionWith status (pure key : EStateM Error Unit Key)).run () = .ok added () := by
  unfold addVersionWith
  cases hn : s.config.maxGenerationAttempts.toNat with
  | zero =>
    have hzero : s.config.maxGenerationAttempts = 0 := UInt32.toNat_inj.mp hn
    exact absurd hzero hattempts
  | succ n =>
    unfold addVersionWith.go
    rw [run_bind_of_ok (EStateM.run_pure key ()), h]
    rfl

theorem publicPurpose?_eq_some_iff {purpose purpose' : Purpose} {keyType : KeyType} :
    publicPurpose? purpose keyType = some purpose' ↔
      purpose = .signAndVerify ∧ (keyType = .rsaPrivate ∨ keyType = .dsaPrivate) ∧
        purpose' = .verify ∨
      purpose = .decryptAndEncrypt ∧ keyType = .rsaPrivate ∧ purpose' = .encrypt := by
  cases purpose <;> cases keyType <;> simp [publicPurpose?, eq_comm]

theorem exists_accepts_of_publicPurpose?_eq_some {purpose purpose' : Purpose} {keyType : KeyType}
    (h : publicPurpose? purpose keyType = some purpose') :
    ∃ keyType', keyType.publicHalf? = some keyType' ∧ purpose'.accepts keyType' := by
  rcases publicPurpose?_eq_some_iff.mp h with ⟨_, rfl | rfl, rfl⟩ | ⟨_, rfl, rfl⟩
  . exact ⟨.rsaPublic, rfl, rfl⟩
  . exact ⟨.dsaPublic, rfl, rfl⟩
  . exact ⟨.rsaPublic, rfl, rfl⟩

section PublicHalf

variable {s : KeySet} {purpose : Purpose} {keyType : KeyType}

theorem withPurpose_eq_ok (h : s.metadata.Valid)
    (hpurpose : publicPurpose? s.purpose s.keyType = some purpose)
    (hkeyType : s.keyType.publicHalf? = some keyType) :
    s.metadata.withPurpose purpose keyType = .ok (s.publicPart purpose keyType).metadata := by
  rcases exists_accepts_of_publicPurpose?_eq_some hpurpose with ⟨keyType', hkeyType', haccepts⟩
  rw [hkeyType, Option.some.injEq] at hkeyType'
  rw [Metadata.withPurpose_eq_ok_iff, hkeyType']
  exact ⟨⟨haccepts, h.name_le⟩, rfl⟩

theorem mapM_publicHalf_eq_ok (htypes : ∀ k ∈ s.keys, k.2.type = s.keyType) (purpose : Purpose)
    (hkeyType : s.keyType.publicHalf? = some keyType) :
    (s.keys.mapM fun (version, key) => return (version, ← key.publicHalf)) =
      .ok (s.publicPart purpose keyType).keys := by
  apply mapM_eq_ok
  rintro ⟨version, key⟩ hk
  rw [← htypes _ hk] at hkeyType
  dsimp only
  rw [(Key.publicHalf_of_type hkeyType).1]
  rfl

theorem publicHalf_eq (h : s.metadata.Valid) (htypes : ∀ k ∈ s.keys, k.2.type = s.keyType) :
    s.publicHalf = match publicPurpose? s.purpose s.keyType, s.keyType.publicHalf? with
      | some purpose, some keyType => .ok (s.publicPart purpose keyType)
      | _, _ => .error (.unacceptablePurpose s.purpose "key set has no public keys to export") := by
  have hsteps : s.publicHalf =
      match publicPurpose? s.purpose s.keyType, s.keyType.publicHalf? with
      | some purpose, some keyType =>
        s.metadata.withPurpose purpose keyType >>= fun metadata =>
          (s.keys.mapM fun (version, key) => return (version, ← key.publicHalf)) >>= fun keys =>
            .ok { s with metadata, keys }
      | _, _ =>
        .error (.unacceptablePurpose s.purpose "key set has no public keys to export") := by
    unfold publicHalf
    generalize s.purpose = purpose
    generalize s.keyType = keyType
    cases purpose <;> cases keyType <;> rfl
  rw [hsteps]
  split
  . next purpose keyType hpurpose hkeyType =>
    rw [withPurpose_eq_ok h hpurpose hkeyType, ok_bind]
    rw [mapM_publicHalf_eq_ok htypes purpose hkeyType, ok_bind]
    rfl
  . rfl

theorem publicHalf_eq_ok_iff (h : s.metadata.Valid) (htypes : ∀ k ∈ s.keys, k.2.type = s.keyType)
    {s' : KeySet} :
    s.publicHalf = .ok s' ↔ ∃ purpose keyType,
      publicPurpose? s.purpose s.keyType = some purpose ∧
        s.keyType.publicHalf? = some keyType ∧ s' = s.publicPart purpose keyType := by
  rw [publicHalf_eq h htypes]
  split
  . next purpose keyType hpurpose hkeyType =>
    simp [hpurpose, hkeyType, eq_comm]
  . next hnone =>
    constructor
    . simp
    . rintro ⟨purpose, keyType, hpurpose, hkeyType, _⟩
      exact absurd hkeyType (hnone purpose keyType hpurpose)

end PublicHalf

end KeySet

end Keyring
