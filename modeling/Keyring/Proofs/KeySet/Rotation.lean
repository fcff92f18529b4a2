import Keyring.Proofs.Envelope.Header
import Keyring.Proofs.KeySet.Invariant
/-!
This module contains what rotation does to existing signatures and ciphertexts: nothing, until the
key that made them is revoked, and from then on nobody finds the key.
-/

namespace Keyring

namespace Change

/-- The keys of a set after a change. -/
def keysAfter : Change → List (UInt32 × Key) → List (UInt32 × Key)
  | .added version key, keys => keys ++ [(version, key)]
  | .revoked version, keys => keys.filter (·.1 != version)
  | .failed _, keys | .promoted _, keys | .demoted _, keys => keys

/-- Whether a change is one of statuses at most. -/
def keepsKeys : Change → Bool
  | .failed _ | .promoted _ | .demoted _ => true
  | .added _ _ | .revoked _ => false

theorem mem_keysAfter_iff {change : Change} {keys : List (UInt32 × Key)} {k : UInt32 × Key} :
    k ∈ change.keysAfter keys ↔
      (k ∈ keys ∧ change ≠ .revoked k.1) ∨ change = .added k.1 k.2 := by
  cases change with
  | added version key =>
    have hpair : k = (version, key) ↔ version = k.1 ∧ key = k.2 := by
      rw [Prod.ext_iff]
      exact and_congr eq_comm eq_comm
    simp [keysAfter, hpair]
  | revoked version => simp [keysAfter, ne_comm]
  | failed _ | promoted _ | demoted _ => simp [keysAfter]

end Change

namespace KeySet

/-- What a step does to a set, as far as lookups can tell. -/
structure Effect (s : KeySet) (change : Change) (s' : KeySet) : Prop where
  config_eq : s'.config = s.config
  purpose_eq : s'.purpose = s.purpose
  keys_eq : s'.keys = change.keysAfter s.keys
  lastVersion_le : s.metadata.lastVersion ≤ s'.metadata.lastVersion
  fresh : ∀ version key, change = .added version key → s.metadata.lastVersion < version
  present : ∀ version, change = .revoked version → version ∈ s.metadata.numbers

namespace Effect

variable {s : KeySet} {change : Change}

theorem of_relabel (h : change.keepsKeys) (f : KeyVersion → Status) (primary : Option UInt32) :
    s.Effect change (s.relabel f primary) := by
  cases change with
  | failed _ | promoted _ | demoted _ =>
    refine ⟨rfl, rfl, rfl, UInt32.le_refl _, ?_, ?_⟩
    . intro _ _ heq
      simp at heq
    . intro _ heq
      simp at heq
  | added _ _ | revoked _ => simp [Change.keepsKeys] at h

theorem refl (h : change.keepsKeys) : s.Effect change s := by
  have heffect := of_relabel (s := s) h (·.status) s.primary
  rw [relabel_self] at heffect
  exact heffect

theorem insert (hlast : s.metadata.lastVersion ≠ 0xffffffff) (status : Status) (key : Key) :
    s.Effect (.added (s.metadata.lastVersion + 1) key) (s.insert status key) := by
  have happend : s.Effect (.added (s.metadata.lastVersion + 1) key) (s.append key) := by
    refine ⟨rfl, rfl, rfl, UInt32.le_of_lt (lt_add_one hlast), ?_, ?_⟩
    . intro version key heq
      rw [Change.added.injEq] at heq
      rw [← heq.1]
      exact lt_add_one hlast
    . intro version heq
      simp at heq
  cases status with
  | primary | active | scheduledForRevocation => exact { happend with }

theorem erase {v : KeyVersion} (hv : v ∈ s.versions) :
    s.Effect (.revoked v.version) (s.erase v.version) := by
  refine ⟨rfl, rfl, rfl, UInt32.le_refl _, ?_, ?_⟩
  . intro version key heq
    simp at heq
  . intro version heq
    rw [Change.revoked.injEq] at heq
    rw [← heq]
    exact Metadata.mem_numbers_of_mem hv

end Effect

namespace Consistent

variable {s s' : KeySet}

theorem effect (h : s.Consistent) {change : Change} (hstep : s.Step change s') :
    s.Effect change s' := by
  cases hstep with
  | add hs' hkey =>
    rcases exists_tryInsert_of_addVersionWith hs' with ⟨key', hkey'⟩
    rcases h.tryInsert hkey' with ⟨htype, hfresh, hlast, rfl, rfl⟩
    rw [h.keyByVersion?_insert htype hfresh hlast, Option.some.injEq] at hkey
    rw [← hkey]
    exact .insert hlast _ _
  | promote hs' =>
    rcases (promote_eq_ok_iff h.valid).mp hs' with ⟨v, _, _, rfl⟩
    split
    . exact .refl rfl
    . exact .of_relabel rfl _ _
  | demote hs' =>
    rcases (demote_eq_ok_iff h.valid).mp hs' with ⟨v, _, _, rfl⟩
    split
    . exact .of_relabel rfl _ _
    . exact .of_relabel rfl _ _
  | revoke hs' =>
    rcases (revoke_eq_ok_iff h.valid).mp hs' with ⟨v, hv, rfl, _, rfl⟩
    exact .erase hv
  | addFailed | promoteFailed | demoteFailed | revokeFailed => exact .refl rfl

theorem run (h : s.Consistent) {changes : List Change} (hrun : s.Run changes s') :
    s'.Consistent := by
  induction hrun with
  | nil => exact h
  | cons hstep _ ih => exact ih (h.step hstep)

theorem use_of_run (h : s.Consistent) {changes : List Change} (hrun : s.Run changes s') :
    s'.config = s.config ∧ s'.purpose = s.purpose := by
  induction hrun with
  | nil => exact ⟨rfl, rfl⟩
  | cons hstep _ ih =>
    have heffect := h.effect hstep
    have hrest := ih (h.step hstep)
    exact ⟨hrest.1.trans heffect.config_eq, hrest.2.trans heffect.purpose_eq⟩

theorem mem_keys_of_run (h : s.Consistent) {changes : List Change} (hrun : s.Run changes s')
    {k : UInt32 × Key} (hk : k ∈ s.keys) (hkept : .revoked k.1 ∉ changes) : k ∈ s'.keys := by
  induction hrun with
  | nil => exact hk
  | @cons s t _ change _ hstep _ ih =>
    rw [List.mem_cons, not_or] at hkept
    apply ih (h.step hstep) _ hkept.2
    rw [(h.effect hstep).keys_eq, Change.mem_keysAfter_iff]
    exact .inl ⟨hk, Ne.symm hkept.1⟩

theorem mem_keys_of_mem_run (h : s.Consistent) {changes : List Change} (hrun : s.Run changes s')
    {k : UInt32 × Key} (hk : k ∈ s'.keys) (hle : k.1 ≤ s.metadata.lastVersion) : k ∈ s.keys := by
  induction hrun with
  | nil => exact hk
  | @cons s t _ change _ hstep _ ih =>
    have heffect := h.effect hstep
    -- Only numbers above the last one are assigned, so the first step did not add this key.
    have hmem := ih (h.step hstep) hk (UInt32.le_trans hle heffect.lastVersion_le)
    rw [heffect.keys_eq, Change.mem_keysAfter_iff] at hmem
    cases hmem with
    | inl hold => exact hold.1
    | inr hnew => exact absurd hle (UInt32.not_le.mpr (heffect.fresh k.1 k.2 hnew))

theorem hash_ne_of_run (h : s.Consistent) {changes : List Change} (hrun : s.Run changes s')
    {hash : KeyHash} (hnone : ∀ k ∈ s.keys, k.2.hash ≠ hash)
    (hadded : ∀ version key, .added version key ∈ changes → key.hash ≠ hash) :
    ∀ k ∈ s'.keys, k.2.hash ≠ hash := by
  induction hrun with
  | nil => exact hnone
  | @cons s t _ change _ hstep _ ih =>
    apply ih (h.step hstep)
    . intro k hk
      rw [(h.effect hstep).keys_eq, Change.mem_keysAfter_iff] at hk
      cases hk with
      | inl hold => exact hnone k hold.1
      | inr hnew =>
        apply hadded k.1 k.2
        rw [hnew]
        exact List.mem_cons_self
    . intro version key hmem
      exact hadded version key (List.mem_cons_of_mem change hmem)

theorem keyByHash?_of_run (h : s.Consistent) {changes : List Change} (hrun : s.Run changes s')
    {k : UInt32 × Key} (hk : k ∈ s.keys) (hkept : .revoked k.1 ∉ changes) :
    s'.keyByHash? k.2.hash = s.keyByHash? k.2.hash := by
  have hs : s.keyByHash? k.2.hash = some k.2 :=
    h.keyByHash?_eq_some_iff.mpr ⟨rfl, k.1, hk⟩
  have hs' : s'.keyByHash? k.2.hash = some k.2 :=
    (h.run hrun).keyByHash?_eq_some_iff.mpr ⟨rfl, k.1, h.mem_keys_of_run hrun hk hkept⟩
  rw [hs, hs']

theorem hash_ne_of_revoked (h : s.Consistent) {k : UInt32 × Key} (hk : k ∈ s.keys)
    (hstep : s.Step (.revoked k.1) s') : ∀ k' ∈ s'.keys, k'.2.hash ≠ k.2.hash := by
  intro k' hk' heq
  rw [(h.effect hstep).keys_eq, Change.mem_keysAfter_iff] at hk'
  cases hk' with
  | inl hold =>
    apply hold.2
    rw [List.inj_on_of_nodup_map h.holds.nodup_hashes hold.1 hk heq]
  | inr hnew => simp at hnew

theorem keyByHash?_of_revoked (h : s.Consistent) {before after : List Change}
    {k : UInt32 × Key} (hk : k ∈ s.keys) (hrun : s.Run (before ++ .revoked k.1 :: after) s')
    (hadded : ∀ version key, .added version key ∈ after → key.hash ≠ k.2.hash) :
    s'.keyByHash? k.2.hash = none := by
  rcases hrun.exists_of_append with ⟨t, hbefore, hrest⟩
  cases hrest with
  | @cons _ u _ _ _ hstep hafter =>
    have ht := h.run hbefore
    have hle : k.1 ≤ s.metadata.lastVersion := by
      apply h.valid.le_last
      rw [h.mem_numbers_iff]
      exact ⟨k.2, hk⟩
    -- The version still has the key that it had at the start, as its number has not been reused.
    have hmem : k ∈ t.keys := by
      rcases ht.mem_numbers_iff.mp ((ht.effect hstep).present k.1 rfl) with ⟨k', hk'⟩
      have hold := h.mem_keys_of_mem_run hbefore hk' hle
      rw [List.inj_on_of_nodup_map h.nodup_versions hk hold rfl]
      exact hk'
    have hu := ht.step hstep
    rw [(hu.run hafter).keyByHash?_eq_none_iff]
    exact hu.hash_ne_of_run hafter (ht.hash_ne_of_revoked hmem hstep) hadded

end Consistent

theorem Reachable.rotation_keeps_verdicts {s s' : KeySet} (h : s.Reachable) {version : UInt32}
    {k : Key} (hk : s.keyByVersion? version = some k) {changes : List Change}
    (hrun : s.Run changes s') :
    (.revoked version ∉ changes →
      s'.purpose = s.purpose ∧
      (∀ message signature, (signature.drop 1).take 4 = k.hash.bytes →
        s'.verify message signature = s.verify message signature) ∧
      ∀ ciphertext, (ciphertext.drop 1).take 4 = k.hash.bytes →
        s'.decrypt ciphertext = s.decrypt ciphertext) ∧
    ∀ before after, changes = before ++ .revoked version :: after →
      (∀ version' key, .added version' key ∈ after → key.hash ≠ k.hash) →
      ∀ rest, (∀ message,
          s'.verify message (0 :: k.hash.bytes ++ rest) = .error (.keyNotFound k.hash)) ∧
        s'.decrypt (0 :: k.hash.bytes ++ rest) = .error (.keyNotFound k.hash) := by
  have hs := h.consistent
  rw [hs.keyByVersion?_eq_some_iff] at hk
  constructor
  . intro hkept
    have hkey := hs.keyByHash?_of_run hrun hk hkept
    have huse := hs.use_of_run hrun
    refine ⟨huse.2, ?_, ?_⟩
    . intro message signature hname
      exact verify_congr hkey hname message
    . intro ciphertext hname
      exact decrypt_congr hkey huse.1 hname
  . rintro before after rfl hadded rest
    have hnone := hs.keyByHash?_of_revoked hk hrun hadded
    refine ⟨?_, decrypt_of_keyByHash?_eq_none hnone rest⟩
    intro message
    exact verify_of_keyByHash?_eq_none hnone message rest

/-- What the former primary key of the sample made of the message `[7]`. -/
def sampleSignature : Bytes :=
  [0, 73, 71, 49, 156, 57, 162, 103, 27, 139, 69, 69, 25, 164, 96, 18, 213, 104, 124, 96, 198, 143,
    186, 120, 214]

theorem rotation_keeps_verdicts_sample :
    (sampleEmpty.insert .primary (sampleKey 1)).sign [7] = .ok sampleSignature ∧
      ∃ scheduled revoked, sample.Run [.demoted 1] scheduled ∧
        sample.Run [.demoted 1, .revoked 1] revoked ∧
        scheduled.verify [7] sampleSignature = .ok true ∧
        revoked.verify [7] sampleSignature = .error (.keyNotFound (sampleKey 1).hash) := by
  refine ⟨by decide +kernel, ?_⟩
  let f (v : KeyVersion) : Status := if v.version = 1 then .scheduledForRevocation else v.status
  have hdemote : sample.demote 1 = .ok (sample.relabel f (some 2)) := by decide +kernel
  have hrevoke : (sample.relabel f (some 2)).revoke 1 =
      .ok ((sample.relabel f (some 2)).erase 1) := by decide +kernel
  have hrun : sample.Run [.demoted 1] (sample.relabel f (some 2)) := .cons (.demote hdemote) .nil
  have hrun' : sample.Run [.demoted 1, .revoked 1] ((sample.relabel f (some 2)).erase 1) :=
    .cons (.demote hdemote) (.cons (.revoke hrevoke) .nil)
  have hkey : sample.keyByVersion? 1 = some (sampleKey 1) := by decide +kernel
  refine ⟨_, _, hrun, hrun', ?_, ?_⟩
  . rw [((reachable_sample.rotation_keeps_verdicts hkey hrun).1 (by decide)).2.1 [7] sampleSignature
      (by decide +kernel)]
    decide +kernel
  . have hnone := (reachable_sample.rotation_keeps_verdicts hkey hrun').2 [.demoted 1] [] rfl
      (by simp) (sampleSignature.drop 5)
    have hsplit : sampleSignature = 0 :: (sampleKey 1).hash.bytes ++ sampleSignature.drop 5 := by
      decide +kernel
    rw [hsplit]
    exact hnone.1 [7]

end KeySet

end Keyring
