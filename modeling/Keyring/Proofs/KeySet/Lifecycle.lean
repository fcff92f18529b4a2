import Keyring.Proofs.KeySet.InPlace
import Keyring.Proofs.KeySet.Invariant
/-!
This module contains what promoting, demoting and revoking a version do to a key set, for every
status that the version can have. The sets that they leave are given as a whole, so that what a
definition does not mention is as it was.
-/

namespace Keyring

namespace Metadata

theorem version?_relabel (m : Metadata) (f : KeyVersion → Status) (version : UInt32) :
    (m.relabel f).version? version =
      (m.version? version).map fun v => { v with status := f v } := by
  unfold version? relabel
  rw [List.find?_map]
  rfl

theorem version?_eq_none_iff {m : Metadata} {version : UInt32} :
    m.version? version = none ↔ version ∉ m.numbers := by
  simp [version?, numbers]

end Metadata

namespace KeySet

/-- The set with a version as the only primary one. -/
def promoted (s : KeySet) (version : UInt32) : KeySet :=
  s.relabel
    (fun v =>
      if v.version = version then .primary
      else if v.status = .primary then .active
      else v.status)
    (some version)

/-- The set with a version under another status, and with some primary version. -/
def restated (s : KeySet) (version : UInt32) (status : Status) (primary : Option UInt32) : KeySet :=
  s.relabel (fun v => if v.version = version then status else v.status) primary

/-- The set without the entry of a version, its key and what leads to the key in the index. -/
def without (s : KeySet) (version : UInt32) : KeySet :=
  { s with
    metadata := { s.metadata with versions := s.versions.filter (·.version != version) }
    keys := s.keys.filter (·.1 != version)
    index := s.index.filter (·.2 != version) }

variable {s : KeySet} {version : UInt32}

theorem mem_versions_relabel_iff {f : KeyVersion → Status} {primary : Option UInt32}
    {v : KeyVersion} :
    v ∈ (s.relabel f primary).versions ↔ ∃ w ∈ s.versions, { w with status := f w } = v := by
  exact List.mem_map

theorem status_eq_primary_iff_of_promoted {v : KeyVersion}
    (hv : v ∈ (s.promoted version).versions) : v.status = .primary ↔ v.version = version := by
  rcases mem_versions_relabel_iff.mp hv with ⟨w, _, rfl⟩
  dsimp only
  split
  . next heq => simp [heq]
  . next hne =>
    split
    . simp [hne]
    . next hstatus => simp [hne, hstatus]

theorem relabel_congr {f g : KeyVersion → Status} (h : ∀ v ∈ s.versions, f v = g v)
    (primary : Option UInt32) : s.relabel f primary = s.relabel g primary := by
  have hversions : s.versions.map (fun v => { v with status := f v }) =
      s.versions.map fun v => { v with status := g v } := by
    apply List.map_congr_left
    intro v hv
    rw [h v hv]
  unfold versions at hversions
  unfold relabel Metadata.relabel
  rw [hversions]

theorem relabel_eq_self {f : KeyVersion → Status} (h : ∀ v ∈ s.versions, f v = v.status) :
    s.relabel f s.primary = s := by
  rw [relabel_congr h, relabel_self]

theorem restated_restated (s : KeySet) (version : UInt32) (status status' : Status)
    (primary primary' : Option UInt32) :
    (s.restated version status primary).restated version status' primary' =
      s.restated version status' primary' := by
  unfold restated
  rw [relabel_relabel]
  apply relabel_congr
  intro v _
  dsimp only
  split
  . rfl
  . rfl

theorem filter_versions_restated (s : KeySet) (version : UInt32) (status : Status)
    (primary : Option UInt32) :
    (s.restated version status primary).versions.filter (·.version != version) =
      s.versions.filter (·.version != version) := by
  have hothers : ∀ v ∈ s.versions.filter (·.version != version),
      { v with status := if v.version = version then status else v.status } = id v := by
    intro v hv
    have hne : v.version ≠ version := by simpa using (List.mem_filter.mp hv).2
    rw [if_neg hne]
    rfl
  change (s.versions.map _).filter _ = _
  rw [List.filter_map]
  exact (List.map_congr_left hothers).trans (List.map_id _)

theorem without_restated (s : KeySet) (version : UInt32) (status : Status)
    (primary : Option UInt32) :
    (s.restated version status primary).without version = { s.without version with primary } := by
  unfold without
  rw [filter_versions_restated]
  rfl

theorem status_restated (h : version ∈ s.metadata.numbers) (status : Status)
    (primary : Option UInt32) :
    (s.restated version status primary).status version = .ok status := by
  rw [status_eq, restated, relabel, Metadata.version?_relabel]
  cases hfind : s.metadata.version? version with
  | none => exact absurd h (Metadata.version?_eq_none_iff.mp hfind)
  | some v =>
    have hv : v.version = version := by simpa using List.find?_some hfind
    rw [Option.map_some, hv, if_pos rfl]

theorem status_of_not_mem (h : version ∉ s.metadata.numbers) :
    s.status version = .error (.versionNotFound version) := by
  rw [status_eq, Metadata.version?_eq_none_iff.mpr h]

theorem restated_primary (s : KeySet) (version : UInt32) (status : Status) :
    s.restated version status s.primary = s.setStatus version status := by
  rw [setStatus_eq_relabel]
  rfl

theorem demote_of_primary (h : s.status version = .ok .primary) :
    s.demote version = .ok (s.restated version .active none) := by
  unfold demote
  rw [h, ok_bind, setStatus_eq_relabel]
  rfl

theorem demote_of_ne_primary {status : Status} (h : s.status version = .ok status)
    (hne : status ≠ .primary) :
    s.demote version = .ok (s.restated version .scheduledForRevocation s.primary) := by
  unfold demote
  rw [h, ok_bind, restated_primary]
  cases status with
  | primary => exact absurd rfl hne
  | active | scheduledForRevocation => rfl

theorem revoke_of_scheduled (h : s.status version = .ok .scheduledForRevocation) :
    s.revoke version = .ok (s.erase version) := by
  unfold revoke
  rw [h]
  rfl

theorem revoke_of_ne_scheduled {status : Status} (h : s.status version = .ok status)
    (hne : status ≠ .scheduledForRevocation) :
    s.revoke version = .error (.invalidStatusForRevocation version) := by
  unfold revoke
  rw [h, ok_bind, if_pos hne]
  rfl

namespace Consistent

variable {v : KeyVersion}

theorem status_eq_ok (h : s.Consistent) (hv : v ∈ s.versions) :
    s.status v.version = .ok v.status := by
  rw [status_eq, h.valid.version?_eq_some_iff.mpr ⟨hv, rfl⟩]

theorem restated_self (h : s.Consistent) (hv : v ∈ s.versions) :
    s.restated v.version v.status s.primary = s := by
  apply relabel_eq_self
  intro w hw
  split
  . next heq => rw [h.valid.eq_of_version_eq hw hv heq]
  . rfl

theorem promoted_self (h : s.Consistent) (hv : v ∈ s.versions) (hstatus : v.status = .primary) :
    s.promoted v.version = s := by
  unfold promoted
  rw [← (h.primary_eq_iff hv).mpr hstatus]
  apply relabel_eq_self
  intro w hw
  split
  . next heq => rw [h.valid.eq_of_version_eq hw hv heq, hstatus]
  . next hne =>
    split
    . next hprimary =>
      -- Another version cannot be primary, as the set names only one.
      rw [← h.primary_eq_iff hw, (h.primary_eq_iff hv).mpr hstatus, Option.some.injEq] at hprimary
      exact absurd hprimary.symm hne
    . rfl

theorem promote_eq_ok (h : s.Consistent) (hv : v ∈ s.versions) :
    s.promote v.version = .ok (s.promoted v.version) := by
  rw [promote_eq_ok_iff h.valid]
  refine ⟨v, hv, rfl, ?_⟩
  split
  . next hstatus => exact h.promoted_self hv hstatus
  . apply relabel_congr
    intro w hw
    unfold KeySet.promotion
    simp only [h.primary_eq_iff hw]

theorem erase_eq (h : s.Consistent) (version : UInt32) : s.erase version = s.without version := by
  have hindex : (s.erase version).index = s.index.filter (·.2 != version) := by
    rw [h.index_erase, h.holds.index_eq, List.filter_map]
    rfl
  unfold without
  rw [← hindex]
  rfl

theorem exists_demote_eq_ok (h : s.Consistent) (hv : v ∈ s.versions) :
    ∃ status, status ≠ .primary ∧ s.demote v.version =
      .ok (s.restated v.version status (if v.status = .primary then none else s.primary)) := by
  split
  . next hstatus =>
    refine ⟨.active, by simp, demote_of_primary ?_⟩
    rw [h.status_eq_ok hv, hstatus]
  . next hstatus =>
    exact ⟨.scheduledForRevocation, by simp, demote_of_ne_primary (h.status_eq_ok hv) hstatus⟩

/-- Two steps down lead from any status to the one that can be revoked. -/
theorem demote_demote_revoke (h : s.Consistent) (hv : v ∈ s.versions) :
    (do
      let s ← s.demote v.version
      let s ← s.demote v.version
      s.revoke v.version) =
      .ok { s.without v.version with
        primary := if v.status = .primary then none else s.primary } := by
  have hmem := Metadata.mem_numbers_of_mem hv
  generalize hprimary : (if v.status = .primary then none else s.primary) = primary
  rcases h.exists_demote_eq_ok hv with ⟨status, hne, hfirst⟩
  rw [hprimary] at hfirst
  have hsecond : (s.restated v.version status primary).demote v.version =
      .ok (s.restated v.version .scheduledForRevocation primary) := by
    rw [demote_of_ne_primary (status_restated hmem _ _) hne]
    rw [restated_restated]
    rfl
  have hconsistent := (h.demote hfirst).demote hsecond
  rw [hfirst, ok_bind, hsecond, ok_bind, revoke_of_scheduled (status_restated hmem _ _)]
  rw [hconsistent.erase_eq, without_restated]

theorem demote_eq_ok (h : s.Consistent) (hv : v ∈ s.versions) :
    s.demote v.version = .ok (match v.status with
      | .primary => s.restated v.version .active none
      | .active => s.restated v.version .scheduledForRevocation s.primary
      | .scheduledForRevocation => s) := by
  have hstatus := h.status_eq_ok hv
  have hself := h.restated_self hv
  cases hcase : v.status with
  | primary =>
    rw [hcase] at hstatus
    exact demote_of_primary hstatus
  | active => exact demote_of_ne_primary hstatus (by simp [hcase])
  | scheduledForRevocation =>
    rw [hcase] at hself
    rw [demote_of_ne_primary hstatus (by simp [hcase]), hself]

theorem revoke_eq_ite (h : s.Consistent) (hv : v ∈ s.versions) :
    s.revoke v.version =
      if v.status = .scheduledForRevocation then .ok (s.without v.version)
      else .error (.invalidStatusForRevocation v.version) := by
  have hstatus := h.status_eq_ok hv
  split
  . next hscheduled =>
    rw [hscheduled] at hstatus
    rw [revoke_of_scheduled hstatus, h.erase_eq]
  . next hne => exact revoke_of_ne_scheduled hstatus hne

/-- There is one entry, one key and one pair of the index for a version. -/
theorem exists_views_of_version (h : s.Consistent) (hv : v ∈ s.versions) :
    ∃ key, s.keyByVersion? v.version = some key ∧
      (∀ w ∈ s.versions, w.version = v.version ↔ w = v) ∧
      (∀ k ∈ s.keys, k.1 = v.version ↔ k = (v.version, key)) ∧
      ∀ i ∈ s.index, i.2 = v.version ↔ i = (key.hash.toUInt32, v.version) := by
  rcases h.mem_numbers_iff.mp (Metadata.mem_numbers_of_mem hv) with ⟨key, hkey⟩
  have hkeys : ∀ k ∈ s.keys, k.1 = v.version ↔ k = (v.version, key) := by
    intro k hk
    constructor
    . intro heq
      exact List.inj_on_of_nodup_map h.nodup_versions hk hkey heq
    . rintro rfl
      rfl
  refine ⟨key, h.keyByVersion?_eq_some_iff.mpr hkey, ?_, hkeys, ?_⟩
  . intro w hw
    constructor
    . exact h.valid.eq_of_version_eq hw hv
    . rintro rfl
      rfl
  . intro i hi
    rw [h.holds.index_eq] at hi
    rcases List.mem_map.mp hi with ⟨k, hk, rfl⟩
    constructor
    . intro heq
      rw [(hkeys k hk).mp heq]
      rfl
    . intro heq
      rw [heq]

end Consistent

theorem Reachable.promote_demote_revoke (h : s.Reachable) (version : UInt32) :
    (version ∉ s.metadata.numbers →
      s.promote version = .error (.versionNotFound version) ∧
      s.demote version = .error (.versionNotFound version) ∧
      s.revoke version = .error (.versionNotFound version)) ∧
    (∀ v ∈ s.versions, v.version = version →
      (s.promote version = .ok (s.promoted version) ∧
        (∀ w ∈ (s.promoted version).versions, w.status = .primary ↔ w.version = version) ∧
        (v.status = .primary → s.promoted version = s)) ∧
      s.demote version = .ok (match v.status with
        | .primary => s.restated version .active none
        | .active => s.restated version .scheduledForRevocation s.primary
        | .scheduledForRevocation => s) ∧
      (s.revoke version =
          (if v.status = .scheduledForRevocation then .ok (s.without version)
          else .error (.invalidStatusForRevocation version)) ∧
        ∃ key, s.keyByVersion? version = some key ∧
          (∀ w ∈ s.versions, w.version = version ↔ w = v) ∧
          (∀ k ∈ s.keys, k.1 = version ↔ k = (version, key)) ∧
          ∀ i ∈ s.index, i.2 = version ↔ i = (key.hash.toUInt32, version)) ∧
      (do
        let s ← s.demote version
        let s ← s.demote version
        s.revoke version) =
        .ok { s.without version with
          primary := if v.status = .primary then none else s.primary }) ∧
    (∀ s', s.promote version = .ok s' → s'.promote version = .ok s') ∧
    (Editing.promote version).run s = Editing.ending s ((s.promote version).map ((), ·)) ∧
    (Editing.demote version).run s = Editing.ending s ((s.demote version).map ((), ·)) ∧
    (Editing.revoke version).run s = Editing.ending s ((s.revoke version).map ((), ·)) := by
  have hs := h.consistent
  refine ⟨?_, ?_, ?_, Editing.run_promote s version, Editing.run_demote s version,
    Editing.run_revoke s version⟩
  . intro hmissing
    have hstatus := status_of_not_mem hmissing
    unfold promote demote revoke
    rw [hstatus]
    exact ⟨rfl, rfl, rfl⟩
  . rintro v hv rfl
    refine ⟨⟨hs.promote_eq_ok hv, ?_, hs.promoted_self hv⟩, hs.demote_eq_ok hv,
      ⟨hs.revoke_eq_ite hv, hs.exists_views_of_version hv⟩, hs.demote_demote_revoke hv⟩
    intro w
    exact status_eq_primary_iff_of_promoted
  . intro s' hs'
    rcases (promote_eq_ok_iff hs.valid).mp hs' with ⟨v, hv, rfl, _⟩
    have hconsistent := hs.promote hs'
    rw [hs.promote_eq_ok hv, Except.ok.injEq] at hs'
    subst hs'
    have hv' : { v with status := .primary } ∈ (s.promoted v.version).versions := by
      rw [promoted, mem_versions_relabel_iff]
      exact ⟨v, hv, by simp⟩
    rw [hconsistent.promote_eq_ok hv', hconsistent.promoted_self hv' rfl]

theorem promote_demote_revoke_sample :
    sample.Reachable ∧ sample.metadata.numbers = [1, 2] ∧
      sample.revoke 3 = .error (.versionNotFound 3) ∧
      sample.promote 1 = .ok (sample.promoted 1) ∧
      sample.demote 1 = .ok (sample.restated 1 .scheduledForRevocation (some 2)) ∧
      sample.revoke 1 = .error (.invalidStatusForRevocation 1) ∧
      (do
        let s ← sample.demote 2
        let s ← s.demote 2
        s.revoke 2) = .ok { sample.without 2 with primary := none } := by
  have hmissing := Reachable.promote_demote_revoke reachable_sample 3
  have hactive := Reachable.promote_demote_revoke reachable_sample 1
  have hprimary := Reachable.promote_demote_revoke reachable_sample 2
  have h := hactive.2.1 ⟨1, .active, false⟩ (by decide +kernel) rfl
  have h' := hprimary.2.1 ⟨2, .primary, false⟩ (by decide +kernel) rfl
  exact ⟨reachable_sample, rfl, (hmissing.1 (by decide +kernel)).2.2, h.1.1, h.2.1, h.2.2.1.1,
    h'.2.2.2⟩

end KeySet

end Keyring
