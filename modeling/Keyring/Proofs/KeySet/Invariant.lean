import Keyring.Proofs.Bytes
import Keyring.Proofs.KeySet.Effect
import Keyring.Proofs.Metadata.Codec
/-!
This module contains the invariant of key sets: the entries of the metadata, the keys, the index of
hashes and the primary version, which every operation updates one by one, always tell the same.
-/

namespace Keyring

theorem lookup_eq_some_iff_mem {α β : Type} [BEq α] [LawfulBEq α] {l : List (α × β)}
    (h : (l.map (·.1)).Nodup) {a : α} {b : β} : l.lookup a = some b ↔ (a, b) ∈ l := by
  induction l with
  | nil => simp
  | cons p l ih =>
    rcases p with ⟨a', b'⟩
    rw [List.map_cons, List.nodup_cons] at h
    rw [List.lookup_cons, List.mem_cons, Prod.mk.injEq]
    split
    . next heq =>
      have heq := eq_of_beq heq
      have hnot : (a, b) ∉ l := by
        intro hmem
        apply h.1
        rw [← heq]
        exact List.mem_map_of_mem (f := (·.1)) hmem
      subst heq
      simp [hnot, eq_comm]
    . next hne =>
      rw [ih h.2]
      have hne : a ≠ a' := by simpa using hne
      simp [hne]

theorem lookup_map_snd {α β γ : Type} [BEq α] (f : β → γ) (l : List (α × β)) (a : α) :
    (l.map fun (a, b) => (a, f b)).lookup a = (l.lookup a).map f := by
  induction l with
  | nil => rfl
  | cons p l ih =>
    rw [List.map_cons, List.lookup_cons, List.lookup_cons, ih]
    split
    . rfl
    . rfl

namespace KeyHash

theorem toUInt32_inj {h h' : KeyHash} : h.toUInt32 = h'.toUInt32 ↔ h = h' := by
  constructor
  . intro heq
    have hlt := Bytes.toNat_lt h.bytes
    have hlt' := Bytes.toNat_lt h'.bytes
    rw [h.length_bytes] at hlt
    rw [h'.length_bytes] at hlt'
    have hmod := congrArg UInt32.toNat heq
    simp only [toUInt32, UInt32.toNat_ofNat'] at hmod
    -- Four bytes spell a number that fits, so nothing is lost.
    have hnat : Bytes.toNat h.bytes = Bytes.toNat h'.bytes := by
      omega
    have hbytes : h.bytes = h'.bytes :=
      Bytes.toNat_inj (h.length_bytes.trans h'.length_bytes.symm) hnat
    cases h
    cases h'
    congr
  . intro heq
    rw [heq]

end KeyHash

namespace KeySet

/-- The pair of the index that leads to a key and its version. -/
def indexEntry (k : UInt32 × Key) : UInt32 × UInt32 :=
  (k.2.hash.toUInt32, k.1)

/-- The keys, the index and the primary version of a set are those of some entries. -/
structure Holds (s : KeySet) (entries : List KeyVersion) : Prop where
  keys_eq : s.keys.map (·.1) = entries.map (·.version)
  index_eq : s.index = s.keys.map indexEntry
  nodup_hashes : (s.keys.map (·.2.hash)).Nodup
  type_eq : ∀ k ∈ s.keys, k.2.type = s.keyType
  primary_iff : ∀ version, s.primary = some version ↔
    ∃ v ∈ entries, v.version = version ∧ v.status = .primary

/-- The parts of a set tell the same. -/
structure Consistent (s : KeySet) : Prop where
  valid : s.metadata.Valid
  holds : s.Holds s.versions
  attempts_ne : s.config.maxGenerationAttempts ≠ 0

theorem Holds.empty (metadata : Metadata) (config : Config) :
    KeySet.Holds { metadata, config } [] := by
  constructor
  . rfl
  . rfl
  . exact List.nodup_nil
  . simp
  . simp

theorem Holds.concat {s t : KeySet} {entries : List KeyVersion} (h : s.Holds entries)
    {v : KeyVersion} {key : Key} (htype : key.type = s.keyType)
    (hfresh : ∀ k ∈ s.keys, k.2.hash ≠ key.hash) (hkeyType : t.keyType = s.keyType)
    (hkeys : t.keys = s.keys ++ [(v.version, key)])
    (hindex : t.index = s.index ++ [indexEntry (v.version, key)])
    (hprimary : ∀ version, t.primary = some version ↔
      s.primary = some version ∨ v.version = version ∧ v.status = .primary) :
    t.Holds (entries ++ [v]) := by
  constructor
  . simp [hkeys, h.keys_eq]
  . simp [hkeys, hindex, h.index_eq]
  . rw [hkeys, List.map_append, List.nodup_append]
    refine ⟨h.nodup_hashes, List.nodup_singleton _, ?_⟩
    intro hash hhash hash' hhash'
    rcases List.mem_map.mp hhash with ⟨k, hk, rfl⟩
    rw [List.mem_singleton.mp hhash']
    exact hfresh k hk
  . intro k hk
    rw [hkeys, List.mem_append, List.mem_singleton] at hk
    rw [hkeyType]
    cases hk with
    | inl hmem => exact h.type_eq k hmem
    | inr heq =>
      rw [heq]
      exact htype
  . intro version
    rw [hprimary, h.primary_iff]
    simp [or_and_right, exists_or]

theorem Holds.hasHash_eq_true_iff {s : KeySet} {entries : List KeyVersion} (h : s.Holds entries)
    {hash : KeyHash} : s.hasHash hash = true ↔ ∃ k ∈ s.keys, k.2.hash = hash := by
  unfold hasHash
  simp only [List.lookup_isSome_iff, h.index_eq, List.mem_map, beq_iff_eq]
  constructor
  . rintro ⟨_, ⟨k, hk, rfl⟩, heq⟩
    exact ⟨k, hk, KeyHash.toUInt32_inj.mp heq.symm⟩
  . rintro ⟨k, hk, rfl⟩
    exact ⟨indexEntry k, ⟨k, hk, rfl⟩, rfl⟩

theorem Holds.hasHash_eq_false_iff {s : KeySet} {entries : List KeyVersion} (h : s.Holds entries)
    {hash : KeyHash} : s.hasHash hash = false ↔ ∀ k ∈ s.keys, k.2.hash ≠ hash := by
  rw [← Bool.not_eq_true, h.hasHash_eq_true_iff]
  simp

namespace Consistent

variable {s : KeySet}

theorem nodup_versions (h : s.Consistent) : (s.keys.map (·.1)).Nodup := by
  rw [h.holds.keys_eq]
  exact h.valid.nodup

theorem nodup_index (h : s.Consistent) : (s.index.map (·.1)).Nodup := by
  have hmap : s.index.map (·.1) = (s.keys.map (·.2.hash)).map KeyHash.toUInt32 := by
    rw [h.holds.index_eq]
    simp [indexEntry]
  rw [hmap]
  apply h.holds.nodup_hashes.map
  intro a b hab
  exact KeyHash.toUInt32_inj.mp hab

theorem mem_index_iff (h : s.Consistent) {n version : UInt32} :
    (n, version) ∈ s.index ↔ ∃ k, (version, k) ∈ s.keys ∧ n = k.hash.toUInt32 := by
  rw [h.holds.index_eq, List.mem_map]
  constructor
  . rintro ⟨⟨v, k⟩, hk, heq⟩
    simp only [indexEntry, Prod.mk.injEq] at heq
    rcases heq with ⟨rfl, rfl⟩
    exact ⟨k, hk, rfl⟩
  . rintro ⟨k, hk, rfl⟩
    exact ⟨(version, k), hk, rfl⟩

theorem keyByVersion?_eq_some_iff (h : s.Consistent) {version : UInt32} {k : Key} :
    s.keyByVersion? version = some k ↔ (version, k) ∈ s.keys := by
  unfold keyByVersion?
  apply lookup_eq_some_iff_mem
  exact h.nodup_versions

theorem keyByHash?_eq_some_iff (h : s.Consistent) {hash : KeyHash} {k : Key} :
    s.keyByHash? hash = some k ↔ k.hash = hash ∧ ∃ version, (version, k) ∈ s.keys := by
  unfold keyByHash?
  rw [Option.bind_eq_bind, Option.bind_eq_some_iff]
  simp only [lookup_eq_some_iff_mem h.nodup_index, h.mem_index_iff, h.keyByVersion?_eq_some_iff]
  constructor
  . rintro ⟨version, ⟨k', hk', heq⟩, hk⟩
    have hkk : (version, k') = (version, k) :=
      List.inj_on_of_nodup_map h.nodup_versions hk' hk rfl
    rw [Prod.mk.injEq] at hkk
    rw [hkk.2, KeyHash.toUInt32_inj] at heq
    exact ⟨heq.symm, version, hk⟩
  . rintro ⟨rfl, version, hk⟩
    exact ⟨version, ⟨k, hk, rfl⟩, hk⟩

theorem keyByHash?_eq_none_iff (h : s.Consistent) {hash : KeyHash} :
    s.keyByHash? hash = none ↔ ∀ k ∈ s.keys, k.2.hash ≠ hash := by
  rw [Option.eq_none_iff_forall_not_mem]
  simp only [Option.mem_def, h.keyByHash?_eq_some_iff]
  constructor
  . intro hnone k hk heq
    exact hnone k.2 ⟨heq, k.1, hk⟩
  . rintro hne k ⟨heq, version, hk⟩
    exact hne (version, k) hk heq

theorem mem_numbers_iff (h : s.Consistent) {version : UInt32} :
    version ∈ s.metadata.numbers ↔ ∃ k, (version, k) ∈ s.keys := by
  have heq : s.metadata.numbers = s.keys.map (·.1) := h.holds.keys_eq.symm
  simp [heq]

theorem primary_eq_iff (h : s.Consistent) {v : KeyVersion} (hv : v ∈ s.versions) :
    s.primary = some v.version ↔ v.status = .primary := by
  rw [h.holds.primary_iff]
  constructor
  . rintro ⟨w, hw, heq, hstatus⟩
    rw [← h.valid.eq_of_version_eq hw hv heq]
    exact hstatus
  . intro hstatus
    exact ⟨v, hv, rfl, hstatus⟩

theorem primaryKey_eq_ok (h : s.Consistent) {version : UInt32} (hprimary : s.primary = some version)
    {key : Key} (hkey : (version, key) ∈ s.keys) : s.primaryKey = .ok key := by
  unfold primaryKey
  rw [hprimary, Option.bind_some, h.keyByVersion?_eq_some_iff.mpr hkey]

theorem exists_key_of_primary (h : s.Consistent) {version : UInt32}
    (hprimary : s.primary = some version) : ∃ key, (version, key) ∈ s.keys := by
  rcases (h.holds.primary_iff version).mp hprimary with ⟨v, hv, rfl, _⟩
  rw [← h.mem_numbers_iff]
  exact Metadata.mem_numbers_of_mem hv

theorem relabel (h : s.Consistent) {f : KeyVersion → Status} {primary : Option UInt32}
    (hprimary : ∀ version, primary = some version ↔
      ∃ v ∈ s.versions, v.version = version ∧ f v = .primary) :
    (s.relabel f primary).Consistent where
  valid := h.valid.relabel f
  holds := {
    keys_eq := h.holds.keys_eq.trans (Metadata.numbers_relabel s.metadata f).symm
    index_eq := h.holds.index_eq
    nodup_hashes := h.holds.nodup_hashes
    type_eq := h.holds.type_eq
    primary_iff := by
      intro version
      change primary = some version ↔ _
      rw [hprimary]
      simp [versions, KeySet.relabel, Metadata.relabel] }
  attempts_ne := h.attempts_ne

theorem promotion (h : s.Consistent) {v : KeyVersion} (hv : v ∈ s.versions) :
    (s.relabel (s.promotion v.version) (some v.version)).Consistent := by
  apply h.relabel
  intro version
  rw [Option.some.injEq]
  unfold KeySet.promotion
  constructor
  . rintro rfl
    exact ⟨v, hv, rfl, by simp⟩
  . rintro ⟨w, hw, rfl, hstatus⟩
    split at hstatus
    . next heq => exact heq.symm
    . split at hstatus
      . simp at hstatus
      . next hne =>
        rw [h.primary_eq_iff hw] at hne
        exact absurd hstatus hne

theorem promote (h : s.Consistent) {version : UInt32} {s' : KeySet}
    (hs' : s.promote version = .ok s') : s'.Consistent := by
  rcases (promote_eq_ok_iff h.valid).mp hs' with ⟨v, hv, rfl, rfl⟩
  split
  . exact h
  . exact h.promotion hv

theorem exists_promote (h : s.Consistent) {version : UInt32} {key : Key}
    (hkey : (version, key) ∈ s.keys) :
    ∃ f, s.promote version = .ok (s.relabel f (some version)) := by
  rcases List.mem_map.mp (h.mem_numbers_iff.mpr ⟨key, hkey⟩) with ⟨v, hv, rfl⟩
  simp only [promote_eq_ok_iff h.valid]
  by_cases hstatus : v.status = .primary
  . -- Promoting the primary version again keeps all statuses.
    refine ⟨(·.status), v, hv, rfl, ?_⟩
    rw [if_pos hstatus, ← (h.primary_eq_iff hv).mpr hstatus, relabel_self]
  . refine ⟨s.promotion v.version, v, hv, rfl, ?_⟩
    rw [if_neg hstatus]

theorem demote_primary (h : s.Consistent) {v : KeyVersion} (hv : v ∈ s.versions)
    (hstatus : v.status = .primary) :
    (s.relabel (fun w => if w.version = v.version then .active else w.status) none).Consistent := by
  have hprimary := (h.primary_eq_iff hv).mpr hstatus
  apply h.relabel
  intro version
  constructor
  . simp
  . rintro ⟨w, hw, rfl, hw'⟩
    split at hw'
    . simp at hw'
    . next hne =>
      rw [← h.primary_eq_iff hw, hprimary, Option.some.injEq] at hw'
      exact absurd hw'.symm hne

theorem schedule (h : s.Consistent) {v : KeyVersion} (hv : v ∈ s.versions)
    (hstatus : v.status ≠ .primary) :
    (s.relabel (fun w => if w.version = v.version then .scheduledForRevocation else w.status)
      s.primary).Consistent := by
  apply h.relabel
  intro version
  rw [h.holds.primary_iff]
  constructor
  . rintro ⟨w, hw, rfl, hw'⟩
    refine ⟨w, hw, rfl, ?_⟩
    split
    . next heq =>
      rw [h.valid.eq_of_version_eq hw hv heq] at hw'
      exact absurd hw' hstatus
    . exact hw'
  . rintro ⟨w, hw, rfl, hw'⟩
    split at hw'
    . simp at hw'
    . exact ⟨w, hw, rfl, hw'⟩

theorem demote (h : s.Consistent) {version : UInt32} {s' : KeySet}
    (hs' : s.demote version = .ok s') : s'.Consistent := by
  rcases (demote_eq_ok_iff h.valid).mp hs' with ⟨v, hv, rfl, rfl⟩
  split
  . next hstatus => exact h.demote_primary hv hstatus
  . next hstatus => exact h.schedule hv hstatus

theorem append (h : s.Consistent) {key : Key} (htype : key.type = s.keyType)
    (hfresh : s.hasHash key.hash = false) (hlast : s.metadata.lastVersion ≠ 0xffffffff) :
    (s.append key).Consistent := by
  have hpush : s.metadata.pushVersion ⟨s.metadata.lastVersion + 1, .active, false⟩ =
      .ok (s.append key).metadata := by
    unfold Metadata.pushVersion
    rw [if_neg (UInt32.not_le.mpr (lt_add_one hlast))]
    rfl
  constructor
  . exact h.valid.pushVersion hpush
  . apply h.holds.concat htype (h.holds.hasHash_eq_false_iff.mp hfresh)
    . rfl
    . rfl
    . rfl
    . intro version
      simp [KeySet.append]
  . exact h.attempts_ne

theorem insert (h : s.Consistent) {key : Key} (htype : key.type = s.keyType)
    (hfresh : s.hasHash key.hash = false) (hlast : s.metadata.lastVersion ≠ 0xffffffff)
    (status : Status) : (s.insert status key).Consistent := by
  have happend := h.append htype hfresh hlast
  have hnew : ⟨s.metadata.lastVersion + 1, .active, false⟩ ∈ (s.append key).versions := by
    simp [KeySet.append, versions]
  cases status with
  | primary => exact happend.promotion hnew
  | active => exact happend
  | scheduledForRevocation => exact happend.schedule hnew (by simp)

theorem tryInsert (h : s.Consistent) {status : Status} {key : Key} {version : UInt32}
    {s' : KeySet} (hs' : s.tryInsert status key = .ok (some (version, s'))) :
    key.type = s.keyType ∧ s.hasHash key.hash = false ∧ s.metadata.lastVersion ≠ 0xffffffff ∧
      version = s.metadata.lastVersion + 1 ∧ s' = s.insert status key := by
  rw [tryInsert_eq h.valid, ite_error_eq_ok_iff] at hs'
  rcases hs' with ⟨htype, hs'⟩
  split at hs'
  . simp at hs'
  . next hfresh =>
    simp only [ite_error_eq_ok_iff, Except.ok.injEq, Option.some.injEq, Prod.mk.injEq] at hs'
    rcases hs' with ⟨hlast, rfl, rfl⟩
    exact ⟨not_not.mp htype, by simpa using hfresh, hlast, rfl, rfl⟩

theorem index_erase (h : s.Consistent) (version : UInt32) :
    (s.erase version).index = (s.erase version).keys.map indexEntry := by
  unfold KeySet.erase
  dsimp only
  split
  . next key hkey =>
    rw [h.keyByVersion?_eq_some_iff] at hkey
    rw [h.holds.index_eq, List.filter_map]
    congr 1
    apply List.filter_congr
    intro k hk
    -- Hashes and versions are both unique, so the filters of keys and index agree.
    have hiff : k.2.hash = key.hash ↔ k.1 = version := by
      constructor
      . intro heq
        rw [List.inj_on_of_nodup_map h.holds.nodup_hashes hk hkey heq]
      . intro heq
        rw [List.inj_on_of_nodup_map h.nodup_versions hk hkey heq]
    simp [indexEntry, bne, KeyHash.toUInt32_inj, hiff]
  . next hnone =>
    rw [h.holds.index_eq, List.filter_eq_self.mpr]
    intro k hk
    rw [bne_iff_ne]
    intro heq
    rw [← heq, h.keyByVersion?_eq_some_iff.mpr hk] at hnone
    simp at hnone

theorem erase (h : s.Consistent) {v : KeyVersion} (hv : v ∈ s.versions)
    (hstatus : v.status ≠ .primary) : (s.erase v.version).Consistent := by
  constructor
  . exact h.valid.removeVersion v.version
  . constructor
    . have hkeys := congrArg (List.filter (· != v.version)) h.holds.keys_eq
      rw [List.filter_map, List.filter_map] at hkeys
      exact hkeys
    . exact h.index_erase v.version
    . exact h.holds.nodup_hashes.sublist (List.filter_sublist.map _)
    . intro k hk
      exact h.holds.type_eq k (List.mem_filter.mp hk).1
    . intro version
      change s.primary = some version ↔ _
      rw [h.holds.primary_iff]
      simp only [KeySet.erase, versions, Metadata.removeVersion, List.mem_filter, bne_iff_ne]
      constructor
      . rintro ⟨w, hw, rfl, hw'⟩
        refine ⟨w, ⟨hw, ?_⟩, rfl, hw'⟩
        intro heq
        rw [h.valid.eq_of_version_eq hw hv heq] at hw'
        exact hstatus hw'
      . rintro ⟨w, ⟨hw, _⟩, heq, hw'⟩
        exact ⟨w, hw, heq, hw'⟩
  . exact h.attempts_ne

theorem revoke (h : s.Consistent) {version : UInt32} {s' : KeySet}
    (hs' : s.revoke version = .ok s') : s'.Consistent := by
  rcases (revoke_eq_ok_iff h.valid).mp hs' with ⟨v, hv, rfl, hstatus, rfl⟩
  apply h.erase hv
  rw [hstatus]
  simp

theorem addVersionWith (h : s.Consistent) {σ : Type} {status : Status}
    {generate : EStateM Error σ Key} {start rest : σ} {version : UInt32} {s' : KeySet}
    (hs' : (s.addVersionWith status generate).run start = .ok (version, s') rest) :
    s'.Consistent := by
  rcases exists_tryInsert_of_addVersionWith hs' with ⟨key, hkey⟩
  rcases h.tryInsert hkey with ⟨htype, hfresh, hlast, _, rfl⟩
  exact h.insert htype hfresh hlast status

theorem keyByVersion?_insert (h : s.Consistent) {status : Status} {key : Key}
    (htype : key.type = s.keyType) (hfresh : s.hasHash key.hash = false)
    (hlast : s.metadata.lastVersion ≠ 0xffffffff) :
    (s.insert status key).keyByVersion? (s.metadata.lastVersion + 1) = some key := by
  rw [(h.insert htype hfresh hlast status).keyByVersion?_eq_some_iff, keys_insert]
  simp

/-- Every call that adds a key is a step, whatever generator it was given. -/
theorem step_of_addVersionWith (h : s.Consistent) {σ : Type} {status : Status}
    {generate : EStateM Error σ Key} {start rest : σ} {version : UInt32} {s' : KeySet}
    (hs' : (s.addVersionWith status generate).run start = .ok (version, s') rest) :
    ∃ key, s.Step (.added version key) s' := by
  rcases exists_tryInsert_of_addVersionWith hs' with ⟨key, hkey⟩
  rcases h.tryInsert hkey with ⟨htype, hfresh, hlast, rfl, rfl⟩
  exact ⟨key, .add hs' (h.keyByVersion?_insert htype hfresh hlast)⟩

theorem step_insert (h : s.Consistent) (status : Status) {key : Key}
    (htype : key.type = s.keyType) (hfresh : s.hasHash key.hash = false)
    (hlast : s.metadata.lastVersion ≠ 0xffffffff) :
    s.Step (.added (s.metadata.lastVersion + 1) key) (s.insert status key) := by
  apply Step.add _ (h.keyByVersion?_insert htype hfresh hlast)
  . exact Unit
  . exact status
  . exact pure key
  . exact ()
  . exact ()
  . apply run_addVersionWith_pure h.attempts_ne
    rw [tryInsert_eq h.valid, if_neg (not_not.mpr htype), hfresh]
    rw [if_neg Bool.false_ne_true, if_neg hlast]

theorem step (h : s.Consistent) {change : Change} {s' : KeySet} (hstep : s.Step change s') :
    s'.Consistent := by
  cases hstep with
  | add hs' => exact h.addVersionWith hs'
  | promote hs' => exact h.promote hs'
  | demote hs' => exact h.demote hs'
  | revoke hs' => exact h.revoke hs'
  | addFailed => exact h
  | promoteFailed => exact h
  | demoteFailed => exact h
  | revokeFailed => exact h

theorem of_new {name : String} {purpose : Purpose} {keyType : KeyType} {config : Config}
    (hs : KeySet.new name purpose keyType config = .ok s) : s.Consistent := by
  unfold KeySet.new Config.validate at hs
  simp only [bind_eq_ok_iff, pure_eq_ok, Except.ok.injEq, ite_error_eq_ok_iff] at hs
  rcases hs with ⟨_, ⟨hattempts, _⟩, metadata, hmetadata, rfl⟩
  refine ⟨Metadata.Valid.of_new hmetadata, ?_, hattempts⟩
  rcases Metadata.new_eq_ok_iff.mp hmetadata with ⟨_, rfl⟩
  exact .empty _ _

theorem publicHalf (h : s.Consistent) {s' : KeySet} (hs' : s.publicHalf = .ok s') :
    s'.Consistent := by
  rcases (publicHalf_eq_ok_iff h.valid h.holds.type_eq).mp hs' with
    ⟨purpose, keyType, hpurpose, hkeyType, rfl⟩
  constructor
  . exact h.valid.withPurpose (withPurpose_eq_ok h.valid hpurpose hkeyType)
  . constructor
    . rw [KeySet.publicPart, List.map_map]
      exact h.holds.keys_eq
    . rw [KeySet.publicPart, List.map_map]
      simp only [Function.comp_def, indexEntry, Key.hash_publicPart]
      exact h.holds.index_eq
    . rw [KeySet.publicPart, List.map_map]
      simp only [Function.comp_def, Key.hash_publicPart]
      exact h.holds.nodup_hashes
    . intro k' hk'
      rcases List.mem_map.mp hk' with ⟨k, hk, rfl⟩
      rw [← h.holds.type_eq k hk] at hkeyType
      exact (Key.publicHalf_of_type hkeyType).2
    . exact h.holds.primary_iff
  . exact h.attempts_ne

end Consistent

theorem Holds.loadVersion {s s' : KeySet} {entries : List KeyVersion} (h : s.Holds entries)
    {source : Source} {v : KeyVersion} (hs' : s.loadVersion source v = .ok s') :
    s'.Holds (entries ++ [v]) ∧ s'.metadata = s.metadata ∧ s'.config = s.config := by
  unfold KeySet.loadVersion at hs'
  simp only [bind_eq_ok_iff, throw_eq_error, error_bind, ite_error_eq_ok_iff, pure_eq_ok,
    Except.ok.injEq] at hs'
  rcases hs' with ⟨bs, _, key, _, htype, hfresh, hone, rfl⟩
  rw [h.hasHash_eq_true_iff] at hfresh
  refine ⟨?_, rfl, rfl⟩
  apply h.concat (not_not.mp htype)
  . intro k hk heq
    exact hfresh ⟨k, hk, heq⟩
  . rfl
  . rfl
  . rfl
  . intro version
    dsimp only
    split
    . next hstatus =>
      have hnone : s.primary = none := by simpa [hstatus] using hone
      simp [hnone, hstatus]
    . next hstatus => simp [hstatus]

theorem Holds.foldlM_loadVersion {source : Source} {rest entries : List KeyVersion} {s s' : KeySet}
    (h : s.Holds entries) (hs' : rest.foldlM (KeySet.loadVersion source) s = .ok s') :
    s'.Holds (entries ++ rest) ∧ s'.metadata = s.metadata ∧ s'.config = s.config := by
  apply foldlM_preserves (P := fun done t =>
    t.Holds done ∧ t.metadata = s.metadata ∧ t.config = s.config) _ ⟨h, rfl, rfl⟩ hs'
  rintro done t v t' ⟨ht, hmetadata, hconfig⟩ ht'
  rcases ht.loadVersion ht' with ⟨hholds, hmetadata', hconfig'⟩
  exact ⟨hholds, hmetadata'.trans hmetadata, hconfig'.trans hconfig⟩

theorem Consistent.of_load {source : Source} {operations : OperationClass} {config : Config}
    {s : KeySet} (h : KeySet.load source operations config = .ok s) : s.Consistent := by
  unfold KeySet.load Config.validate at h
  simp only [bind_eq_ok_iff, ite_error_eq_ok_iff] at h
  rcases h with ⟨_, ⟨hattempts, _⟩, _, _, metadata, hmetadata, _, _, h⟩
  rcases (Holds.empty metadata config).foldlM_loadVersion h with ⟨hholds, hsame, hconfig⟩
  rw [List.nil_append] at hholds
  constructor
  . rw [hsame]
    exact Metadata.valid_of_decode_eq_ok hmetadata
  . unfold versions
    rw [hsame]
    exact hholds
  . rw [hconfig]
    exact hattempts

theorem Reachable.consistent {s : KeySet} (h : s.Reachable) : s.Consistent := by
  induction h with
  | new hs => exact Consistent.of_new hs
  | load hs => exact Consistent.of_load hs
  | step _ hstep ih => exact ih.step hstep
  | publicHalf _ hs' ih => exact ih.publicHalf hs'

theorem Reachable.insert {s : KeySet} (h : s.Reachable) (status : Status) {key : Key}
    (htype : key.type = s.keyType) (hfresh : s.hasHash key.hash = false)
    (hlast : s.metadata.lastVersion ≠ 0xffffffff) : (s.insert status key).Reachable := by
  apply h.step
  exact h.consistent.step_insert status htype hfresh hlast

theorem Reachable.views_agree {s : KeySet} (h : s.Reachable) :
    (s.metadata.numbers.Pairwise (· < ·) ∧
      ∀ n ∈ s.metadata.numbers, 0 < n ∧ n ≤ s.metadata.lastVersion) ∧
    s.keys.map (·.1) = s.metadata.numbers ∧
    ((∀ n version, (n, version) ∈ s.index ↔
        ∃ k, (version, k) ∈ s.keys ∧ n = k.hash.toUInt32) ∧
      (s.index.map (·.1)).Nodup ∧
      (s.keys.map (·.2.hash)).Nodup ∧
      (∀ k ∈ s.keys, s.keyByHash? k.2.hash = some k.2) ∧
      ∀ hash k, s.keyByHash? hash = some k → k.hash = hash) ∧
    ((∀ v ∈ s.versions, ∀ w ∈ s.versions, v.status = .primary → w.status = .primary → v = w) ∧
      ∀ version, s.primary = some version ↔
        ∃ v ∈ s.versions, v.version = version ∧ v.status = .primary) ∧
    ((∀ k ∈ s.keys, k.2.type = s.metadata.keyType) ∧
      s.metadata.purpose.accepts s.metadata.keyType) ∧
    s.config.maxGenerationAttempts ≠ 0 := by
  have hs := h.consistent
  refine ⟨⟨hs.valid.ascending, ?_⟩, hs.holds.keys_eq, ⟨?_, hs.nodup_index, hs.holds.nodup_hashes,
    ?_, ?_⟩, ⟨?_, hs.holds.primary_iff⟩, ⟨hs.holds.type_eq, hs.valid.accepts⟩, hs.attempts_ne⟩
  . intro n hn
    exact ⟨hs.valid.positive n hn, hs.valid.le_last n hn⟩
  . intro n version
    exact hs.mem_index_iff
  . intro k hk
    rw [hs.keyByHash?_eq_some_iff]
    exact ⟨rfl, k.1, hk⟩
  . intro hash k hk
    exact (hs.keyByHash?_eq_some_iff.mp hk).1
  . intro v hv w hw hv' hw'
    -- Both numbers are the one that the set names as primary.
    rw [← hs.primary_eq_iff hv] at hv'
    rw [← hs.primary_eq_iff hw, hv', Option.some.injEq] at hw'
    exact hs.valid.eq_of_version_eq hv hw hw'

def sampleKey (b : UInt8) : Key :=
  .hmac ⟨List.replicate 20 b, by simp⟩

def sampleEmpty : KeySet where
  metadata := ⟨"sample", .signAndVerify, .hmac, 0, []⟩
  config := {}

/-- A set whose primary key has been replaced once. -/
def sample : KeySet :=
  (sampleEmpty.insert .primary (sampleKey 1)).insert .primary (sampleKey 2)

theorem reachable_sample : sample.Reachable := by
  have hempty : sampleEmpty.Reachable :=
    @Reachable.new "sample" .signAndVerify .hmac {} sampleEmpty rfl
  have hone : (sampleEmpty.insert .primary (sampleKey 1)).Reachable := by
    apply hempty.insert <;> decide +kernel
  apply hone.insert <;> decide +kernel

theorem views_agree_sample :
    sample.Reachable ∧ sample.metadata.numbers = [1, 2] ∧
      sample.keyByHash? (sampleKey 1).hash = some (sampleKey 1) ∧
      ∃ v ∈ sample.versions, v.version = 2 ∧ v.status = .primary := by
  have hviews := Reachable.views_agree reachable_sample
  have hmem : (1, sampleKey 1) ∈ sample.keys := by decide +kernel
  exact ⟨reachable_sample, hviews.2.1.symm, hviews.2.2.1.2.2.2.1 (1, sampleKey 1) hmem,
    (hviews.2.2.2.1.2 2).mp rfl⟩

end KeySet

end Keyring
