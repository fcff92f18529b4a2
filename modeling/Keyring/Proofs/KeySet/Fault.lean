import Keyring.Proofs.KeySet.Invariant
/-!
This module contains which sources load as a key set, and the fault that loading reports for each of
the others. Faults are told of the source alone, the first of them being that of the first check
that fails.
-/

namespace Keyring

namespace Source

/-- The source has metadata. -/
def Lists (source : Source) (m : Metadata) : Prop :=
  ∃ bs, source.metadata = .ok bs ∧ Metadata.decode bs = .ok m

/-- The source has a key for a version. -/
def Yields (source : Source) (version : UInt32) (key : Key) : Prop :=
  ∃ bs, source.key version = .ok bs ∧ Key.decode bs = .ok key

/-- The versions that metadata lists can be loaded. -/
structure Admits (source : Source) (m : Metadata) : Prop where
  yields : ∀ n ∈ m.numbers, ∃ key, source.Yields n key ∧ key.type = m.keyType
  distinct : ∀ n ∈ m.numbers, ∀ n' ∈ m.numbers, ∀ key key', source.Yields n key →
    source.Yields n' key' → key.hash = key'.hash → n = n'
  one_primary : ∀ v ∈ m.versions, ∀ w ∈ m.versions, v.status = .primary → w.status = .primary →
    v = w

/-- What is wrong with a version behind those that have been loaded before it. -/
inductive VersionFault (source : Source) (m : Metadata) (before : List KeyVersion)
    (v : KeyVersion) : Error → Prop where
  | read {e : Error} : source.key v.version = .error e → VersionFault source m before v e
  | decode {bs : Bytes} {e : Error} : source.key v.version = .ok bs → Key.decode bs = .error e →
      VersionFault source m before v e
  | type {key : Key} : source.Yields v.version key → key.type ≠ m.keyType →
      VersionFault source m before v (.unsupportedType key.type.tag)
  | duplicate {key other : Key} {w : KeyVersion} : source.Yields v.version key →
      key.type = m.keyType → w ∈ before → source.Yields w.version other →
      other.hash = key.hash → VersionFault source m before v (.duplicateKeyIdentifier key.hash)
  | primary {key : Key} {w : KeyVersion} : source.Yields v.version key → key.type = m.keyType →
      (∀ u ∈ before, ∀ other, source.Yields u.version other → other.hash ≠ key.hash) →
      v.status = .primary → w ∈ before → w.status = .primary →
      VersionFault source m before v .multiplePrimaryKeys

/-- Nothing is wrong with any of the versions, each behind those before it. -/
def Clean (source : Source) (m : Metadata) (versions : List KeyVersion) : Prop :=
  ∀ before v after, versions = before ++ v :: after → ∀ e, ¬source.VersionFault m before v e

/-- What is wrong with a source, of several things the first that is looked at. -/
inductive Fault (source : Source) (operations : OperationClass) (config : Config) : Error → Prop
    where
  | config : config.maxGenerationAttempts = 0 →
      Fault source operations config (.badFormat "max_generation_attempts must be at least 1")
  | readMetadata {e : Error} : config.maxGenerationAttempts ≠ 0 → source.metadata = .error e →
      Fault source operations config e
  | decodeMetadata {bs : Bytes} {e : Error} : config.maxGenerationAttempts ≠ 0 →
      source.metadata = .ok bs → Metadata.decode bs = .error e → Fault source operations config e
  | purpose {m : Metadata} : config.maxGenerationAttempts ≠ 0 → source.Lists m →
      ¬operations.accepts m.purpose → Fault source operations config
        (.unacceptablePurpose m.purpose "purpose does not permit this operation")
  | version {m : Metadata} {before after : List KeyVersion} {v : KeyVersion} {e : Error} :
      config.maxGenerationAttempts ≠ 0 → source.Lists m → operations.accepts m.purpose →
      m.versions = before ++ v :: after → source.Clean m before → source.VersionFault m before v e →
      Fault source operations config e

variable {source : Source} {m : Metadata}

theorem Yields.unique {version : UInt32} {key key' : Key} (h : source.Yields version key)
    (h' : source.Yields version key') : key = key' := by
  have heq := bind_eq_ok_iff.mpr h
  rw [bind_eq_ok_iff.mpr h', Except.ok.injEq] at heq
  exact heq.symm

theorem Lists.unique {m' : Metadata} (h : source.Lists m) (h' : source.Lists m') : m = m' := by
  have heq := bind_eq_ok_iff.mpr h
  rw [bind_eq_ok_iff.mpr h', Except.ok.injEq] at heq
  exact heq.symm

theorem Lists.valid (h : source.Lists m) : m.Valid := by
  rcases h with ⟨bs, _, hm⟩
  exact Metadata.valid_of_decode_eq_ok hm

end Source

namespace KeySet

theorem loadVersion_of_yields {s : KeySet} {source : Source} {v : KeyVersion} {key : Key}
    (h : source.Yields v.version key) :
    s.loadVersion source v =
      if key.type ≠ s.keyType then
        .error (.unsupportedType key.type.tag)
      else if s.hasHash key.hash then
        .error (.duplicateKeyIdentifier key.hash)
      else if v.status = .primary ∧ s.primary.isSome then
        .error .multiplePrimaryKeys
      else
        .ok { s with
          keys := s.keys ++ [(v.version, key)]
          index := s.index ++ [(key.hash.toUInt32, v.version)]
          primary := if v.status = .primary then some v.version else s.primary } := by
  rcases h with ⟨bs, hbs, hkey⟩
  unfold loadVersion
  rw [hbs, ok_bind, hkey, ok_bind]
  rfl

/-- What has been loaded of a source when some versions are done. -/
structure Loaded (source : Source) (m : Metadata) (config : Config) (done : List KeyVersion)
    (s : KeySet) : Prop where
  holds : s.Holds done
  metadata_eq : s.metadata = m
  config_eq : s.config = config
  yields : ∀ k ∈ s.keys, source.Yields k.1 k.2

namespace Loaded

variable {source : Source} {m : Metadata} {config : Config} {done : List KeyVersion} {s : KeySet}

theorem mem_keys_iff (h : Loaded source m config done s) {version : UInt32} {key : Key} :
    (version, key) ∈ s.keys ↔
      (∃ w ∈ done, w.version = version) ∧ source.Yields version key := by
  have hnumbers : version ∈ s.keys.map (·.1) ↔ ∃ w ∈ done, w.version = version := by
    rw [h.holds.keys_eq, List.mem_map]
  rw [← hnumbers, List.mem_map]
  constructor
  . intro hkey
    exact ⟨⟨_, hkey, rfl⟩, h.yields _ hkey⟩
  . rintro ⟨⟨⟨_, other⟩, hother, rfl⟩, hkey⟩
    rw [hkey.unique (h.yields _ hother)]
    exact hother

theorem hasHash_iff (h : Loaded source m config done s) {hash : KeyHash} :
    s.hasHash hash = true ↔
      ∃ w ∈ done, ∃ other, source.Yields w.version other ∧ other.hash = hash := by
  rw [h.holds.hasHash_eq_true_iff]
  constructor
  . rintro ⟨⟨version, other⟩, hother, heq⟩
    rcases h.mem_keys_iff.mp hother with ⟨⟨w, hw, rfl⟩, hyields⟩
    exact ⟨w, hw, other, hyields, heq⟩
  . rintro ⟨w, hw, other, hother, heq⟩
    exact ⟨(w.version, other), h.mem_keys_iff.mpr ⟨⟨w, hw, rfl⟩, hother⟩, heq⟩

theorem isSome_primary_iff (h : Loaded source m config done s) :
    s.primary.isSome ↔ ∃ w ∈ done, w.status = .primary := by
  rw [Option.isSome_iff_exists]
  simp only [h.holds.primary_iff]
  constructor
  . rintro ⟨_, w, hw, _, hstatus⟩
    exact ⟨w, hw, hstatus⟩
  . rintro ⟨w, hw, hstatus⟩
    exact ⟨w.version, w, hw, rfl, hstatus⟩

theorem versionFault_of_yields (h : Loaded source m config done s) {v : KeyVersion} {key : Key}
    (hkey : source.Yields v.version key) {e : Error} (he : s.loadVersion source v = .error e) :
    source.VersionFault m done v e := by
  rw [loadVersion_of_yields hkey, keyType, h.metadata_eq] at he
  split at he
  . next htype =>
    cases he
    exact .type hkey htype
  . next htype =>
    split at he
    . next hhash =>
      cases he
      rcases h.hasHash_iff.mp hhash with ⟨w, hw, other, hother, heq⟩
      exact .duplicate hkey (not_not.mp htype) hw hother heq
    . next hhash =>
      split at he
      . next hprimary =>
        cases he
        rcases h.isSome_primary_iff.mp hprimary.2 with ⟨w, hw, hw'⟩
        apply Source.VersionFault.primary hkey (not_not.mp htype) _ hprimary.1 hw hw'
        intro u hu other hother heq
        exact hhash (h.hasHash_iff.mpr ⟨u, hu, other, hother, heq⟩)
      . simp at he

theorem loadVersion_eq_error_iff (h : Loaded source m config done s) {v : KeyVersion}
    {e : Error} : s.loadVersion source v = .error e ↔ source.VersionFault m done v e := by
  constructor
  . intro he
    cases hread : source.key v.version with
    | error e' =>
      rw [KeySet.loadVersion, hread, error_bind, Except.error.injEq] at he
      exact .read (he ▸ hread)
    | ok bs =>
      cases hdecode : Key.decode bs with
      | error e' =>
        rw [KeySet.loadVersion, hread, ok_bind, hdecode, error_bind, Except.error.injEq] at he
        exact .decode hread (he ▸ hdecode)
      | ok key => exact h.versionFault_of_yields ⟨bs, hread, hdecode⟩ he
  . intro hfault
    have hkeyType : s.keyType = m.keyType := congrArg Metadata.keyType h.metadata_eq
    cases hfault with
    | read hread => rw [KeySet.loadVersion, hread, error_bind]
    | decode hread hdecode => rw [KeySet.loadVersion, hread, ok_bind, hdecode, error_bind]
    | type hkey htype => rw [loadVersion_of_yields hkey, hkeyType, if_pos htype]
    | duplicate hkey htype hw hother heq =>
      rw [loadVersion_of_yields hkey, hkeyType, if_neg (not_not.mpr htype)]
      rw [if_pos (h.hasHash_iff.mpr ⟨_, hw, _, hother, heq⟩)]
    | primary hkey htype hfresh hstatus hw hw' =>
      rw [loadVersion_of_yields hkey, hkeyType, if_neg (not_not.mpr htype)]
      rw [if_neg, if_pos ⟨hstatus, h.isSome_primary_iff.mpr ⟨_, hw, hw'⟩⟩]
      intro hhash
      rcases h.hasHash_iff.mp hhash with ⟨u, hu, other, hother, heq⟩
      exact hfresh u hu other hother heq

theorem loadVersion (h : Loaded source m config done s) {v : KeyVersion} {s' : KeySet}
    (hs' : s.loadVersion source v = .ok s') : Loaded source m config (done ++ [v]) s' := by
  rcases h.holds.loadVersion hs' with ⟨hholds, hmetadata, hconfig⟩
  refine ⟨hholds, hmetadata.trans h.metadata_eq, hconfig.trans h.config_eq, ?_⟩
  simp only [KeySet.loadVersion, bind_eq_ok_iff, throw_eq_error, error_bind, ite_error_eq_ok_iff,
    pure_eq_ok, Except.ok.injEq] at hs'
  rcases hs' with ⟨bs, hbs, key, hkey, _, _, _, rfl⟩
  intro k hk
  cases List.mem_append.mp hk with
  | inl hold => exact h.yields k hold
  | inr hnew =>
    rw [List.mem_singleton.mp hnew]
    exact ⟨bs, hbs, hkey⟩

theorem empty (source : Source) (m : Metadata) (config : Config) :
    Loaded source m config [] { metadata := m, config } where
  holds := .empty m config
  metadata_eq := rfl
  config_eq := rfl
  yields := by simp

theorem foldlM_loadVersion {s' : KeySet} {versions : List KeyVersion}
    (h : Loaded source m config done s)
    (hs' : versions.foldlM (KeySet.loadVersion source) s = .ok s') :
    Loaded source m config (done ++ versions) s' := by
  apply foldlM_preserves _ h hs'
  intro _ _ _ _ hloaded hstep
  exact hloaded.loadVersion hstep

theorem admits (h : Loaded source m config m.versions s) (hvalid : m.Valid) :
    source.Admits m := by
  have hkeyType : s.keyType = m.keyType := congrArg Metadata.keyType h.metadata_eq
  have hkeys : ∀ {n key}, n ∈ m.numbers → source.Yields n key → (n, key) ∈ s.keys := by
    intro n key hn hkey
    exact h.mem_keys_iff.mpr ⟨List.mem_map.mp hn, hkey⟩
  constructor
  . intro n hn
    have hmem : n ∈ s.keys.map (·.1) := by
      rw [h.holds.keys_eq]
      exact hn
    rcases List.mem_map.mp hmem with ⟨k, hk, rfl⟩
    exact ⟨k.2, h.yields k hk, (h.holds.type_eq k hk).trans hkeyType⟩
  . intro n hn n' hn' key key' hkey hkey' heq
    exact congrArg Prod.fst
      (List.inj_on_of_nodup_map h.holds.nodup_hashes (hkeys hn hkey) (hkeys hn' hkey') heq)
  . intro v hv w hw hv' hw'
    -- Both are what the set has as its primary version.
    have hversion := (h.holds.primary_iff v.version).mpr ⟨v, hv, rfl, hv'⟩
    rw [(h.holds.primary_iff w.version).mpr ⟨w, hw, rfl, hw'⟩, Option.some.injEq] at hversion
    exact hvalid.eq_of_version_eq hv hw hversion.symm

end Loaded

theorem exists_foldlM_loadVersion_iff {source : Source} {m : Metadata} (config : Config)
    {versions : List KeyVersion} :
    (∃ s, versions.foldlM (loadVersion source) { metadata := m, config } = .ok s) ↔
      source.Clean m versions := by
  constructor
  . rintro ⟨s, hs⟩ before v after rfl e hfault
    rw [List.foldlM_append, bind_eq_ok_iff] at hs
    rcases hs with ⟨t, ht, hs⟩
    have hloaded := (Loaded.empty source m config).foldlM_loadVersion ht
    rw [List.foldlM_cons, hloaded.loadVersion_eq_error_iff.mpr hfault] at hs
    simp at hs
  . intro hclean
    cases hfold : versions.foldlM (loadVersion source) { metadata := m, config } with
    | ok s => exact ⟨s, rfl⟩
    | error e =>
      rcases foldlM_eq_error_iff.mp hfold with ⟨before, v, after, t, heq, ht, he⟩
      have hloaded := (Loaded.empty source m config).foldlM_loadVersion ht
      exact absurd (hloaded.loadVersion_eq_error_iff.mp he) (hclean before v after heq e)

theorem Source.clean_iff_admits {source : Source} {m : Metadata} (h : m.Valid) :
    source.Clean m m.versions ↔ source.Admits m := by
  constructor
  . intro hclean
    rcases (exists_foldlM_loadVersion_iff {}).mpr hclean with ⟨s, hs⟩
    have hloaded := (Loaded.empty source m {}).foldlM_loadVersion hs
    exact hloaded.admits h
  . intro hadmits before v after heq e hfault
    have hv : v ∈ m.versions := by simp [heq]
    have hbefore : ∀ {w}, w ∈ before → w ∈ m.versions ∧ w.version ≠ v.version := by
      intro w hw
      have hnodup : (m.versions.map (·.version)).Nodup := h.nodup
      rw [heq, List.map_append, List.nodup_append] at hnodup
      refine ⟨by simp [heq, hw], ?_⟩
      exact hnodup.2.2 _ (List.mem_map_of_mem hw) _ List.mem_cons_self
    rcases hadmits.yields v.version (Metadata.mem_numbers_of_mem hv) with ⟨key, hkey, htype⟩
    cases hfault with
    | read hread =>
      rcases hkey with ⟨bs, hbs, _⟩
      simp [hread] at hbs
    | decode hread hdecode =>
      rcases hkey with ⟨bs, hbs, hkey⟩
      rw [hread, Except.ok.injEq] at hbs
      simp [← hbs, hdecode] at hkey
    | type hkey' htype' =>
      rw [hkey.unique hkey'] at htype
      exact htype' htype
    | duplicate hkey' _ hw hother heq' =>
      apply (hbefore hw).2
      exact hadmits.distinct _ (Metadata.mem_numbers_of_mem (hbefore hw).1) _
        (Metadata.mem_numbers_of_mem hv) _ _ hother hkey' heq'
    | primary _ _ _ hstatus hw hw' =>
      apply (hbefore hw).2
      rw [hadmits.one_primary v hv _ (hbefore hw).1 hstatus hw']

theorem checkPurpose_eq (s : KeySet) (operations : OperationClass) :
    s.checkPurpose operations =
      if operations.accepts s.purpose then
        .ok ()
      else
        .error (.unacceptablePurpose s.purpose "purpose does not permit this operation") := by
  unfold checkPurpose
  by_cases h : operations.accepts s.purpose
  . rw [accepting_eq_ok h, if_pos h]
    rfl
  . rw [accepting_eq_error h, if_neg h]
    rfl

theorem load_of_attempts_eq_zero (source : Source) (operations : OperationClass) {config : Config}
    (h : config.maxGenerationAttempts = 0) :
    load source operations config =
      .error (.badFormat "max_generation_attempts must be at least 1") := by
  unfold load Config.validate
  rw [if_pos h, error_bind]

theorem load_of_attempts_ne_zero (source : Source) (operations : OperationClass) {config : Config}
    (h : config.maxGenerationAttempts ≠ 0) :
    load source operations config = source.metadata >>= fun bs => Metadata.decode bs >>= fun m =>
      if operations.accepts m.purpose then
        m.versions.foldlM (loadVersion source) { metadata := m, config }
      else
        .error (.unacceptablePurpose m.purpose "purpose does not permit this operation") := by
  unfold load Config.validate
  rw [if_neg h, ok_bind]
  congr 1
  funext bs
  congr 1
  funext m
  dsimp only
  rw [checkPurpose_eq]
  change ((if operations.accepts m.purpose then _ else _) >>= _) = _
  split
  . rfl
  . rfl

theorem load_eq_of_lists {source : Source} {m : Metadata} (h : source.Lists m)
    {operations : OperationClass} {config : Config} (hattempts : config.maxGenerationAttempts ≠ 0) :
    load source operations config =
      if operations.accepts m.purpose then
        m.versions.foldlM (loadVersion source) { metadata := m, config }
      else
        .error (.unacceptablePurpose m.purpose "purpose does not permit this operation") := by
  rcases h with ⟨bs, hbs, hm⟩
  rw [load_of_attempts_ne_zero source operations hattempts, hbs, ok_bind, hm, ok_bind]

theorem load_eq_ok_iff {source : Source} {operations : OperationClass} {config : Config}
    {s : KeySet} :
    load source operations config = .ok s ↔
      config.maxGenerationAttempts ≠ 0 ∧ ∃ m, source.Lists m ∧ operations.accepts m.purpose ∧
        m.versions.foldlM (loadVersion source) { metadata := m, config } = .ok s := by
  by_cases hattempts : config.maxGenerationAttempts = 0
  . rw [load_of_attempts_eq_zero source operations hattempts]
    simp [hattempts]
  . rw [load_of_attempts_ne_zero source operations hattempts]
    simp only [bind_eq_ok_iff, Source.Lists]
    constructor
    . rintro ⟨bs, hbs, m, hm, hs⟩
      split at hs
      . next haccepts => exact ⟨hattempts, m, ⟨bs, hbs, hm⟩, haccepts, hs⟩
      . simp at hs
    . rintro ⟨_, m, ⟨bs, hbs, hm⟩, haccepts, hs⟩
      refine ⟨bs, hbs, m, hm, ?_⟩
      rw [if_pos haccepts]
      exact hs

theorem foldlM_loadVersion_eq_error_iff {source : Source} {m : Metadata} {config : Config}
    {versions : List KeyVersion} {e : Error} :
    versions.foldlM (loadVersion source) { metadata := m, config } = .error e ↔
      ∃ before v after, versions = before ++ v :: after ∧ source.Clean m before ∧
        source.VersionFault m before v e := by
  rw [foldlM_eq_error_iff]
  constructor
  . rintro ⟨before, v, after, t, heq, ht, he⟩
    have hloaded := (Loaded.empty source m config).foldlM_loadVersion ht
    exact ⟨before, v, after, heq, (exists_foldlM_loadVersion_iff config).mp ⟨t, ht⟩,
      hloaded.loadVersion_eq_error_iff.mp he⟩
  . rintro ⟨before, v, after, heq, hclean, hfault⟩
    rcases (exists_foldlM_loadVersion_iff config).mpr hclean with ⟨t, ht⟩
    have hloaded := (Loaded.empty source m config).foldlM_loadVersion ht
    exact ⟨before, v, after, t, heq, ht, hloaded.loadVersion_eq_error_iff.mpr hfault⟩

theorem load_eq_error_iff {source : Source} {operations : OperationClass} {config : Config}
    {e : Error} :
    load source operations config = .error e ↔ source.Fault operations config e := by
  constructor
  . intro he
    by_cases hattempts : config.maxGenerationAttempts = 0
    . rw [load_of_attempts_eq_zero source operations hattempts, Except.error.injEq] at he
      exact he ▸ .config hattempts
    . rw [load_of_attempts_ne_zero source operations hattempts, bind_eq_error_iff] at he
      simp only [bind_eq_error_iff] at he
      rcases he with hbs | ⟨bs, hbs, hm | ⟨m, hm, he⟩⟩
      . exact .readMetadata hattempts hbs
      . exact .decodeMetadata hattempts hbs hm
      . split at he
        . next haccepts =>
          rcases foldlM_loadVersion_eq_error_iff.mp he with ⟨before, v, after, heq, hclean, hfault⟩
          exact .version hattempts ⟨bs, hbs, hm⟩ haccepts heq hclean hfault
        . next hrefuses =>
          rw [Except.error.injEq] at he
          exact he ▸ .purpose hattempts ⟨bs, hbs, hm⟩ hrefuses
  . intro hfault
    cases hfault with
    | config hattempts => exact load_of_attempts_eq_zero source operations hattempts
    | readMetadata hattempts hread =>
      rw [load_of_attempts_ne_zero source operations hattempts, hread, error_bind]
    | decodeMetadata hattempts hbs hm =>
      rw [load_of_attempts_ne_zero source operations hattempts, hbs, ok_bind, hm, error_bind]
    | purpose hattempts hm hrefuses => rw [load_eq_of_lists hm hattempts, if_neg hrefuses]
    | version hattempts hm haccepts heq hclean hfault =>
      rw [load_eq_of_lists hm hattempts, if_pos haccepts, foldlM_loadVersion_eq_error_iff]
      exact ⟨_, _, _, heq, hclean, hfault⟩

theorem foldlM_loadVersion_congr {source other : Source} {versions : List KeyVersion}
    (h : ∀ v ∈ versions, other.key v.version = source.key v.version) (s : KeySet) :
    versions.foldlM (loadVersion other) s = versions.foldlM (loadVersion source) s := by
  induction versions generalizing s with
  | nil => rfl
  | cons v versions ih =>
    have hv : loadVersion other s v = loadVersion source s v := by
      unfold loadVersion
      rw [h v List.mem_cons_self]
    have hrest := ih (List.forall_mem_cons.mp h).2
    rw [List.foldlM_cons, List.foldlM_cons, hv, funext hrest]

theorem load_verdict (source : Source) (operations : OperationClass) (config : Config) :
    ((∃ s, load source operations config = .ok s) ↔
      config.maxGenerationAttempts ≠ 0 ∧
        ∃ m, source.Lists m ∧ operations.accepts m.purpose ∧ source.Admits m) ∧
    (∀ e, load source operations config = .error e ↔ source.Fault operations config e) ∧
    (∀ s, load source operations config = .ok s →
      source.Lists s.metadata ∧ s.config = config ∧
        s.keys.map (·.1) = s.metadata.numbers ∧
        (∀ version key, s.keyByVersion? version = some key ↔
          version ∈ s.metadata.numbers ∧ source.Yields version key) ∧
        ∀ version, s.primary = some version ↔
          ∃ v ∈ s.versions, v.version = version ∧ v.status = .primary) ∧
    ∀ m, source.Lists m → m.numbers.Pairwise (· < ·) ∧
      ∀ other : Source, other.metadata = source.metadata →
        (∀ n ∈ m.numbers, other.key n = source.key n) →
        load other operations config = load source operations config := by
  refine ⟨?_, fun e => load_eq_error_iff, ?_, ?_⟩
  . simp only [load_eq_ok_iff]
    constructor
    . rintro ⟨s, hattempts, m, hm, haccepts, hs⟩
      refine ⟨hattempts, m, hm, haccepts, ?_⟩
      rw [← Source.clean_iff_admits hm.valid, ← exists_foldlM_loadVersion_iff config]
      exact ⟨s, hs⟩
    . rintro ⟨hattempts, m, hm, haccepts, hadmits⟩
      rw [← Source.clean_iff_admits hm.valid, ← exists_foldlM_loadVersion_iff config] at hadmits
      rcases hadmits with ⟨s, hs⟩
      exact ⟨s, hattempts, m, hm, haccepts, hs⟩
  . intro s h
    have hs := Consistent.of_load h
    rcases load_eq_ok_iff.mp h with ⟨_, m, hm, _, hfold⟩
    have hloaded := (Loaded.empty source m config).foldlM_loadVersion hfold
    rcases hloaded.metadata_eq with rfl
    refine ⟨hm, hloaded.config_eq, hs.holds.keys_eq, ?_, hs.holds.primary_iff⟩
    intro version key
    rw [hs.keyByVersion?_eq_some_iff, hloaded.mem_keys_iff]
    exact and_congr_left' List.mem_map.symm
  . intro m hm
    refine ⟨hm.valid.ascending, ?_⟩
    intro other hmetadata hkeys
    have hm' : other.Lists m := by
      unfold Source.Lists
      rw [hmetadata]
      exact hm
    by_cases hattempts : config.maxGenerationAttempts = 0
    . rw [load_of_attempts_eq_zero _ _ hattempts, load_of_attempts_eq_zero _ _ hattempts]
    . rw [load_eq_of_lists hm hattempts, load_eq_of_lists hm' hattempts]
      rw [foldlM_loadVersion_congr]
      intro v hv
      exact hkeys v.version (Metadata.mem_numbers_of_mem hv)

/-- The metadata of the sample, where the same key comes for both versions. -/
def twins : Source where
  metadata := .ok sample.metadata.encode
  key _ := .ok (sampleKey 1).encode

theorem load_verdict_twins :
    load sample.bundle.toSource .signer {} = .ok sample ∧
      sample.bundle.toSource.Yields 2 (sampleKey 2) ∧
      load twins .signer {} = .error (.duplicateKeyIdentifier (sampleKey 1).hash) := by
  have hload : load sample.bundle.toSource .signer {} = .ok sample := by decide +kernel
  have hloaded := (load_verdict sample.bundle.toSource .signer {}).2.2.1 sample hload
  have hkey := (hloaded.2.2.2.1 2 (sampleKey 2)).mp (by decide +kernel)
  refine ⟨hload, hkey.2, ?_⟩
  have hyields : ∀ n, twins.Yields n (sampleKey 1) := by
    intro n
    exact ⟨(sampleKey 1).encode, rfl, by decide +kernel⟩
  have hlists : twins.Lists sample.metadata :=
    ⟨sample.metadata.encode, rfl, Metadata.decode_encode reachable_sample.consistent.valid⟩
  have hclean : twins.Clean sample.metadata [⟨1, .active, false⟩] := by
    rw [← exists_foldlM_loadVersion_iff {}]
    exact ⟨{ sampleEmpty.insert .active (sampleKey 1) with metadata := sample.metadata },
      by decide +kernel⟩
  have hversions : sample.versions = [⟨1, .active, false⟩] ++ ⟨2, .primary, false⟩ :: [] := by
    decide +kernel
  apply ((load_verdict twins .signer {}).2.1 _).mpr
  apply Source.Fault.version (by decide) hlists rfl hversions hclean
  apply Source.VersionFault.duplicate (hyields 2) rfl (List.mem_singleton.mpr rfl) (hyields 1)
  rfl

end KeySet

end Keyring
