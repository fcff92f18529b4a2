import Keyring.Proofs.Key.Codec
import Keyring.Proofs.KeySet.Fault
/-!
This module contains the proof that key sets survive saving and loading. Loading rebuilds the index
and the primary version of a set and finds what they were. What it may refuse is the public half of
a key that it accepts, if this is a large RSA key.
-/

namespace Keyring

namespace KeySet

variable {s : KeySet}

theorem Holds.eq {s t : KeySet} {entries : List KeyVersion} (h : s.Holds entries)
    (h' : t.Holds entries) (hmetadata : t.metadata = s.metadata) (hconfig : t.config = s.config)
    (hkeys : t.keys = s.keys) : t = s := by
  have hindex : t.index = s.index := by
    rw [h'.index_eq, h.index_eq, hkeys]
  have hprimary : t.primary = s.primary := by
    apply Option.ext
    intro version
    rw [h'.primary_iff, h.primary_iff]
  cases s
  cases t
  simp_all

theorem Consistent.key_toSource (h : s.Consistent) {k : UInt32 × Key} (hk : k ∈ s.keys) :
    s.bundle.toSource.key k.1 = .ok k.2.encode := by
  have hlookup : s.bundle.keys.lookup k.1 = some k.2.encode := by
    unfold bundle
    rw [lookup_map_snd]
    exact congrArg _ (h.keyByVersion?_eq_some_iff.mpr hk)
  unfold Bundle.toSource
  dsimp only
  rw [hlookup]

/-- How far loading has come. Some entries are done, and the keys of the others are missing. -/
structure Loading (s t : KeySet) (done rest : List KeyVersion) (keys : List (UInt32 × Key)) :
    Prop where
  holds : t.Holds done
  metadata_eq : t.metadata = s.metadata
  config_eq : t.config = s.config
  versions_eq : s.versions = done ++ rest
  keys_eq : s.keys = t.keys ++ keys

namespace Loading

variable {t : KeySet} {done rest : List KeyVersion} {keys : List (UInt32 × Key)} {v : KeyVersion}

theorem map_keys (h : s.Consistent) (hload : s.Loading t done rest keys) :
    keys.map (·.1) = rest.map (·.version) := by
  have hnumbers := h.holds.keys_eq
  rw [hload.keys_eq, hload.versions_eq, List.map_append, List.map_append,
    hload.holds.keys_eq, List.append_cancel_left_eq] at hnumbers
  exact hnumbers

theorem exists_cons (h : s.Consistent) (hload : s.Loading t done (v :: rest) keys) :
    ∃ key others, keys = (v.version, key) :: others := by
  have hnumbers := hload.map_keys h
  cases keys with
  | nil => simp at hnumbers
  | cons k others =>
    rw [List.map_cons, List.map_cons, List.cons.injEq] at hnumbers
    exact ⟨k.2, others, by rw [← hnumbers.1]⟩

theorem hasHash_eq_false (h : s.Consistent) {key : Key}
    (hload : s.Loading t done (v :: rest) ((v.version, key) :: keys)) :
    t.hasHash key.hash = false := by
  rw [hload.holds.hasHash_eq_false_iff]
  intro k hk heq
  have hnodup := h.holds.nodup_hashes
  rw [hload.keys_eq, List.map_append, List.nodup_append] at hnodup
  exact hnodup.2.2 _ (List.mem_map_of_mem hk) _ List.mem_cons_self heq

theorem primary_eq_none (h : s.Consistent) (hload : s.Loading t done (v :: rest) keys)
    (hstatus : v.status = .primary) : t.primary = none := by
  rw [Option.eq_none_iff_forall_not_mem]
  intro version hversion
  rcases (hload.holds.primary_iff version).mp hversion with ⟨w, hw, rfl, hw'⟩
  have hwmem : w ∈ s.versions := by
    rw [hload.versions_eq]
    exact List.mem_append_left _ hw
  have hvmem : v ∈ s.versions := by
    rw [hload.versions_eq]
    exact List.mem_append_right _ List.mem_cons_self
  -- Both entries are the primary one of the set, which has each number once.
  have heq := (h.primary_eq_iff hwmem).mpr hw'
  rw [(h.primary_eq_iff hvmem).mpr hstatus, Option.some.injEq] at heq
  have hnodup := h.valid.nodup
  change (s.versions.map (·.version)).Nodup at hnodup
  rw [hload.versions_eq, List.map_append, List.nodup_append] at hnodup
  exact hnodup.2.2 _ (List.mem_map_of_mem hw) _ List.mem_cons_self heq.symm

theorem mem_keys {key : Key} (hload : s.Loading t done (v :: rest) ((v.version, key) :: keys)) :
    (v.version, key) ∈ s.keys := by
  rw [hload.keys_eq]
  exact List.mem_append_right _ List.mem_cons_self

theorem loadVersion_eq_ok (h : s.Consistent) {key : Key}
    (hload : s.Loading t done (v :: rest) ((v.version, key) :: keys))
    (hkey : Key.decode key.encode = .ok key) :
    ∃ t', t.loadVersion s.bundle.toSource v = .ok t' ∧ s.Loading t' (done ++ [v]) rest keys := by
  have htype : key.type = t.keyType := by
    unfold keyType
    rw [hload.metadata_eq]
    exact h.holds.type_eq _ hload.mem_keys
  have hprimary : ¬(v.status = .primary ∧ t.primary.isSome) := by
    rintro ⟨hstatus, hsome⟩
    rw [hload.primary_eq_none h hstatus] at hsome
    simp at hsome
  have heq : t.loadVersion s.bundle.toSource v = .ok { t with
      keys := t.keys ++ [(v.version, key)]
      index := t.index ++ [(key.hash.toUInt32, v.version)]
      primary := if v.status = .primary then some v.version else t.primary } := by
    unfold loadVersion
    rw [h.key_toSource hload.mem_keys]
    simp only [ok_bind, hkey, htype, hload.hasHash_eq_false h, hprimary, ne_eq, not_true_eq_false,
      Bool.false_eq_true, ↓reduceIte, pure_eq_ok]
  rcases hload.holds.loadVersion heq with ⟨hholds, hmetadata, hconfig⟩
  refine ⟨_, heq, hholds, hmetadata.trans hload.metadata_eq, hconfig.trans hload.config_eq, ?_, ?_⟩
  . rw [hload.versions_eq, List.append_cons]
  . rw [hload.keys_eq, List.append_cons]

theorem loadVersion_eq_error (h : s.Consistent) {key : Key} {e : Error}
    (hload : s.Loading t done (v :: rest) ((v.version, key) :: keys))
    (hkey : Key.decode key.encode = .error e) : t.loadVersion s.bundle.toSource v = .error e := by
  unfold loadVersion
  rw [h.key_toSource hload.mem_keys]
  simp only [ok_bind, hkey, error_bind]

theorem foldlM_eq_ok (h : s.Consistent) (hload : s.Loading t done rest keys)
    (hkeys : ∀ k ∈ keys, Key.decode k.2.encode = .ok k.2) :
    rest.foldlM (loadVersion s.bundle.toSource) t = .ok s := by
  induction rest generalizing t done keys with
  | nil =>
    -- All entries are done, so no key is missing.
    have hnil : keys = [] := List.map_eq_nil_iff.mp (hload.map_keys h)
    have hholds := h.holds
    have hkeys := hload.keys_eq
    rw [hload.versions_eq, List.append_nil] at hholds
    rw [hnil, List.append_nil] at hkeys
    rw [List.foldlM_nil, pure_eq_ok, Except.ok.injEq]
    exact hholds.eq hload.holds hload.metadata_eq hload.config_eq hkeys.symm
  | cons v rest ih =>
    rcases hload.exists_cons h with ⟨key, others, rfl⟩
    rcases hload.loadVersion_eq_ok h (hkeys _ List.mem_cons_self) with ⟨t', ht', hload'⟩
    rw [List.foldlM_cons, ht', ok_bind]
    exact ih hload' (List.forall_mem_cons.mp hkeys).2

theorem foldlM_eq_error (h : s.Consistent) (hload : s.Loading t done rest keys) {e : Error}
    (hkeys : ∀ k ∈ keys, Key.decode k.2.encode = .ok k.2 ∨ Key.decode k.2.encode = .error e)
    (hsome : ∃ k ∈ keys, Key.decode k.2.encode = .error e) :
    rest.foldlM (loadVersion s.bundle.toSource) t = .error e := by
  induction rest generalizing t done keys with
  | nil =>
    have hnil : keys = [] := List.map_eq_nil_iff.mp (hload.map_keys h)
    rcases hsome with ⟨k, hk, _⟩
    rw [hnil] at hk
    simp at hk
  | cons v rest ih =>
    rcases hload.exists_cons h with ⟨key, others, rfl⟩
    rw [List.foldlM_cons]
    cases hkeys _ List.mem_cons_self with
    | inr hkey =>
      -- The first key that is refused ends the loading.
      rw [hload.loadVersion_eq_error h hkey, error_bind]
    | inl hkey =>
      rcases hload.loadVersion_eq_ok h hkey with ⟨t', ht', hload'⟩
      rw [ht', ok_bind]
      apply ih hload'
      . exact (List.forall_mem_cons.mp hkeys).2
      . rcases hsome with ⟨k, hk, hk'⟩
        cases List.mem_cons.mp hk with
        | inl heq =>
          rw [heq, hkey] at hk'
          simp at hk'
        | inr hmem => exact ⟨k, hmem, hk'⟩

end Loading

theorem Consistent.lists_toSource (h : s.Consistent) : s.bundle.toSource.Lists s.metadata :=
  ⟨s.metadata.encode, rfl, Metadata.decode_encode h.valid⟩

theorem Consistent.load_eq (h : s.Consistent) (operations : OperationClass) :
    load s.bundle.toSource operations s.config =
      if operations.accepts s.purpose then
        s.versions.foldlM (loadVersion s.bundle.toSource)
          { metadata := s.metadata, config := s.config }
      else
        .error (.unacceptablePurpose s.purpose "purpose does not permit this operation") := by
  exact load_eq_of_lists h.lists_toSource h.attempts_ne

theorem loading_empty (s : KeySet) :
    s.Loading { metadata := s.metadata, config := s.config } [] s.versions s.keys where
  holds := .empty s.metadata s.config
  metadata_eq := rfl
  config_eq := rfl
  versions_eq := rfl
  keys_eq := rfl

theorem Consistent.load_eq_ok (h : s.Consistent) (hkeys : ∀ k ∈ s.keys, k.2.Storable)
    (hload : ∀ k ∈ s.keys, k.2.Loadable) {operations : OperationClass}
    (haccepts : operations.accepts s.purpose) :
    load s.bundle.toSource operations s.config = .ok s := by
  rw [h.load_eq, if_pos haccepts]
  apply s.loading_empty.foldlM_eq_ok h
  intro k hk
  exact Key.decode_encode_of_loadable (hkeys k hk).shortFields (hload k hk)

theorem Consistent.load_eq_error (h : s.Consistent) (hkeys : ∀ k ∈ s.keys, k.2.Storable)
    (hload : ∃ k ∈ s.keys, ¬k.2.Loadable) {operations : OperationClass}
    (haccepts : operations.accepts s.purpose) :
    load s.bundle.toSource operations s.config = .error .badKey := by
  rw [h.load_eq, if_pos haccepts]
  apply s.loading_empty.foldlM_eq_error h
  . intro k hk
    by_cases hk' : k.2.Loadable
    . exact .inl (Key.decode_encode_of_loadable (hkeys k hk).shortFields hk')
    . exact .inr (Key.decode_encode_of_not_loadable (hkeys k hk).shortFields hk')
  . rcases hload with ⟨k, hk, hk'⟩
    exact ⟨k, hk, Key.decode_encode_of_not_loadable (hkeys k hk).shortFields hk'⟩

theorem Reachable.load_bundle (h : s.Reachable) (hkeys : ∀ k ∈ s.keys, k.2.Storable)
    (operations : OperationClass) :
    (operations.accepts s.purpose →
      (KeySet.load s.bundle.toSource operations s.config = .ok s ↔
        ∀ version k, (version, .rsaPublic k) ∈ s.keys → k.modulus.log2 < 4096) ∧
      (KeySet.load s.bundle.toSource operations s.config ≠ .ok s →
        KeySet.load s.bundle.toSource operations s.config = .error .badKey)) ∧
    (¬operations.accepts s.purpose →
      KeySet.load s.bundle.toSource operations s.config =
        .error (.unacceptablePurpose s.purpose "purpose does not permit this operation")) := by
  have hs := h.consistent
  constructor
  . intro haccepts
    by_cases hload : ∀ k ∈ s.keys, k.2.Loadable
    . have heq := hs.load_eq_ok hkeys hload haccepts
      refine ⟨⟨?_, fun _ => heq⟩, fun hne => absurd heq hne⟩
      intro _ version k hk
      exact hload _ hk
    . have hsome : ∃ k ∈ s.keys, ¬k.2.Loadable := by simpa using hload
      have heq := hs.load_eq_error hkeys hsome haccepts
      rw [heq]
      refine ⟨⟨by simp, ?_⟩, fun _ => rfl⟩
      intro hsmall
      rcases hsome with ⟨⟨version, k⟩, hk, hk'⟩
      cases k with
      | rsaPublic k => exact absurd (hsmall version k hk) hk'
      | aes _ | hmac _ | rsaPrivate _ | dsaPrivate _ | dsaPublic _ => exact absurd trivial hk'
  . intro hrefuses
    rw [hs.load_eq, if_neg hrefuses]

theorem storable_sampleKey (b : UInt8) : (sampleKey b).Storable := by
  unfold sampleKey Key.Storable Key.ShortFields Key.fields
  simp

theorem storable_sample : ∀ k ∈ sample.keys, k.2.Storable := by
  intro k hk
  cases hk with
  | head => exact storable_sampleKey 1
  | tail _ hk =>
    rw [List.mem_singleton.mp hk]
    exact storable_sampleKey 2

theorem load_bundle_sample :
    sample.Reachable ∧ (∀ k ∈ sample.keys, k.2.Storable) ∧
      KeySet.load sample.bundle.toSource .signer sample.config = .ok sample ∧
      KeySet.load sample.bundle.toSource .crypter sample.config =
        .error (.unacceptablePurpose .signAndVerify
          "purpose does not permit this operation") := by
  refine ⟨reachable_sample, storable_sample, ?_, ?_⟩
  . rw [((Reachable.load_bundle reachable_sample storable_sample .signer).1 rfl).1]
    intro version k hk
    have hmem := List.mem_map_of_mem (f := fun k => k.2.type) hk
    simp [sample, sampleEmpty, keys_insert, sampleKey, Key.type] at hmem
  . exact (Reachable.load_bundle reachable_sample storable_sample .crypter).2 (by decide)

/-- Two primes whose product has 4101 bits. -/
def largePrimes : Nat × Nat :=
  (2 ^ 2050 - 7323, 2 ^ 2051 - 289)

/-- An RSA key that is accepted although its public half alone is too large. -/
def largeKey : RsaPrivateKey where
  publicKey := {
    modulus := largePrimes.1 * largePrimes.2
    exponent := 65537
    valid := by decide +kernel }
  exponent := (64230 * ((largePrimes.1 - 1) * (largePrimes.2 - 1)) + 1) / 65537
  p := largePrimes.1
  q := largePrimes.2
  valid := by decide +kernel

def large : KeySet :=
  let empty : KeySet := {
    metadata := ⟨"sample", .signAndVerify, .rsaPrivate, 0, []⟩
    config := {} }
  empty.insert .primary (.rsaPrivate largeKey)

def largePublic : KeySet :=
  { large with
    metadata := { large.metadata with purpose := .verify, keyType := .rsaPublic }
    keys := [(1, .rsaPublic largeKey.publicKey)] }

theorem reachable_large : large.Reachable := by
  unfold large
  apply Reachable.insert
  . exact @Reachable.new "sample" .signAndVerify .rsaPrivate {} _ rfl
  . rfl
  . rfl
  . decide

theorem decode_encode_largeKey :
    Key.decode (Key.rsaPrivate largeKey).encode = .ok (.rsaPrivate largeKey) := by
  have hshort : Key.ShortFields (.rsaPrivate largeKey) := by
    unfold Key.ShortFields
    decide +kernel
  exact Key.decode_encode_of_loadable hshort trivial

theorem publicHalf_large : large.publicHalf = .ok largePublic := by
  rfl

theorem reachable_largePublic : largePublic.Reachable := by
  exact reachable_large.publicHalf publicHalf_large

theorem storable_largePublic : ∀ k ∈ largePublic.keys, k.2.Storable := by
  intro k hk
  rw [List.mem_singleton.mp hk]
  exact ⟨_, _, decode_encode_largeKey, .inr rfl⟩

/-- A verifier cannot load the public half of a set with a large key. -/
theorem load_bundle_largePublic :
    large.publicHalf = .ok largePublic ∧ largePublic.Reachable ∧
      (∀ k ∈ largePublic.keys, k.2.Storable) ∧
      OperationClass.verifier.accepts largePublic.purpose ∧
      KeySet.load largePublic.bundle.toSource .verifier largePublic.config = .error .badKey := by
  refine ⟨rfl, reachable_largePublic, storable_largePublic, rfl, ?_⟩
  apply reachable_largePublic.consistent.load_eq_error storable_largePublic
  . refine ⟨_, List.mem_singleton.mpr rfl, ?_⟩
    unfold Key.Loadable
    decide +kernel
  . rfl

end KeySet

end Keyring
