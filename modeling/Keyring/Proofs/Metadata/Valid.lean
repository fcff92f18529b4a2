import Keyring.Metadata.Basic
import Keyring.Proofs.Outcome
import Mathlib.Data.List.Nodup
/-!
This module contains what the checks of metadata establish and that every change of metadata keeps
it: the purpose suits the key type, the name is short enough, and the version numbers ascend from
above zero up to the last one that was assigned.
-/

namespace Keyring

namespace Metadata

def numbers (m : Metadata) : List UInt32 :=
  m.versions.map (·.version)

/-- What loading checks of metadata. -/
structure Valid (m : Metadata) : Prop where
  accepts : m.purpose.accepts m.keyType
  name_le : m.name.utf8ByteSize ≤ maxNameSize
  ascending : m.numbers.Pairwise (· < ·)
  positive : ∀ n ∈ m.numbers, 0 < n
  le_last : ∀ n ∈ m.numbers, n ≤ m.lastVersion

def relabel (m : Metadata) (f : KeyVersion → Status) : Metadata :=
  { m with versions := m.versions.map fun v => { v with status := f v } }

theorem mem_numbers_of_mem {m : Metadata} {v : KeyVersion} (h : v ∈ m.versions) :
    v.version ∈ m.numbers := by
  apply List.mem_map_of_mem
  exact h

@[simp]
theorem numbers_relabel (m : Metadata) (f : KeyVersion → Status) :
    (m.relabel f).numbers = m.numbers := by
  simp [numbers, relabel]

theorem relabel_relabel (m : Metadata) (f g : KeyVersion → Status) :
    (m.relabel f).relabel g = m.relabel fun v => g { v with status := f v } := by
  simp [relabel]

theorem setStatus_eq_relabel (m : Metadata) (version : UInt32) (status : Status) :
    m.setStatus version status =
      m.relabel fun v => if v.version = version then status else v.status := by
  unfold setStatus relabel
  congr
  funext v
  split
  . next h => simp only [h, ↓reduceIte]
  . next h => simp only [h, ↓reduceIte]

theorem checkHeader_eq_ok_iff {name : String} {purpose : Purpose} {keyType : KeyType} :
    checkHeader name purpose keyType = .ok () ↔
      purpose.accepts keyType ∧ name.utf8ByteSize ≤ maxNameSize := by
  unfold checkHeader
  split
  . next hpurpose =>
    split
    . next hname => simp [hpurpose, hname]
    . next hname => simp [hname]
  . next hpurpose => simp [hpurpose]

theorem new_eq_ok_iff {name : String} {purpose : Purpose} {keyType : KeyType} {m : Metadata} :
    new name purpose keyType = .ok m ↔
      (purpose.accepts keyType ∧ name.utf8ByteSize ≤ maxNameSize) ∧
        m = { name, purpose, keyType } := by
  unfold new
  rw [← checkHeader_eq_ok_iff]
  simp only [bind_eq_ok_iff, pure_eq_ok, Except.ok.injEq]
  constructor
  . rintro ⟨_, hheader, rfl⟩
    exact ⟨hheader, rfl⟩
  . rintro ⟨hheader, rfl⟩
    exact ⟨(), hheader, rfl⟩

theorem withPurpose_eq_ok_iff {m m' : Metadata} {purpose : Purpose} {keyType : KeyType} :
    m.withPurpose purpose keyType = .ok m' ↔
      (purpose.accepts keyType ∧ m.name.utf8ByteSize ≤ maxNameSize) ∧
        m' = { m with purpose, keyType } := by
  unfold withPurpose
  rw [← checkHeader_eq_ok_iff]
  simp only [bind_eq_ok_iff, pure_eq_ok, Except.ok.injEq]
  constructor
  . rintro ⟨_, hheader, rfl⟩
    exact ⟨hheader, rfl⟩
  . rintro ⟨hheader, rfl⟩
    exact ⟨(), hheader, rfl⟩

theorem checkVersions_eq_ok_iff {last last' : UInt32} {versions : List KeyVersion} :
    checkVersions last versions = .ok last' ↔
      (last :: versions.map (·.version)).Pairwise (· < ·) ∧
        last' = (versions.map (·.version)).getLastD last := by
  induction versions generalizing last with
  | nil => simp [checkVersions, eq_comm]
  | cons v versions ih =>
    unfold checkVersions
    rw [ite_error_eq_ok_iff, ih, UInt32.not_le, List.map_cons, List.getLastD_cons, ← and_assoc]
    apply and_congr_left
    intro _
    constructor
    . rintro ⟨hlt, hascending⟩
      apply List.pairwise_cons.mpr
      refine ⟨?_, hascending⟩
      intro n hn
      cases List.mem_cons.mp hn with
      | inl heq =>
        rw [heq]
        exact hlt
      | inr hmem =>
        exact UInt32.lt_trans hlt ((List.pairwise_cons.mp hascending).1 n hmem)
    . intro hascending
      rw [List.pairwise_cons] at hascending
      exact ⟨hascending.1 v.version List.mem_cons_self, hascending.2⟩

theorem le_getLastD_of_ascending {a : UInt32} {numbers : List UInt32}
    (h : (a :: numbers).Pairwise (· < ·)) : ∀ n ∈ a :: numbers, n ≤ numbers.getLastD a := by
  induction numbers generalizing a with
  | nil => simp
  | cons b numbers ih =>
    rw [List.pairwise_cons] at h
    intro n hn
    rw [List.getLastD_cons]
    cases List.mem_cons.mp hn with
    | inl heq =>
      have hab : a < b := h.1 b List.mem_cons_self
      have hb := ih h.2 b List.mem_cons_self
      rw [heq]
      exact UInt32.le_trans (UInt32.le_of_lt hab) hb
    | inr hmem => exact ih h.2 n hmem

theorem check_eq_ok_iff {m m' : Metadata} : m.check = .ok m' ↔ m.Valid ∧ m' = m := by
  unfold check
  simp only [bind_eq_ok_iff, checkVersions_eq_ok_iff, throw_eq_error, error_bind,
    ite_error_eq_ok_iff, pure_eq_ok, Except.ok.injEq, UInt32.not_lt]
  constructor
  . -- The numbers ascend from zero, which makes them positive, and the last of them bounds all.
    rintro ⟨_, hheader, _, ⟨hascending, rfl⟩, hlast, rfl⟩
    rw [checkHeader_eq_ok_iff] at hheader
    have hle := le_getLastD_of_ascending hascending
    rw [List.pairwise_cons] at hascending
    refine ⟨⟨hheader.1, hheader.2, hascending.2, hascending.1, ?_⟩, rfl⟩
    intro n hn
    exact UInt32.le_trans (hle n (List.mem_cons_of_mem 0 hn)) hlast
  . rintro ⟨hvalid, rfl⟩
    have hascending : (0 :: m'.versions.map (·.version)).Pairwise (· < ·) :=
      List.pairwise_cons.mpr ⟨hvalid.positive, hvalid.ascending⟩
    refine ⟨(), checkHeader_eq_ok_iff.mpr ⟨hvalid.accepts, hvalid.name_le⟩, _,
      ⟨hascending, rfl⟩, ?_, rfl⟩
    cases List.mem_cons.mp (List.getLastD_mem_cons (l := m'.numbers) (a := 0)) with
    | inl heq =>
      unfold numbers at heq
      rw [heq]
      exact UInt32.zero_le
    | inr hmem => exact hvalid.le_last _ hmem

namespace Valid

variable {m : Metadata}

theorem of_new {name : String} {purpose : Purpose} {keyType : KeyType}
    (h : Metadata.new name purpose keyType = .ok m) : m.Valid := by
  rcases new_eq_ok_iff.mp h with ⟨hheader, rfl⟩
  exact ⟨hheader.1, hheader.2, by simp [numbers], by simp [numbers], by simp [numbers]⟩

theorem relabel (h : m.Valid) (f : KeyVersion → Status) : (m.relabel f).Valid where
  accepts := h.accepts
  name_le := h.name_le
  ascending := by
    rw [numbers_relabel]
    exact h.ascending
  positive := by
    rw [numbers_relabel]
    exact h.positive
  le_last := by
    rw [numbers_relabel]
    exact h.le_last

theorem removeVersion (h : m.Valid) (version : UInt32) : (m.removeVersion version).Valid := by
  have hsublist : (m.removeVersion version).numbers.Sublist m.numbers :=
    List.filter_sublist.map _
  constructor
  . exact h.accepts
  . exact h.name_le
  . exact h.ascending.sublist hsublist
  . intro n hn
    exact h.positive n (hsublist.subset hn)
  . intro n hn
    exact h.le_last n (hsublist.subset hn)

theorem pushVersion (h : m.Valid) {v : KeyVersion} {m' : Metadata}
    (hpush : m.pushVersion v = .ok m') : m'.Valid := by
  unfold Metadata.pushVersion at hpush
  rw [ite_error_eq_ok_iff, UInt32.not_le, Except.ok.injEq] at hpush
  rcases hpush with ⟨hlt, rfl⟩
  have hbelow : ∀ n ∈ m.numbers, n < v.version := by
    intro n hn
    exact UInt32.lt_of_le_of_lt (h.le_last n hn) hlt
  have hnumbers : { m with lastVersion := v.version, versions := m.versions ++ [v] }.numbers
      = m.numbers ++ [v.version] := by
    simp [numbers]
  constructor
  . exact h.accepts
  . exact h.name_le
  . rw [hnumbers, List.pairwise_append]
    exact ⟨h.ascending, List.pairwise_singleton _ _, by simpa using hbelow⟩
  . intro n hn
    rw [hnumbers, List.mem_append, List.mem_singleton] at hn
    cases hn with
    | inl hmem => exact h.positive n hmem
    | inr heq =>
      rw [heq]
      exact UInt32.lt_of_le_of_lt UInt32.zero_le hlt
  . intro n hn
    rw [hnumbers, List.mem_append, List.mem_singleton] at hn
    cases hn with
    | inl hmem => exact UInt32.le_of_lt (hbelow n hmem)
    | inr heq =>
      rw [heq]
      exact UInt32.le_refl _

theorem withPurpose (h : m.Valid) {purpose : Purpose} {keyType : KeyType} {m' : Metadata}
    (hm' : m.withPurpose purpose keyType = .ok m') : m'.Valid := by
  rcases withPurpose_eq_ok_iff.mp hm' with ⟨hheader, rfl⟩
  exact ⟨hheader.1, hheader.2, h.ascending, h.positive, h.le_last⟩

theorem nodup (h : m.Valid) : m.numbers.Nodup :=
  h.ascending.imp UInt32.ne_of_lt

theorem eq_of_version_eq (h : m.Valid) {v w : KeyVersion} (hv : v ∈ m.versions)
    (hw : w ∈ m.versions) (heq : v.version = w.version) : v = w := by
  apply List.inj_on_of_nodup_map h.nodup
  . exact hv
  . exact hw
  . exact heq

theorem version?_eq_some_iff (h : m.Valid) {version : UInt32} {v : KeyVersion} :
    m.version? version = some v ↔ v ∈ m.versions ∧ v.version = version := by
  unfold Metadata.version?
  constructor
  . intro hfind
    exact ⟨List.mem_of_find?_eq_some hfind, by simpa using List.find?_some hfind⟩
  . rintro ⟨hv, rfl⟩
    cases hfind : m.versions.find? (·.version == v.version) with
    | none =>
      rw [List.find?_eq_none] at hfind
      simpa using hfind v hv
    | some w =>
      have hw : w.version = v.version := by simpa using List.find?_some hfind
      rw [h.eq_of_version_eq (List.mem_of_find?_eq_some hfind) hv hw]

end Valid

end Metadata

end Keyring
