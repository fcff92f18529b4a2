import Keyring.Proofs.KeySet.InPlace
import Keyring.Proofs.KeySet.Invariant
/-!
This module contains how a call that adds a version ends, told by the results that the generator
hands out one after another: keys whose hashes are taken are passed over, and the first other result
settles the call, unless the attempts run out before.
-/

namespace Keyring

namespace Generator

variable {σ : Type}

/-- The state of a generator after some calls, each of which may have failed. -/
def after (generate : EStateM Error σ Key) (start : σ) : Nat → σ
  | 0 => start
  | calls + 1 =>
    match generate.run (after generate start calls) with
    | .ok _ rest | .error _ rest => rest

/-- What a generator hands out after some calls. -/
def result (generate : EStateM Error σ Key) (start : σ) (calls : Nat) : Except Error Key :=
  match generate.run (after generate start calls) with
  | .ok key _ => .ok key
  | .error e _ => .error e

/-- A generator with the number of its calls. -/
def counted (generate : EStateM Error σ Key) : EStateM Error (σ × Nat) Key :=
  fun (state, calls) => match generate.run state with
    | .ok key rest => .ok key (rest, calls + 1)
    | .error e rest => .error e (rest, calls + 1)

variable (generate : EStateM Error σ Key) (start : σ) (calls : Nat)

theorem after_succ :
    after generate start (calls + 1) = match generate.run (after generate start calls) with
      | .ok _ rest | .error _ rest => rest := by
  rfl

theorem run_after :
    generate.run (after generate start calls) = match result generate start calls with
      | .ok key => .ok key (after generate start (calls + 1))
      | .error e => .error e (after generate start (calls + 1)) := by
  rw [result, after_succ]
  cases generate.run (after generate start calls) with
  | ok key rest => rfl
  | error e rest => rfl

theorem run_counted (state : σ) :
    (counted generate).run (state, calls) = match generate.run state with
      | .ok key rest => .ok key (rest, calls + 1)
      | .error e rest => .error e (rest, calls + 1) := by
  rfl

@[simp]
theorem after_counted :
    after (counted generate) (start, 0) calls = (after generate start calls, calls) := by
  induction calls with
  | zero => rfl
  | succ calls ih =>
    rw [after_succ, after_succ, ih, run_counted]
    cases generate.run (after generate start calls) with
    | ok key rest => rfl
    | error e rest => rfl

@[simp]
theorem result_counted :
    result (counted generate) (start, 0) calls = result generate start calls := by
  rw [result, result, after_counted, run_counted]
  cases generate.run (after generate start calls) with
  | ok key rest => rfl
  | error e rest => rfl

end Generator

namespace KeySet

open Generator

/-- The set with a key as its next version. A primary one takes over from the former, which becomes
active. -/
def withVersion (s : KeySet) (status : Status) (key : Key) : KeySet :=
  let version := s.metadata.lastVersion + 1
  let former := if status = .primary then
      s.versions.map fun v => if v.status = .primary then { v with status := .active } else v
    else
      s.versions
  { s with
    metadata := { s.metadata with
      lastVersion := version
      versions := former ++ [⟨version, status, false⟩] }
    keys := s.keys ++ [(version, key)]
    index := s.index ++ [(key.hash.toUInt32, version)]
    primary := if status = .primary then some version else s.primary }

/-- A result of a generator is passed over: a key like those of the set, whose hash is taken. -/
def Discards (s : KeySet) (result : Except Error Key) : Prop :=
  ∃ key, result = .ok key ∧ key.type = s.keyType ∧ ∃ k ∈ s.keys, k.2.hash = key.hash

section

variable {σ : Type}

/-- How adding a version ends and after how many calls of the generator. In place, the set is
replaced at the end or not at all. -/
structure Adds (s : KeySet) (status : Status) (generate : EStateM Error σ Key) (start : σ)
    (calls : Nat) (outcome : Except Error (UInt32 × KeySet)) : Prop where
  run_inPlace_eq : (Editing.addVersionWith status generate).run (s, start) = match outcome with
    | .ok (version, s') => .ok version (s', after generate start calls)
    | .error e => .error e (s, after generate start calls)
  run_eq : (s.addVersionWith status generate).run start =
    EStateM.run (MonadExcept.ofExcept outcome) (after generate start calls)
  run_counted_eq : (s.addVersionWith status (counted generate)).run (start, 0) =
    EStateM.run (MonadExcept.ofExcept outcome) (after generate start calls, calls)

end

variable {s : KeySet}

theorem relabel_append (s : KeySet) (key : Key) (f : KeyVersion → Status)
    (primary : Option UInt32) :
    (s.append key).relabel f primary = { s.append key with
      metadata := { (s.append key).metadata with
        versions := (s.versions.map fun v => { v with status := f v }) ++
          [⟨s.metadata.lastVersion + 1, f ⟨s.metadata.lastVersion + 1, .active, false⟩, false⟩] }
      primary } := by
  unfold relabel Metadata.relabel
  simp only [append, List.map_append, List.map_cons, List.map_nil]

theorem Consistent.insert_eq_withVersion (h : s.Consistent)
    (hlast : s.metadata.lastVersion ≠ 0xffffffff) (status : Status) (key : Key) :
    s.insert status key = s.withVersion status key := by
  cases status with
  | active => rfl
  | primary =>
    have hversions : (s.versions.map fun v =>
          { v with status := (s.append key).promotion (s.metadata.lastVersion + 1) v }) =
        s.versions.map fun v =>
          if v.status = .primary then { v with status := .active } else v := by
      apply List.map_congr_left
      intro v hv
      rw [KeySet.promotion, if_neg (version_ne_next h.valid hlast hv)]
      simp only [KeySet.append, h.primary_eq_iff hv]
      split
      . rfl
      . rfl
    rw [KeySet.insert, relabel_append, hversions, KeySet.promotion, if_pos rfl]
    rfl
  | scheduledForRevocation =>
    have hversions : (s.versions.map fun v =>
          { v with status := if v.version = s.metadata.lastVersion + 1 then
              .scheduledForRevocation else v.status }) = s.versions := by
      apply (List.map_congr_left _).trans (List.map_id _)
      intro v hv
      rw [if_neg (version_ne_next h.valid hlast hv)]
      rfl
    rw [KeySet.insert, relabel_append, hversions, if_pos rfl]
    rfl

section

variable {σ : Type} {status : Status} {generate : EStateM Error σ Key} {start : σ}

/-- One attempt: a result settles the call, or the next attempt starts from the same set. -/
theorem run_go_after (attempts calls : Nat) :
    (addVersionWith.go s status generate (attempts + 1)).run (after generate start calls) =
      match result generate start calls >>= s.tryInsert status with
      | .ok (some added) => .ok added (after generate start (calls + 1))
      | .ok none =>
        (addVersionWith.go s status generate attempts).run (after generate start (calls + 1))
      | .error e => .error e (after generate start (calls + 1)) := by
  rw [addVersionWith.go, EStateM.run_bind, run_after]
  cases result generate start calls with
  | error e => rfl
  | ok key =>
    simp only [EStateM.run_bind, ok_bind]
    cases s.tryInsert status key with
    | error e => rfl
    | ok added =>
      cases added with
      | none => rfl
      | some added => rfl

theorem Discards.bind_eq_ok (h : s.Consistent) {result : Except Error Key}
    (hresult : s.Discards result) : (result >>= s.tryInsert status) = .ok none := by
  rcases hresult with ⟨key, rfl, htype, htaken⟩
  rw [ok_bind, tryInsert_eq h.valid, if_neg (not_not.mpr htype)]
  rw [if_pos (h.holds.hasHash_eq_true_iff.mpr htaken)]

theorem run_go_of_discards (h : s.Consistent) {calls : Nat}
    (hcalls : ∀ j < calls, s.Discards (result generate start j)) (attempts : Nat) :
    (addVersionWith.go s status generate (attempts + calls)).run start =
      (addVersionWith.go s status generate attempts).run (after generate start calls) := by
  induction calls generalizing attempts with
  | zero => rfl
  | succ calls ih =>
    have hlast := hcalls calls (Nat.lt_succ_self calls)
    rw [← Nat.succ_add_eq_add_succ, ih fun j hj => hcalls j (Nat.lt_succ_of_lt hj)]
    rw [run_go_after, hlast.bind_eq_ok h]

theorem run_addVersionWith_of_settled (h : s.Consistent) {calls : Nat}
    (hattempt : calls < s.config.maxGenerationAttempts.toNat)
    (hcalls : ∀ j < calls, s.Discards (result generate start j))
    {outcome : Except Error (UInt32 × KeySet)}
    (houtcome : (result generate start calls >>= s.tryInsert status) = outcome.map some) :
    (s.addVersionWith status generate).run start =
      EStateM.run (MonadExcept.ofExcept outcome) (after generate start (calls + 1)) := by
  rcases Nat.exists_eq_add_of_lt hattempt with ⟨left, hleft⟩
  unfold addVersionWith
  rw [hleft, Nat.add_assoc, Nat.add_comm, run_go_of_discards h hcalls, run_go_after, houtcome]
  cases outcome with
  | error e => rfl
  | ok added => rfl

theorem run_addVersionWith_of_discards (h : s.Consistent)
    (hcalls : ∀ j < s.config.maxGenerationAttempts.toNat, s.Discards (result generate start j)) :
    (s.addVersionWith status generate).run start =
      .error (.exhaustedKeyGeneration s.config.maxGenerationAttempts)
        (after generate start s.config.maxGenerationAttempts.toNat) := by
  have hrun : (addVersionWith.go s status generate
      (0 + s.config.maxGenerationAttempts.toNat)).run start = _ := run_go_of_discards h hcalls 0
  rw [Nat.zero_add] at hrun
  exact hrun

theorem Adds.of_run_eq (h : s.Consistent) {calls : Nat} {outcome : Except Error (UInt32 × KeySet)}
    (hrun : (s.addVersionWith status generate).run start =
      EStateM.run (MonadExcept.ofExcept outcome) (after generate start calls))
    (hcounted : (s.addVersionWith status (counted generate)).run (start, 0) =
      EStateM.run (MonadExcept.ofExcept outcome) (after (counted generate) (start, 0) calls)) :
    s.Adds status generate start calls outcome := by
  rw [after_counted] at hcounted
  refine ⟨?_, hrun, hcounted⟩
  rw [Editing.run_addVersionWith h.valid, hrun]
  cases outcome with
  | error e => rfl
  | ok added => rfl

theorem Adds.of_settled (h : s.Consistent) {calls : Nat}
    (hattempt : calls < s.config.maxGenerationAttempts.toNat)
    (hcalls : ∀ j < calls, s.Discards (result generate start j))
    {outcome : Except Error (UInt32 × KeySet)}
    (houtcome : (result generate start calls >>= s.tryInsert status) = outcome.map some) :
    s.Adds status generate start (calls + 1) outcome := by
  apply Adds.of_run_eq h (run_addVersionWith_of_settled h hattempt hcalls houtcome)
  apply run_addVersionWith_of_settled h hattempt
  . simpa only [result_counted] using hcalls
  . rw [result_counted, houtcome]

theorem Adds.of_discards (h : s.Consistent)
    (hcalls : ∀ j < s.config.maxGenerationAttempts.toNat, s.Discards (result generate start j)) :
    s.Adds status generate start s.config.maxGenerationAttempts.toNat
      (.error (.exhaustedKeyGeneration s.config.maxGenerationAttempts)) := by
  apply Adds.of_run_eq h (run_addVersionWith_of_discards h hcalls)
  apply run_addVersionWith_of_discards h
  simpa only [result_counted] using hcalls

theorem Reachable.addVersionWith_outcome (h : s.Reachable) (status : Status)
    (generate : EStateM Error σ Key) (start : σ) :
    (∀ i < s.config.maxGenerationAttempts.toNat,
      (∀ j < i, s.Discards (result generate start j)) →
      (∀ e, result generate start i = .error e →
        s.Adds status generate start (i + 1) (.error e)) ∧
      ∀ key, result generate start i = .ok key →
        (key.type ≠ s.keyType →
          s.Adds status generate start (i + 1) (.error (.unsupportedType key.type.tag))) ∧
        (key.type = s.keyType → (∀ k ∈ s.keys, k.2.hash ≠ key.hash) →
          s.Adds status generate start (i + 1)
            (if s.metadata.lastVersion = 0xffffffff then
              .error (.badFormat "version numbers exhausted")
            else
              .ok (s.metadata.lastVersion + 1, s.withVersion status key)))) ∧
    ((∀ j < s.config.maxGenerationAttempts.toNat, s.Discards (result generate start j)) →
      s.Adds status generate start s.config.maxGenerationAttempts.toNat
        (.error (.exhaustedKeyGeneration s.config.maxGenerationAttempts))) := by
  have hs := h.consistent
  refine ⟨?_, Adds.of_discards hs⟩
  intro i hi hbefore
  refine ⟨?_, fun key hkey => ⟨?_, ?_⟩⟩
  . intro e he
    apply Adds.of_settled hs hi hbefore
    rw [he]
    rfl
  . intro htype
    apply Adds.of_settled hs hi hbefore
    rw [hkey, ok_bind, tryInsert_eq hs.valid, if_pos htype]
    rfl
  . intro htype hfresh
    apply Adds.of_settled hs hi hbefore
    rw [hkey, ok_bind, tryInsert_eq hs.valid, if_neg (not_not.mpr htype)]
    rw [hs.holds.hasHash_eq_false_iff.mpr hfresh, if_neg Bool.false_ne_true]
    split
    . rfl
    . next hlast =>
      rw [hs.insert_eq_withVersion hlast]
      rfl

end

/-- A generator that hands out some keys in order. -/
def scripted : EStateM Error (List Key) Key
  | [] => .error .badKey []
  | key :: keys => .ok key keys

theorem addVersionWith_outcome_sample :
    sample.Reachable ∧
      (sample.Discards (.ok (sampleKey 1)) ∧
        sample.Adds .primary scripted [sampleKey 1, sampleKey 3] 2
          (.ok (3, sample.withVersion .primary (sampleKey 3)))) ∧
      sample.Adds .active scripted (List.replicate 32 (sampleKey 1)) 32
        (.error (.exhaustedKeyGeneration 32)) := by
  have hdiscards : sample.Discards (.ok (sampleKey 1)) :=
    ⟨sampleKey 1, rfl, rfl, (1, sampleKey 1), by decide +kernel, rfl⟩
  have hadded := Reachable.addVersionWith_outcome reachable_sample .primary scripted
    [sampleKey 1, sampleKey 3]
  have hexhausted := Reachable.addVersionWith_outcome reachable_sample .active scripted
    (List.replicate 32 (sampleKey 1))
  have hone : ∀ j < 1, sample.Discards (result scripted [sampleKey 1, sampleKey 3] j) := by
    intro j hj
    rw [Nat.lt_one_iff.mp hj]
    exact hdiscards
  have hall : ∀ j < 32,
      result scripted (List.replicate 32 (sampleKey 1)) j = .ok (sampleKey 1) := by
    decide +kernel
  refine ⟨reachable_sample, ⟨hdiscards, ?_⟩, hexhausted.2 ?_⟩
  . exact ((hadded.1 1 (by decide +kernel) hone).2 (sampleKey 3) rfl).2 rfl (by decide +kernel)
  . intro j hj
    rw [hall j hj]
    exact hdiscards

end KeySet

end Keyring
