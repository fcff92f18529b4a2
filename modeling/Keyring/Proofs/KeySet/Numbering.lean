import Keyring.Proofs.KeySet.Storage
/-!
This module contains the numbering of versions over the life of a key set, which goes on when the
set is saved and loaded again. Every number is assigned once, and when the last one is assigned no
version can be added any more.
-/

namespace Keyring

/-- What happened to a key set. -/
inductive Event where
  | changed (change : Change)
  /-- The set gave way to what was loaded from its bundle. -/
  | reloaded
deriving DecidableEq

namespace Event

/-- The version number that is assigned. -/
def assigned? : Event → Option UInt32
  | .changed (.added version _) => some version
  | .changed _ | .reloaded => none

end Event

namespace KeySet

/-- An event and the set that it left. -/
inductive Undergoes (s : KeySet) : Event → KeySet → Prop where
  | call {change : Change} {s' : KeySet} : s.Step change s' → Undergoes s (.changed change) s'
  | reload {operations : OperationClass} {config : Config} {s' : KeySet} :
      load s.bundle.toSource operations config = .ok s' → Undergoes s .reloaded s'

/-- Events one after another. -/
inductive History : KeySet → List Event → KeySet → Prop where
  | nil {s : KeySet} : History s [] s
  | cons {s t u : KeySet} {event : Event} {events : List Event} :
      s.Undergoes event t → History t events u → History s (event :: events) u

/-- What an event does to the numbering. -/
structure Numbers (s : KeySet) (event : Event) (s' : KeySet) : Prop where
  next : ∀ version, event.assigned? = some version →
    version.toNat = s.metadata.lastVersion.toNat + 1
  lastVersion_eq : s'.metadata.lastVersion = event.assigned?.getD s.metadata.lastVersion

/-- The first key out of a generator whose hash is not taken comes within some attempts. -/
inductive Offers {σ : Type} (s : KeySet) (generate : EStateM Error σ Key) :
    Nat → σ → Key → σ → Prop where
  | fresh {attempts : Nat} {start rest : σ} {key : Key} :
      generate.run start = .ok key rest → s.hasHash key.hash = false →
      Offers s generate (attempts + 1) start key rest
  | retry {attempts : Nat} {start next rest : σ} {taken key : Key} :
      generate.run start = .ok taken next → taken.type = s.keyType → s.hasHash taken.hash →
      Offers s generate attempts next key rest → Offers s generate (attempts + 1) start key rest

variable {s s' t : KeySet}

namespace Numbers

theorem of_lastVersion_eq {event : Event} (h : event.assigned? = none)
    (hlast : s'.metadata.lastVersion = s.metadata.lastVersion) : s.Numbers event s' := by
  constructor
  . simp [h]
  . rw [h, hlast, Option.getD_none]

theorem insert (hlast : s.metadata.lastVersion ≠ 0xffffffff) (status : Status) (key key' : Key) :
    s.Numbers (.changed (.added (s.metadata.lastVersion + 1) key')) (s.insert status key) := by
  constructor
  . intro version hversion
    cases hversion
    exact toNat_add_one hlast
  . exact lastVersion_insert s status key

end Numbers

namespace Consistent

theorem numbers_of_step (h : s.Consistent) {change : Change} (hstep : s.Step change s') :
    s.Numbers (.changed change) s' := by
  cases hstep with
  | add hs' =>
    rcases exists_tryInsert_of_addVersionWith hs' with ⟨key, hkey⟩
    rcases h.tryInsert hkey with ⟨_, _, hlast, rfl, rfl⟩
    exact .insert hlast _ _ _
  | promote hs' =>
    rcases (promote_eq_ok_iff h.valid).mp hs' with ⟨v, _, _, rfl⟩
    apply Numbers.of_lastVersion_eq rfl
    split
    . rfl
    . rfl
  | demote hs' =>
    rcases (demote_eq_ok_iff h.valid).mp hs' with ⟨v, _, _, rfl⟩
    apply Numbers.of_lastVersion_eq rfl
    split
    . rfl
    . rfl
  | revoke hs' =>
    rcases (revoke_eq_ok_iff h.valid).mp hs' with ⟨v, _, _, _, rfl⟩
    exact .of_lastVersion_eq rfl rfl
  | addFailed | promoteFailed | demoteFailed | revokeFailed => exact .of_lastVersion_eq rfl rfl

theorem metadata_of_reload (h : s.Consistent) {operations : OperationClass} {config : Config}
    (hs' : load s.bundle.toSource operations config = .ok s') : s'.metadata = s.metadata := by
  rcases load_eq_ok_iff.mp hs' with ⟨_, m, hm, _, hfold⟩
  rw [hm.unique h.lists_toSource] at hfold
  exact ((Loaded.empty _ _ _).foldlM_loadVersion hfold).metadata_eq

theorem numbers (h : s.Consistent) {event : Event} (hevent : s.Undergoes event s') :
    s.Numbers event s' := by
  cases hevent with
  | call hstep => exact h.numbers_of_step hstep
  | reload hs' =>
    apply Numbers.of_lastVersion_eq rfl
    rw [h.metadata_of_reload hs']

theorem undergoes (h : s.Consistent) {event : Event} (hevent : s.Undergoes event s') :
    s'.Consistent := by
  cases hevent with
  | call hstep => exact h.step hstep
  | reload hs' => exact .of_load hs'

theorem history (h : s.Consistent) {events : List Event} (hhistory : s.History events t) :
    t.Consistent := by
  induction hhistory with
  | nil => exact h
  | cons hevent _ ih => exact ih (h.undergoes hevent)

/-- The numbers that are assigned come without gaps. -/
theorem assigned_of_history (h : s.Consistent) {events : List Event}
    (hhistory : s.History events t) :
    (events.filterMap Event.assigned?).map UInt32.toNat =
        List.range' (s.metadata.lastVersion.toNat + 1)
          (events.filterMap Event.assigned?).length ∧
      t.metadata.lastVersion.toNat =
        s.metadata.lastVersion.toNat + (events.filterMap Event.assigned?).length := by
  induction hhistory with
  | nil => exact ⟨rfl, rfl⟩
  | @cons s t u event events hevent _ ih =>
    have hnumbers := h.numbers hevent
    rcases ih (h.undergoes hevent) with ⟨hassigned, hlast⟩
    cases hversion : event.assigned? with
    | none =>
      rw [hnumbers.lastVersion_eq, hversion, Option.getD_none] at hassigned hlast
      rw [List.filterMap_cons_none hversion]
      exact ⟨hassigned, hlast⟩
    | some version =>
      have hnext := hnumbers.next version hversion
      rw [hnumbers.lastVersion_eq, hversion, Option.getD_some, hnext] at hassigned hlast
      rw [List.filterMap_cons_some hversion, List.map_cons, List.length_cons, List.range'_succ,
        hassigned, hnext, hlast]
      exact ⟨rfl, by omega⟩

theorem lastVersion_le_of_history (h : s.Consistent) {events : List Event}
    (hhistory : s.History events t) : s.metadata.lastVersion ≤ t.metadata.lastVersion := by
  rw [UInt32.le_iff_toNat_le, (h.assigned_of_history hhistory).2]
  exact Nat.le_add_right _ _

theorem pairwise_assigned (h : s.Consistent) {events : List Event}
    (hhistory : s.History events t) : (events.filterMap Event.assigned?).Pairwise (· < ·) := by
  have hrange : (List.range' (s.metadata.lastVersion.toNat + 1)
      (events.filterMap Event.assigned?).length).Pairwise (· < ·) := List.pairwise_lt_range'
  rw [← (h.assigned_of_history hhistory).1, List.pairwise_map] at hrange
  exact hrange

theorem lt_assigned (h : s.Consistent) {events : List Event} (hhistory : s.History events t)
    {version : UInt32} (hversion : version.toNat = t.metadata.lastVersion.toNat + 1) {n : UInt32}
    (hn : n ∈ s.metadata.numbers) : n < version := by
  have hle := h.valid.le_last n hn
  have hlast := h.lastVersion_le_of_history hhistory
  rw [UInt32.le_iff_toNat_le] at hle hlast
  rw [UInt32.lt_iff_toNat_lt]
  omega

theorem tryInsert_of_exhausted (h : s.Consistent) (hlast : s.metadata.lastVersion = 0xffffffff)
    (status : Status) {key : Key} (htype : key.type = s.keyType)
    (hfresh : s.hasHash key.hash = false) :
    s.tryInsert status key = .error (.badFormat "version numbers exhausted") := by
  rw [tryInsert_eq h.valid, if_neg (not_not.mpr htype), hfresh, if_neg Bool.false_ne_true]
  rw [if_pos hlast]

theorem run_addVersionWith_ne_ok (h : s.Consistent) (hlast : s.metadata.lastVersion = 0xffffffff)
    {σ : Type} (status : Status) (generate : EStateM Error σ Key) (start : σ)
    (added : UInt32 × KeySet) (rest : σ) :
    (s.addVersionWith status generate).run start ≠ .ok added rest := by
  intro hadded
  rcases exists_tryInsert_of_addVersionWith hadded with ⟨key, hkey⟩
  exact (h.tryInsert hkey).2.2.1 hlast

end Consistent

namespace Offers

variable {σ : Type} {generate : EStateM Error σ Key} {attempts : Nat} {start rest : σ} {key : Key}

theorem hasHash_eq_false (h : s.Offers generate attempts start key rest) :
    s.hasHash key.hash = false := by
  induction h with
  | fresh _ hfresh => exact hfresh
  | retry _ _ _ _ ih => exact ih

theorem run_go (h : s.Offers generate attempts start key rest) (hs : s.metadata.Valid)
    {status : Status} {e : Error} (he : s.tryInsert status key = .error e) :
    (addVersionWith.go s status generate attempts).run start = .error e rest := by
  induction h with
  | fresh hkey _ =>
    rw [addVersionWith.go, run_bind_of_ok hkey, he]
    rfl
  | @retry _ _ _ _ taken _ htaken htype hhash _ ih =>
    have hnone : s.tryInsert status taken = .ok none := by
      rw [tryInsert_eq hs, if_neg (not_not.mpr htype), if_pos hhash]
    rw [addVersionWith.go, run_bind_of_ok htaken, hnone]
    exact ih he

end Offers

theorem Reachable.numbers_never_reused (h : s.Reachable) {events : List Event}
    (hhistory : s.History events t) :
    (∀ {σ : Type} (status : Status) (generate : EStateM Error σ Key) (start rest : σ)
        (version : UInt32) (u : KeySet),
      (t.addVersionWith status generate).run start = .ok (version, u) rest →
        version.toNat = t.metadata.lastVersion.toNat + 1 ∧ u.metadata.lastVersion = version ∧
          ∀ before r after, s.History before r → r.History after t →
            ∀ n ∈ r.metadata.numbers, n < version) ∧
    (events.filterMap Event.assigned?).Pairwise (· < ·) ∧
    s.metadata.lastVersion ≤ t.metadata.lastVersion ∧
    (∀ event u, t.Undergoes event u → event.assigned? = none →
      u.metadata.lastVersion = t.metadata.lastVersion) ∧
    (t.metadata.lastVersion = 0xffffffff →
      ∀ {σ : Type} (status : Status) (generate : EStateM Error σ Key) (start : σ),
        (∀ added rest, (t.addVersionWith status generate).run start ≠ .ok added rest) ∧
        ∀ key rest, t.Offers generate t.config.maxGenerationAttempts.toNat start key rest →
          key.type = t.keyType →
            (t.addVersionWith status generate).run start =
              .error (.badFormat "version numbers exhausted") rest) ∧
    ∀ e u, t.Undergoes (.changed (.failed e)) u → u = t := by
  have hs := h.consistent
  have ht := hs.history hhistory
  refine ⟨?_, hs.pairwise_assigned hhistory, hs.lastVersion_le_of_history hhistory, ?_, ?_, ?_⟩
  . intro σ status generate start rest version u hu
    rcases ht.step_of_addVersionWith hu with ⟨key, hstep⟩
    have hnumbers := ht.numbers_of_step hstep
    have hversion := hnumbers.next version rfl
    refine ⟨hversion, hnumbers.lastVersion_eq, ?_⟩
    intro before r after hbefore hafter n hn
    exact (hs.history hbefore).lt_assigned hafter hversion hn
  . intro event u hevent hnone
    rw [(ht.numbers hevent).lastVersion_eq, hnone, Option.getD_none]
  . intro hlast σ status generate start
    refine ⟨ht.run_addVersionWith_ne_ok hlast status generate start, ?_⟩
    intro key rest hoffers htype
    apply hoffers.run_go ht.valid
    exact ht.tryInsert_of_exhausted hlast status htype hoffers.hasHash_eq_false
  . intro e u hevent
    rcases hevent with ⟨hstep⟩
    cases hstep with
    | addFailed | promoteFailed | demoteFailed | revokeFailed => rfl

/-- The sample after its newer version was revoked. -/
def shortened : KeySet where
  metadata := ⟨"sample", .signAndVerify, .hmac, 2, [⟨1, .active, false⟩]⟩
  config := {}
  keys := [(1, sampleKey 1)]
  index := [indexEntry (1, sampleKey 1)]

/-- An empty set whose numbers have all been assigned. -/
def exhausted : KeySet where
  metadata := ⟨"sample", .signAndVerify, .hmac, 0xffffffff, []⟩
  config := {}

theorem numbers_never_reused_sample :
    sample.History [.changed (.demoted 2), .changed (.demoted 2), .changed (.revoked 2), .reloaded]
        shortened ∧
      (∃ u, (shortened.addVersionWith .active
          (pure (sampleKey 3) : EStateM Error Unit Key)).run () = .ok (3, u) () ∧
        u.metadata.lastVersion = 3 ∧ ∀ n ∈ sample.metadata.numbers, n < 3) ∧
      (exhausted.addVersionWith .active (pure (sampleKey 3) : EStateM Error Unit Key)).run () =
        .error (.badFormat "version numbers exhausted") () := by
  let demoted (status : Status) : KeySet :=
    sample.relabel (fun v => if v.version = 2 then status else v.status) none
  have hactive : sample.demote 2 = .ok (demoted .active) := by decide +kernel
  have hscheduled : (demoted .active).demote 2 = .ok (demoted .scheduledForRevocation) := by
    decide +kernel
  have hrevoked : (demoted .scheduledForRevocation).revoke 2 = .ok shortened := by decide +kernel
  have hreloaded : load shortened.bundle.toSource .signer {} = .ok shortened := by decide +kernel
  have hhistory : sample.History
      [.changed (.demoted 2), .changed (.demoted 2), .changed (.revoked 2), .reloaded] shortened :=
    .cons (.call (.demote hactive)) (.cons (.call (.demote hscheduled))
      (.cons (.call (.revoke hrevoked)) (.cons (.reload hreloaded) .nil)))
  have hloaded : load exhausted.bundle.toSource .signer {} = .ok exhausted := by decide +kernel
  have hoffers : exhausted.Offers (pure (sampleKey 3) : EStateM Error Unit Key)
      exhausted.config.maxGenerationAttempts.toNat () (sampleKey 3) () := .fresh rfl rfl
  refine ⟨hhistory, ?_, ?_⟩
  . have hinsert : shortened.tryInsert .active (sampleKey 3) =
        .ok (some (3, shortened.insert .active (sampleKey 3))) := by
      decide +kernel
    have hadded := run_addVersionWith_pure (by decide) hinsert
    rcases (reachable_sample.numbers_never_reused hhistory).1 _ _ _ _ _ _ hadded with
      ⟨_, hlast, hformer⟩
    exact ⟨_, hadded, hlast, hformer [] sample _ .nil hhistory⟩
  . have hnumbers := (Reachable.load hloaded).numbers_never_reused .nil
    exact (hnumbers.2.2.2.2.1 rfl .active _ ()).2 _ _ hoffers rfl

end KeySet

end Keyring
