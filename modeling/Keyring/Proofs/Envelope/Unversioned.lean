import Keyring.Proofs.Envelope.Verdict
import Keyring.Proofs.KeySet.Rotation
/-!
This module contains what trailers without headers are worth. They name no key, so every key of a
set is tried in turn, and what counts is whether any of them accepts: neither their order nor their
statuses matter, and no key stops the search before one that accepts is reached.
-/

namespace Keyring

open Digest

namespace Key

theorem length_of_verify_message {k : Key} {message trailer : Bytes}
    (h : (k.verification.update message).verify trailer = true) :
    trailer.length = k.digestSize := by
  rw [VerifyStream.length_of_verify h, VerifyStream.trailerSize_update, trailerSize_verification]

end Key

namespace KeySet

variable {s : KeySet} {v : UnversionedVerifier}

theorem keySet_of_unversionedVerifier_eq_ok (h : s.unversionedVerifier = .ok v) : v.keySet = s := by
  rcases unversionedVerifier_eq_ok_iff.mp h with ⟨_, rfl⟩
  rfl

theorem unversionedSign_eq {signer : UnversionedSigner} (h : s.unversionedSigner = .ok signer)
    (message : Bytes) :
    signer.sign message = s.primaryKey >>= fun key =>
      key.signStream >>= fun stream => (stream.update message).sign := by
  rcases unversionedSigner_eq_ok_iff.mp h with ⟨_, rfl⟩
  rfl

namespace Consistent

theorem unversionedVerify_eq_true_iff (h : s.Consistent) (hv : s.unversionedVerifier = .ok v)
    {message trailer : Bytes} :
    v.verify message trailer = .ok true ↔ ∃ version key, s.keyByVersion? version = some key ∧
      (key.verification.update message).verify trailer = true := by
  rw [v.verify_eq, keySet_of_unversionedVerifier_eq_ok hv, Except.ok.injEq, List.any_eq_true]
  simp only [h.keyByVersion?_eq_some_iff, Prod.exists]

theorem exists_hmac_of_keyByVersion? (h : s.Consistent) (htype : s.keyType = .hmac)
    {version : UInt32} {key : Key} (hkey : s.keyByVersion? version = some key) :
    ∃ k, key = .hmac k := by
  rw [h.keyByVersion?_eq_some_iff] at hkey
  apply exists_hmac_of_type_eq
  exact (h.holds.type_eq _ hkey).trans htype

theorem unversionedVerify_hmac_eq_true_iff (h : s.Consistent) (htype : s.keyType = .hmac)
    (hv : s.unversionedVerifier = .ok v) {message trailer : Bytes} :
    v.verify message trailer = .ok true ↔ ∃ version k, s.keyByVersion? version = some (.hmac k) ∧
      trailer = Hmac.mac k.bytes message := by
  rw [h.unversionedVerify_eq_true_iff hv]
  constructor
  . rintro ⟨version, key, hkey, hverdict⟩
    rcases h.exists_hmac_of_keyByVersion? htype hkey with ⟨k, rfl⟩
    exact ⟨version, k, hkey, of_decide_eq_true hverdict⟩
  . rintro ⟨version, k, hkey, htrailer⟩
    exact ⟨version, _, hkey, decide_eq_true htrailer⟩

theorem unversionedVerify_congr (h : s.Consistent) (hv : s.unversionedVerifier = .ok v)
    {s' : KeySet} {v' : UnversionedVerifier} (h' : s'.Consistent)
    (hv' : s'.unversionedVerifier = .ok v')
    (hkeys : ∀ key, (∃ version, s'.keyByVersion? version = some key) ↔
      ∃ version, s.keyByVersion? version = some key) (message trailer : Bytes) :
    v'.verify message trailer = v.verify message trailer := by
  have hiff : v'.verify message trailer = .ok true ↔ v.verify message trailer = .ok true := by
    rw [h'.unversionedVerify_eq_true_iff hv', h.unversionedVerify_eq_true_iff hv]
    rw [exists_comm, exists_comm (α := UInt32)]
    simp only [exists_and_right, hkeys]
  rw [v'.verify_eq, v.verify_eq, Except.ok.injEq, Except.ok.injEq] at hiff
  rw [v'.verify_eq, v.verify_eq, Bool.eq_iff_iff.mpr hiff]

theorem exists_unversionedSign (h : s.Consistent) (htype : s.keyType = .hmac)
    {signer : UnversionedSigner} (hsigner : s.unversionedSigner = .ok signer) {version : UInt32}
    (hprimary : s.primary = some version) :
    ∃ k, s.keyByVersion? version = some (.hmac k) ∧
      ∀ message, signer.sign message = .ok (Hmac.mac k.bytes message) := by
  rcases h.exists_key_of_primary hprimary with ⟨key, hkey⟩
  rcases exists_hmac_of_type_eq ((h.holds.type_eq _ hkey).trans htype) with ⟨k, rfl⟩
  refine ⟨k, h.keyByVersion?_eq_some_iff.mpr hkey, ?_⟩
  intro message
  rw [unversionedSign_eq hsigner, h.primaryKey_eq_ok hprimary hkey]
  rfl

theorem exists_primary_of_unversionedSign {signer : UnversionedSigner}
    (hsigner : s.unversionedSigner = .ok signer) {message trailer : Bytes}
    (hsign : signer.sign message = .ok trailer) : ∃ version, s.primary = some version := by
  rw [unversionedSign_eq hsigner, bind_eq_ok_iff] at hsign
  rcases hsign with ⟨key, hkey, _⟩
  apply Option.ne_none_iff_exists'.mp
  intro hnone
  unfold primaryKey at hkey
  rw [hnone] at hkey
  simp at hkey

theorem unversionedVerify_of_run (h : s.Consistent) {version : UInt32} {k : HmacKey}
    (hkey : s.keyByVersion? version = some (.hmac k))
    (haccepts : OperationClass.verifier.accepts s.purpose) {changes : List Change} {s' : KeySet}
    (hrun : s.Run changes s') (hkept : .revoked version ∉ changes) (message : Bytes) :
    ∃ v', s'.unversionedVerifier = .ok v' ∧
      v'.verify message (Hmac.mac k.bytes message) = .ok true := by
  have hpurpose := (h.use_of_run hrun).2
  have haccepts' : OperationClass.verifier.accepts s'.purpose := by
    rw [hpurpose]
    exact haccepts
  have hv' := unversionedVerifier_eq_ok haccepts'
  rw [h.keyByVersion?_eq_some_iff] at hkey
  have hmem := h.mem_keys_of_run hrun hkey hkept
  refine ⟨_, hv', ((h.run hrun).unversionedVerify_eq_true_iff hv').mpr ?_⟩
  refine ⟨version, .hmac k, (h.run hrun).keyByVersion?_eq_some_iff.mpr hmem, ?_⟩
  exact decide_eq_true rfl

end Consistent

theorem Reachable.unversioned_verdicts (h : s.Reachable) {versioned : Verifier}
    (hversioned : s.verifier = .ok versioned) :
    ∃ v, s.unversionedVerifier = .ok v ∧
      (∀ message trailer,
        (∃ verdict, v.verify message trailer = .ok verdict) ∧
        (v.verify message trailer = .ok true ↔ ∃ version key stream,
          s.keyByVersion? version = some key ∧ key.verifyStream = .ok stream ∧
            (stream.update message).verify trailer = true) ∧
        (v.verify message trailer = .ok true → ∃ version key, s.keyByVersion? version = some key ∧
          trailer.length = key.digestSize)) ∧
      (∀ (s' : KeySet) (v' : UnversionedVerifier), s'.Reachable → s'.unversionedVerifier = .ok v' →
        (∀ key, (∃ version, s'.keyByVersion? version = some key) ↔
          ∃ version, s.keyByVersion? version = some key) →
        ∀ message trailer, v'.verify message trailer = v.verify message trailer) ∧
      (s.keyType = .hmac →
        (∀ message trailer, v.verify message trailer = .ok true ↔
          ∃ version k, s.keyByVersion? version = some (.hmac k) ∧
            trailer = Hmac.mac k.bytes message) ∧
        ∃ signer, s.unversionedSigner = .ok signer ∧
          (s.primary ≠ none → ∀ message, ∃ trailer, signer.sign message = .ok trailer) ∧
          ∀ message trailer, signer.sign message = .ok trailer →
            v.verify message trailer = .ok true ∧
            ∃ version, s.primary = some version ∧
              ∀ changes s', s.Run changes s' → .revoked version ∉ changes →
                ∃ v', s'.unversionedVerifier = .ok v' ∧ v'.verify message trailer = .ok true) := by
  have hs := h.consistent
  rcases verifier_eq_ok_iff.mp hversioned with ⟨haccepts, _⟩
  have hv := unversionedVerifier_eq_ok haccepts
  refine ⟨_, hv, ?_, ?_, ?_⟩
  . intro message trailer
    refine ⟨⟨_, UnversionedVerifier.verify_eq _ _ _⟩, ?_, ?_⟩
    . rw [hs.unversionedVerify_eq_true_iff hv]
      simp only [Key.verifyStream_eq_ok, Except.ok.injEq, exists_and_left, exists_eq_left']
    intro hverify
    rcases (hs.unversionedVerify_eq_true_iff hv).mp hverify with ⟨version, key, hkey, hverdict⟩
    exact ⟨version, key, hkey, Key.length_of_verify_message hverdict⟩
  . intro s' v' h' hv' hkeys message trailer
    exact hs.unversionedVerify_congr hv h'.consistent hv' hkeys message trailer
  . intro htype
    have hsigner : OperationClass.signer.accepts s.purpose := by
      apply signer_accepts_of_hmac
      rw [← htype]
      exact hs.valid.accepts
    have hsigner := unversionedSigner_eq_ok hsigner
    refine ⟨?_, _, hsigner, ?_, ?_⟩
    . intro message trailer
      exact hs.unversionedVerify_hmac_eq_true_iff htype hv
    . intro hsome message
      rcases Option.ne_none_iff_exists'.mp hsome with ⟨version, hprimary⟩
      rcases hs.exists_unversionedSign htype hsigner hprimary with ⟨k, _, hsign⟩
      exact ⟨_, hsign message⟩
    . intro message trailer hsign
      rcases Consistent.exists_primary_of_unversionedSign hsigner hsign with ⟨version, hprimary⟩
      rcases hs.exists_unversionedSign htype hsigner hprimary with ⟨k, hkey, hmac⟩
      rw [hmac, Except.ok.injEq] at hsign
      subst hsign
      refine ⟨(hs.unversionedVerify_hmac_eq_true_iff htype hv).mpr ⟨version, k, hkey, rfl⟩,
        version, hprimary, ?_⟩
      intro changes s' hrun hkept
      exact hs.unversionedVerify_of_run hkey haccepts hrun hkept message

theorem unversioned_verdicts_sample :
    sample.Reachable ∧ (∃ versioned, sample.verifier = .ok versioned) ∧
      ∃ v, sample.unversionedVerifier = .ok v ∧
        v.verify [7] (Hmac.mac (List.replicate 20 1) [7]) = .ok true ∧
        ∃ signer trailer s' v', sample.unversionedSigner = .ok signer ∧
          signer.sign [7] = .ok trailer ∧ sample.Run [.demoted 2] s' ∧
          s'.unversionedVerifier = .ok v' ∧ v'.verify [7] trailer = .ok true := by
  have hversioned : sample.verifier = .ok ⟨sample, rfl⟩ := rfl
  rcases Reachable.unversioned_verdicts reachable_sample hversioned with
    ⟨v, hv, _, _, hhmac⟩
  rcases hhmac rfl with ⟨haccepts, signer, hsigner, hsigns, hstays⟩
  have hformer : sample.keyByVersion? 1 = some (.hmac ⟨List.replicate 20 1, by simp⟩) := by
    decide +kernel
  have hdemote : sample.demote 2 = .ok (sample.relabel (fun _ => .active) none) := by
    decide +kernel
  have hrun : sample.Run [.demoted 2] (sample.relabel (fun _ => .active) none) :=
    .cons (.demote hdemote) .nil
  rcases hsigns (by decide) [7] with ⟨trailer, htrailer⟩
  rcases hstays [7] trailer htrailer with ⟨_, version, _, hkept⟩
  rcases hkept _ _ hrun (by simp) with ⟨v', hv', hverify⟩
  refine ⟨reachable_sample, ⟨_, hversioned⟩, v, hv, ?_, signer, trailer, _, v', hsigner, htrailer,
    hrun, hv', hverify⟩
  exact (haccepts _ _).mpr ⟨1, _, hformer, rfl⟩

end KeySet

end Keyring
