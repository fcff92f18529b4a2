import Keyring.Proofs.Envelope.FrontEnd
import Keyring.Proofs.Envelope.Header
/-!
This module contains what signatures of HMAC keys are. Signing makes them, and verification accepts
nothing else: neither another trailer nor a longer one.
-/

namespace Keyring

open Digest

namespace HmacKey

/-- What the trailer of a signature covers. -/
def covered (k : HmacKey) (message : Bytes) : Bytes :=
  (0 :: k.hash.bytes) ++ message

def signature (k : HmacKey) (message : Bytes) : Bytes :=
  (0 :: k.hash.bytes) ++ Hmac.mac k.bytes (k.covered message)

end HmacKey

namespace KeySet

variable {s : KeySet} {version : UInt32} {k : HmacKey}

theorem exists_hmac_of_type_eq {key : Key} (h : key.type = .hmac) : ∃ k, key = .hmac k := by
  cases key with
  | hmac k => exact ⟨k, rfl⟩
  | aes _ | rsaPrivate _ | rsaPublic _ | dsaPrivate _ | dsaPublic _ => simp [Key.type] at h

theorem sign_eq_ok (h : s.primaryKey = .ok (.hmac k)) (message : Bytes) :
    s.sign message = .ok (k.signature message) := by
  unfold sign
  rw [h, ok_bind]
  rfl

theorem verify_hmac (h : s.Consistent) (hkey : (version, .hmac k) ∈ s.keys)
    (message trailer : Bytes) :
    s.verify message ((0 :: k.hash.bytes) ++ trailer) =
      if trailer.length < 20 then
        .error .shortSignature
      else
        .ok (decide (trailer = Hmac.mac k.bytes (k.covered message))) := by
  exact h.verify_eq hkey message trailer

theorem verify_hmac_eq_true_iff (h : s.Consistent) (hkey : (version, .hmac k) ∈ s.keys)
    {message trailer : Bytes} :
    s.verify message ((0 :: k.hash.bytes) ++ trailer) = .ok true ↔
      trailer = Hmac.mac k.bytes (k.covered message) := by
  rw [verify_hmac h hkey, ite_error_eq_ok_iff, Except.ok.injEq, decide_eq_true_eq]
  constructor
  . rintro ⟨_, heq⟩
    exact heq
  . rintro rfl
    rw [Hmac.length_mac]
    exact ⟨by decide, rfl⟩

theorem verify_hmac_eq_false (h : s.Consistent) (hkey : (version, .hmac k) ∈ s.keys)
    {message trailer : Bytes} (hlength : 20 ≤ trailer.length)
    (hne : trailer ≠ Hmac.mac k.bytes (k.covered message)) :
    s.verify message ((0 :: k.hash.bytes) ++ trailer) = .ok false := by
  rw [verify_hmac h hkey, if_neg (Nat.not_lt.mpr hlength), decide_eq_false hne]

theorem verify_eq_true_iff (h : s.Consistent) (htype : s.keyType = .hmac)
    {message signature : Bytes} :
    s.verify message signature = .ok true ↔
      ∃ version k, s.keyByVersion? version = some (.hmac k) ∧ signature = k.signature message := by
  simp only [h.keyByVersion?_eq_some_iff]
  constructor
  . intro hverify
    rcases h.verify_eq_ok_iff.mp hverify with ⟨version, key, trailer, hkey, rfl, _⟩
    rcases exists_hmac_of_type_eq ((h.holds.type_eq _ hkey).trans htype) with ⟨k, rfl⟩
    refine ⟨version, k, hkey, ?_⟩
    unfold HmacKey.signature
    rw [← (verify_hmac_eq_true_iff h hkey).mp hverify]
    rfl
  . rintro ⟨version, k, hkey, rfl⟩
    exact (verify_hmac_eq_true_iff h hkey).mpr rfl

theorem exists_promote_sign (h : s.Consistent) (hkey : (version, .hmac k) ∈ s.keys) :
    ∃ s', s.promote version = .ok s' ∧ s'.purpose = s.purpose ∧
      ∀ message, s'.sign message = .ok (k.signature message) := by
  rcases h.exists_promote hkey with ⟨f, hpromote⟩
  have hprimary := (h.promote hpromote).primaryKey_eq_ok rfl hkey
  exact ⟨_, hpromote, rfl, sign_eq_ok hprimary⟩

theorem exists_sign_verify (h : s.Consistent) (htype : s.keyType = .hmac)
    (hsome : s.primary ≠ none) (message : Bytes) :
    ∃ signature, s.sign message = .ok signature ∧ s.verify message signature = .ok true := by
  rcases Option.ne_none_iff_exists'.mp hsome with ⟨version, hversion⟩
  rcases h.exists_key_of_primary hversion with ⟨key, hkey⟩
  rcases exists_hmac_of_type_eq ((h.holds.type_eq _ hkey).trans htype) with ⟨k, rfl⟩
  refine ⟨_, sign_eq_ok (h.primaryKey_eq_ok hversion hkey) message, ?_⟩
  exact (verify_hmac_eq_true_iff h hkey).mpr rfl

theorem verify_set_eq_false (h : s.Consistent) (hkey : (version, .hmac k) ∈ s.keys)
    {message : Bytes} {i : Nat} {b : UInt8} (hi : 5 ≤ i)
    (hlt : i < (k.signature message).length) (hne : (k.signature message)[i]? ≠ some b) :
    s.verify message ((k.signature message).set i b) = .ok false := by
  have hheader : (0 :: k.hash.bytes).length = 5 := Header.length_encode ⟨k.hash⟩
  unfold HmacKey.signature at *
  rw [List.length_append, hheader] at hlt
  rw [List.getElem?_append_right (hheader ▸ hi), hheader] at hne
  rw [List.set_append_right _ _ (hheader ▸ hi), hheader]
  apply verify_hmac_eq_false h hkey
  . rw [List.length_set, Hmac.length_mac]
    exact Nat.le_refl _
  . intro heq
    apply hne
    rw [← heq, List.getElem?_set_self]
    omega

theorem verify_append_eq_false (h : s.Consistent) (hkey : (version, .hmac k) ∈ s.keys)
    {message rest : Bytes} (hrest : rest ≠ []) :
    s.verify message (k.signature message ++ rest) = .ok false := by
  unfold HmacKey.signature
  rw [List.append_assoc]
  apply verify_hmac_eq_false h hkey
  . rw [List.length_append, Hmac.length_mac]
    exact Nat.le_add_right _ _
  . intro heq
    exact hrest (List.append_right_eq_self.mp heq)

theorem signer_accepts_of_hmac {purpose : Purpose} (h : purpose.accepts .hmac) :
    OperationClass.signer.accepts purpose := by
  cases purpose <;> simp_all [Purpose.accepts, OperationClass.accepts]

theorem Reachable.hmac_signatures (h : s.Reachable) (htype : s.keyType = .hmac) :
    ∃ verifier signer, s.verifier = .ok verifier ∧ s.signer = .ok signer ∧
      (∀ message signature, verifier.verify message signature = .ok true ↔
        ∃ version k, s.keyByVersion? version = some (.hmac k) ∧
          signature = k.signature message) ∧
      (∀ version k, s.keyByVersion? version = some (.hmac k) →
        (s.primary = some version →
          ∀ message, signer.sign message = .ok (k.signature message)) ∧
        ∃ s' signer', s.promote version = .ok s' ∧ s'.signer = .ok signer' ∧
          ∀ message, signer'.sign message = .ok (k.signature message)) ∧
      (s.primary ≠ none → ∀ message, ∃ signature, signer.sign message = .ok signature ∧
        verifier.verify message signature = .ok true) ∧
      (∀ message message' signature, verifier.verify message signature = .ok true →
        verifier.verify message' signature = .ok true →
        ∃ version k, s.keyByVersion? version = some (.hmac k) ∧
          signature.take 5 = 0 :: k.hash.bytes ∧
          Hmac.mac k.bytes (signature.take 5 ++ message) =
            Hmac.mac k.bytes (signature.take 5 ++ message')) ∧
      (∀ message signature, verifier.verify message signature = .ok true →
        (∀ i b, 5 ≤ i → i < signature.length → signature[i]? ≠ some b →
          verifier.verify message (signature.set i b) = .ok false) ∧
        ∀ rest, rest ≠ [] → verifier.verify message (signature ++ rest) = .ok false) := by
  have hs := h.consistent
  have hsigner : OperationClass.signer.accepts s.purpose := by
    apply signer_accepts_of_hmac
    rw [← htype]
    exact hs.valid.accepts
  have hverifier := OperationClass.verifier_accepts_of_signer hsigner
  refine ⟨_, _, verifier_eq_ok hverifier, signer_eq_ok hsigner, ?_, ?_, ?_, ?_, ?_⟩
  . intro message signature
    exact verify_eq_true_iff hs htype
  . intro version k hkey
    rw [hs.keyByVersion?_eq_some_iff] at hkey
    constructor
    . intro hprimary message
      exact sign_eq_ok (hs.primaryKey_eq_ok hprimary hkey) message
    . rcases exists_promote_sign hs hkey with ⟨s', hpromote, hpurpose, hsign⟩
      exact ⟨s', _, hpromote, signer_eq_ok (hpurpose ▸ hsigner), hsign⟩
  . intro hsome message
    exact exists_sign_verify hs htype hsome message
  . intro message message' signature hverify hverify'
    rcases (verify_eq_true_iff hs htype).mp hverify with ⟨version, k, hkey, rfl⟩
    have htake : (k.signature message).take 5 = 0 :: k.hash.bytes :=
      List.take_left' (Header.length_encode ⟨k.hash⟩)
    refine ⟨version, k, hkey, htake, ?_⟩
    rw [hs.keyByVersion?_eq_some_iff] at hkey
    rw [htake]
    exact (verify_hmac_eq_true_iff hs hkey).mp hverify'
  . intro message signature hverify
    rcases (verify_eq_true_iff hs htype).mp hverify with ⟨version, k, hkey, rfl⟩
    rw [hs.keyByVersion?_eq_some_iff] at hkey
    constructor
    . intro i b hi hlt hne
      exact verify_set_eq_false hs hkey hi hlt hne
    . intro rest hrest
      exact verify_append_eq_false hs hkey hrest

theorem hmac_signatures_sample :
    sample.Reachable ∧ sample.keyType = .hmac ∧
      ∃ verifier signer, sample.verifier = .ok verifier ∧ sample.signer = .ok signer ∧
        ∀ message, ∃ signature, signer.sign message = .ok signature ∧
          verifier.verify message signature = .ok true ∧
          ∀ rest, rest ≠ [] → verifier.verify message (signature ++ rest) = .ok false := by
  rcases Reachable.hmac_signatures reachable_sample rfl with
    ⟨verifier, signer, hverifier, hsigner, _, _, hround, _, hchanged⟩
  refine ⟨reachable_sample, rfl, verifier, signer, hverifier, hsigner, ?_⟩
  intro message
  rcases hround (by decide) message with ⟨signature, hsign, hverify⟩
  exact ⟨signature, hsign, hverify, (hchanged message signature hverify).2⟩

end KeySet

end Keyring
