import Keyring.Proofs.Envelope.Signature
/-!
This module contains when verification has a verdict at all, for keys of every family. Errors are
for signatures that cannot be taken apart, and a trailer of another size than its key makes is never
accepted.
-/

namespace Keyring

namespace VerifyStream

/-- The size of the only trailers that a check can accept. -/
def trailerSize : VerifyStream → Nat
  | .hmac _ => Digest.Sha1.size
  | .rsa key _ => key.size
  | .dsa key _ => key.signatureSize

theorem trailerSize_update (v : VerifyStream) (data : Bytes) :
    (v.update data).trailerSize = v.trailerSize := by
  cases v with
  | hmac _ | rsa _ _ | dsa _ _ => rfl

theorem length_of_verify {v : VerifyStream} {trailer : Bytes} (h : v.verify trailer = true) :
    trailer.length = v.trailerSize := by
  cases v with
  | hmac digest =>
    rw [verify, decide_eq_true_eq] at h
    rw [h]
    exact digest.length_finish
  | rsa key fed =>
    rw [verify, Rsa.Signature.verify, decide_eq_true_eq] at h
    exact h.1
  | dsa key fed =>
    rw [verify, Dsa.Signature.verify, decide_eq_true_eq] at h
    exact h.1

end VerifyStream

namespace Key

theorem trailerSize_verification (k : Key) : k.verification.trailerSize = k.digestSize := by
  cases k with
  | aes _ | hmac _ | rsaPrivate _ | rsaPublic _ | dsaPrivate _ | dsaPublic _ => rfl

theorem length_of_verify {k : Key} {header message trailer : Bytes}
    (h : ((k.verification.update header).update message).verify trailer = true) :
    trailer.length = k.digestSize := by
  rw [VerifyStream.length_of_verify h, VerifyStream.trailerSize_update,
    VerifyStream.trailerSize_update, trailerSize_verification]

end Key

namespace KeySet

variable {s : KeySet} {message signature : Bytes}

theorem verify_of_length_lt (h : signature.length < 5) :
    s.verify message signature = .error .shortSignature := by
  unfold verify
  rw [Header.decode_of_length_lt _ h, error_bind]

theorem verify_of_head?_ne {b : UInt8} (hlong : 5 ≤ signature.length)
    (hhead : signature.head? = some b) (hb : b ≠ 0) :
    s.verify message signature = .error (.badVersion b) := by
  unfold verify
  rw [Header.decode_of_head?_ne _ hlong hhead hb, error_bind]

namespace Consistent

theorem exists_of_verify_eq_true (h : s.Consistent)
    (hverify : s.verify message signature = .ok true) :
    ∃ version key trailer, (version, key) ∈ s.keys ∧
      signature = (Header.mk key.hash).encode ++ trailer ∧ trailer.length = key.digestSize := by
  rcases h.verify_eq_ok_iff.mp hverify with ⟨version, key, trailer, hkey, hsignature, _, hverdict⟩
  exact ⟨version, key, trailer, hkey, hsignature, Key.length_of_verify hverdict⟩

theorem verify_append_eq_false (h : s.Consistent)
    (hverify : s.verify message signature = .ok true) {rest : Bytes} (hrest : rest ≠ []) :
    s.verify message (signature ++ rest) = .ok false := by
  rcases h.exists_of_verify_eq_true hverify with ⟨version, key, trailer, hkey, rfl, hlength⟩
  have hpos := List.length_pos_of_ne_nil hrest
  have hroom : ¬(trailer ++ rest).length < key.digestSize := by
    rw [List.length_append]
    omega
  rw [List.append_assoc, h.verify_eq hkey, if_neg hroom, Except.ok.injEq, ← Bool.not_eq_true]
  intro hverdict
  have hsize := Key.length_of_verify hverdict
  rw [List.length_append] at hsize
  omega

theorem verify_of_mem (h : s.Consistent) {k : UInt32 × Key} (hk : k ∈ s.keys) {rest : Bytes}
    (hsignature : signature = (Header.mk k.2.hash).encode ++ rest) :
    (signature.length < 5 + k.2.digestSize →
      s.verify message signature = .error .shortSignature) ∧
    (5 + k.2.digestSize ≤ signature.length → s.verify message signature =
      .ok (((k.2.verification.update (signature.take 5)).update message).verify
        (signature.drop 5))) ∧
    (s.verify message signature = .ok true → signature.length = 5 + k.2.digestSize) := by
  have hheader : (Header.mk k.2.hash).encode.length = 5 := Header.length_encode ⟨k.2.hash⟩
  have hlength : signature.length = 5 + rest.length := by
    rw [hsignature, List.length_append, hheader]
  have hverify := h.verify_eq hk message rest
  rw [← hsignature] at hverify
  rw [hlength, Nat.add_lt_add_iff_left, Nat.add_le_add_iff_left, Nat.add_left_cancel_iff, hverify]
  refine ⟨?_, ?_, ?_⟩
  . intro hshort
    rw [if_pos hshort]
  . intro hroom
    rw [if_neg (Nat.not_lt.mpr hroom), hsignature, List.take_left' hheader, List.drop_left' hheader]
  . intro haccepted
    rw [ite_error_eq_ok_iff, Except.ok.injEq] at haccepted
    exact Key.length_of_verify haccepted.2

end Consistent

theorem Reachable.verify_outcomes (h : s.Reachable) (message signature : Bytes) :
    (signature.length < 5 → s.verify message signature = .error .shortSignature) ∧
    (5 ≤ signature.length → ∀ b, signature.head? = some b → b ≠ 0 →
      s.verify message signature = .error (.badVersion b)) ∧
    (5 ≤ signature.length → signature.head? = some 0 →
      ∃ hash : KeyHash, hash.bytes = (signature.drop 1).take 4 ∧
        ((∀ k ∈ s.keys, k.2.hash ≠ hash) →
          s.verify message signature = .error (.keyNotFound hash)) ∧
        ∀ k ∈ s.keys, k.2.hash = hash →
          (signature.length < 5 + k.2.digestSize →
            s.verify message signature = .error .shortSignature) ∧
          (5 + k.2.digestSize ≤ signature.length → ∃ stream, k.2.verifyStream = .ok stream ∧
            s.verify message signature =
              .ok (((stream.update (signature.take 5)).update message).verify
                (signature.drop 5))) ∧
          (s.verify message signature = .ok true →
            signature.length = 5 + k.2.digestSize)) ∧
    (s.verify message signature = .ok true → ∀ rest, rest ≠ [] →
      s.verify message (signature ++ rest) = .ok false) ∧
    (∀ verifier, s.verifier = .ok verifier →
      verifier.verify message signature = s.verify message signature) ∧
    ∀ signer, s.signer = .ok signer →
      signer.verify message signature = s.verify message signature := by
  have hs := h.consistent
  refine ⟨verify_of_length_lt, ?_, ?_, ?_, ?_, ?_⟩
  . intro hlong b hhead hb
    exact verify_of_head?_ne hlong hhead hb
  . intro hlong hhead
    rcases Header.exists_encode_append hlong hhead with ⟨⟨hash⟩, hbytes, hsignature⟩
    refine ⟨hash, hbytes, ?_, ?_⟩
    . intro hnone
      rw [hsignature]
      apply verify_of_keyByHash?_eq_none
      rw [hs.keyByHash?_eq_none_iff]
      exact hnone
    . rintro k hk rfl
      rcases hs.verify_of_mem hk hsignature with ⟨hshort, hroom, haccepted⟩
      exact ⟨hshort, fun hle => ⟨_, k.2.verifyStream_eq_ok, hroom hle⟩, haccepted⟩
  . intro hverify rest hrest
    exact hs.verify_append_eq_false hverify hrest
  . intro verifier hverifier
    rcases verifier_eq_ok_iff.mp hverifier with ⟨_, rfl⟩
    rfl
  . intro signer hsigner
    rcases signer_eq_ok_iff.mp hsigner with ⟨_, rfl⟩
    rfl

theorem verify_outcomes_sample :
    sample.Reachable ∧
      sample.verify [1] [0, 0, 0, 0] = .error .shortSignature ∧
      sample.verify [1] [7, 0, 0, 0, 0] = .error (.badVersion 7) ∧
      sample.verify [1] [0, 0, 0, 0, 0] = .error (.keyNotFound ⟨[0, 0, 0, 0], rfl⟩) ∧
      sample.verify [1] ((Header.mk (sampleKey 1).hash).encode ++ [0]) =
        .error .shortSignature ∧
      ∃ signature, sample.verify [1] signature = .ok true ∧
        sample.verify [1] (signature ++ [0]) = .ok false := by
  have houtcomes := Reachable.verify_outcomes reachable_sample [1]
  refine ⟨reachable_sample, ?_, ?_, ?_, ?_, ?_⟩
  . exact (houtcomes [0, 0, 0, 0]).1 (by decide)
  . exact (houtcomes [7, 0, 0, 0, 0]).2.1 (by decide) 7 rfl (by decide)
  . rcases (houtcomes [0, 0, 0, 0, 0]).2.2.1 (by decide) rfl with
      ⟨hash, hbytes, hmissing, _⟩
    have hhash : hash = ⟨[0, 0, 0, 0], rfl⟩ := KeyHash.bytes_inj.mp hbytes
    subst hhash
    exact hmissing (by decide +kernel)
  . rcases (houtcomes ((Header.mk (sampleKey 1).hash).encode ++ [0])).2.2.1 (by decide +kernel) rfl
      with ⟨hash, hbytes, _, hnamed⟩
    have hhash : (sampleKey 1).hash = hash := KeyHash.bytes_inj.mp (hbytes ▸ by decide +kernel)
    exact (hnamed (1, sampleKey 1) (by decide +kernel) hhash).1 (by decide +kernel)
  . rcases exists_sign_verify reachable_sample.consistent rfl (by decide) [1] with
      ⟨signature, _, hverify⟩
    exact ⟨signature, hverify, (houtcomes signature).2.2.2.1 hverify [0] (by simp)⟩

end KeySet

end Keyring
