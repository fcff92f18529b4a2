import Keyring.Envelope.FrontEnd
import Keyring.Proofs.KeySet.Effect
import Keyring.Proofs.Stream.Setup
/-!
This module contains when front ends are made: the purpose of the key set decides, and each front
end keeps the set that it was made from. No key ends the search for one that accepts a trailer
without a header before that key is reached.
-/

namespace Keyring

theorem Key.fits_eq (k : Key) (message trailer : Bytes) :
    k.fits message trailer = .ok ((k.verification.update message).verify trailer) := by
  rw [fits, k.verifyStream_eq_ok]
  rfl

theorem UnversionedVerifier.verify_eq (v : UnversionedVerifier) (message trailer : Bytes) :
    v.verify message trailer = .ok (v.keySet.keys.any fun (_, key) =>
      (key.verification.update message).verify trailer) := by
  unfold verify
  simp only [Key.fits_eq]
  exact List.anyM_pure

namespace KeySet

variable {s : KeySet}

theorem bind_accepting_eq_ok_iff {operations : OperationClass} {α : Type} {a : α}
    {make : operations.accepts s.purpose → α} :
    (s.accepting operations >>= fun p => pure (make p.down)) = .ok a ↔ ∃ h, make h = a := by
  constructor
  . intro h
    rcases bind_eq_ok_iff.mp h with ⟨⟨haccepts⟩, _, heq⟩
    exact ⟨haccepts, Except.ok.inj heq⟩
  . rintro ⟨haccepts, heq⟩
    rw [accepting_eq_ok haccepts, ok_bind, ← heq]
    rfl

theorem verifier_eq_ok_iff {f : Verifier} : s.verifier = .ok f ↔ ∃ h, Verifier.mk s h = f :=
  bind_accepting_eq_ok_iff

theorem signer_eq_ok_iff {f : Signer} : s.signer = .ok f ↔ ∃ h, Signer.mk s h = f :=
  bind_accepting_eq_ok_iff

theorem unversionedVerifier_eq_ok_iff {f : UnversionedVerifier} :
    s.unversionedVerifier = .ok f ↔ ∃ h, UnversionedVerifier.mk s h = f :=
  bind_accepting_eq_ok_iff

theorem unversionedSigner_eq_ok_iff {f : UnversionedSigner} :
    s.unversionedSigner = .ok f ↔ ∃ h, UnversionedSigner.mk s h = f :=
  bind_accepting_eq_ok_iff

theorem encrypter_eq_ok_iff {f : Encrypter} : s.encrypter = .ok f ↔ ∃ h, Encrypter.mk s h = f :=
  bind_accepting_eq_ok_iff

theorem crypter_eq_ok_iff {f : Crypter} : s.crypter = .ok f ↔ ∃ h, Crypter.mk s h = f :=
  bind_accepting_eq_ok_iff

theorem verifier_eq_ok (h : OperationClass.verifier.accepts s.purpose) :
    s.verifier = .ok ⟨s, h⟩ := by
  rw [verifier_eq_ok_iff]
  exact ⟨h, rfl⟩

theorem unversionedVerifier_eq_ok (h : OperationClass.verifier.accepts s.purpose) :
    s.unversionedVerifier = .ok ⟨s, h⟩ := by
  rw [unversionedVerifier_eq_ok_iff]
  exact ⟨h, rfl⟩

theorem signer_eq_ok (h : OperationClass.signer.accepts s.purpose) : s.signer = .ok ⟨s, h⟩ := by
  rw [signer_eq_ok_iff]
  exact ⟨h, rfl⟩

theorem unversionedSigner_eq_ok (h : OperationClass.signer.accepts s.purpose) :
    s.unversionedSigner = .ok ⟨s, h⟩ := by
  rw [unversionedSigner_eq_ok_iff]
  exact ⟨h, rfl⟩

theorem encrypter_eq_ok (h : OperationClass.encrypter.accepts s.purpose) :
    s.encrypter = .ok ⟨s, h⟩ := by
  rw [encrypter_eq_ok_iff]
  exact ⟨h, rfl⟩

theorem crypter_eq_ok (h : OperationClass.crypter.accepts s.purpose) : s.crypter = .ok ⟨s, h⟩ := by
  rw [crypter_eq_ok_iff]
  exact ⟨h, rfl⟩

theorem keySet_of_crypter_eq_ok {crypter : Crypter} (h : s.crypter = .ok crypter) :
    crypter.keySet = s := by
  rcases crypter_eq_ok_iff.mp h with ⟨_, rfl⟩
  rfl

end KeySet

end Keyring
