import Keyring.Proofs.Bytes
import Keyring.Proofs.Number.Modular
import Keyring.Proofs.Stream.Setup
/-!
This module contains the proof that the signatures of a DSA key verify, if the public value belongs
to the private value, and that they always have the same size. A signature is two numbers that solve
one congruence, whichever nonce they come from. Both are below the order, so padding them to its
width never fails and never cuts anything off.
-/

namespace Keyring

/-- The public value is the power of the private value, and the generator has a prime order, as in
all keys that are generated. -/
structure DsaPrivateKey.Matches (k : DsaPrivateKey) : Prop where
  prime : k.publicKey.q.Prime
  order : k.publicKey.g ^ k.publicKey.q ≡ 1 [MOD k.publicKey.p]
  value : k.publicKey.y ≡ k.publicKey.g ^ k.x [MOD k.publicKey.p]

namespace Dsa

theorem NonceGenerator.of_nonce?_eq_some {q width attempts nonce inverse : Nat}
    {g : NonceGenerator} (h : g.nonce? q width attempts = some (nonce, inverse)) :
    0 < nonce ∧ nonce < q ∧ Number.inverseMod? nonce q = some inverse := by
  induction attempts generalizing g with
  | zero => cases h
  | succ attempts ih =>
    unfold nonce? at h
    dsimp only at h
    split at h
    . next hinverse =>
      split at h
      . next hnonce =>
        cases h
        exact ⟨hnonce.1, hnonce.2, hinverse⟩
      . exact ih h
    . exact ih h

namespace Signature

/-- Two numbers that sign the number `z` under a nonce. -/
structure IsSignature (k : DsaPrivateKey) (z nonce r s : Nat) : Prop where
  nonce_pos : 0 < nonce
  nonce_lt : nonce < k.publicKey.q
  r_eq : r = k.publicKey.g ^ nonce % k.publicKey.p % k.publicKey.q
  s_modEq : nonce * s ≡ z + k.x * r [MOD k.publicKey.q]
  r_pos : 0 < r
  s_pos : 0 < s
  s_lt : s < k.publicKey.q

theorem IsSignature.r_lt {k : DsaPrivateKey} {z nonce r s : Nat} (h : IsSignature k z nonce r s) :
    r < k.publicKey.q := by
  rw [h.r_eq]
  exact Nat.mod_lt _ (Nat.zero_lt_of_lt h.s_lt)

theorem exists_isSignature_of_numbers?_eq_some {k : DsaPrivateKey} {message : Bytes} {r s : Nat}
    (h : numbers? k message = some (r, s)) :
    ∃ nonce, IsSignature k (digestNumber k.publicKey.q message) nonce r s := by
  have hq : 0 < k.publicKey.q := by
    have hvalid := k.publicKey.valid
    omega
  unfold numbers? at h
  rcases Option.bind_eq_some_iff.mp h with ⟨⟨nonce, inverse⟩, hnonce, h⟩
  rcases NonceGenerator.of_nonce?_eq_some hnonce with ⟨hpos, hlt, hinverse⟩
  have hone := Number.modEq_of_inverseMod?_eq_some hq hinverse
  dsimp only at h
  rw [Number.powMod_eq] at h
  split at h
  . cases h
  . next hne =>
    rw [not_or] at hne
    cases h
    refine ⟨nonce, hpos, hlt, rfl, ?_, Nat.pos_of_ne_zero hne.1, Nat.pos_of_ne_zero hne.2,
      Nat.mod_lt _ hq⟩
    exact Number.mul_inverse_mul_modEq hone _

/-- Padding succeeds for the numbers that fit, and gives their fixed-width form. -/
theorem padInteger_eq (digits : Bytes) (width : Nat) :
    padInteger digits width =
      if Bytes.toNat digits < 256 ^ width then
        .ok (Bytes.bigEndian width (Bytes.toNat digits))
      else
        .error (.badLength "pad integer" width (Bytes.byteLength (Bytes.toNat digits))) := by
  have hlength := Bytes.byteLength_toNat (Bytes.head?_stripZeros_ne digits)
  unfold padInteger
  dsimp only
  rw [← Bytes.toNat_stripZeros digits]
  by_cases hfits : (Bytes.stripZeros digits).length ≤ width
  . have hlt := Bytes.byteLength_le_iff.mp (hlength.trans_le hfits)
    rw [if_neg (Nat.not_lt.mpr hfits), if_pos hlt, Except.ok.injEq]
    apply Bytes.toNat_inj
    . rw [List.length_append, List.length_replicate, Bytes.length_bigEndian,
        Nat.sub_add_cancel hfits]
    . rw [Bytes.toNat_zeros_append, Bytes.toNat_bigEndian_of_lt hlt]
  . have hle := mt Bytes.byteLength_le_iff.mpr (hlength ▸ hfits)
    rw [if_pos (Nat.not_le.mp hfits), if_neg hle, hlength]

theorem lt_pow_halfSize {k : DsaPublicKey} {n : Nat} (h : n < k.q) : n < 256 ^ k.halfSize :=
  h.trans (Bytes.lt_pow_byteLength _)

theorem padInteger_ofNat {k : DsaPublicKey} {n : Nat} (h : n < k.q) :
    padInteger (Bytes.ofNat n) k.halfSize = .ok (Bytes.bigEndian k.halfSize n) := by
  rw [padInteger_eq, Bytes.toNat_ofNat, if_pos (lt_pow_halfSize h)]

/-- What is sent for two numbers. -/
def trailer (k : DsaPublicKey) (r s : Nat) : Bytes :=
  Bytes.bigEndian k.halfSize r ++ Bytes.bigEndian k.halfSize s

theorem length_trailer (k : DsaPublicKey) (r s : Nat) :
    (trailer k r s).length = 2 * k.halfSize := by
  unfold trailer
  rw [List.length_append, Bytes.length_bigEndian, Bytes.length_bigEndian, two_mul]

theorem take_trailer (k : DsaPublicKey) (r s : Nat) :
    (trailer k r s).take k.halfSize = Bytes.bigEndian k.halfSize r :=
  List.take_left' (Bytes.length_bigEndian _ _)

theorem drop_trailer (k : DsaPublicKey) (r s : Nat) :
    (trailer k r s).drop k.halfSize = Bytes.bigEndian k.halfSize s :=
  List.drop_left' (Bytes.length_bigEndian _ _)

theorem toNat_half {k : DsaPublicKey} {n : Nat} (h : n < k.q) :
    Bytes.toNat (Bytes.bigEndian k.halfSize n) = n :=
  Bytes.toNat_bigEndian_of_lt (lt_pow_halfSize h)

theorem sign_eq (k : DsaPrivateKey) (message : Bytes) :
    sign k message =
      match numbers? k message with
      | some (r, s) => .ok (trailer k.publicKey r s)
      | none => .error (.cryptoOperationFailed "DSA signing") := by
  unfold sign
  cases hnumbers : numbers? k message with
  | none => rfl
  | some numbers =>
    rcases numbers with ⟨r, s⟩
    rcases exists_isSignature_of_numbers?_eq_some hnumbers with ⟨_, h⟩
    dsimp only
    rw [padInteger_ofNat h.r_lt, padInteger_ofNat h.s_lt]
    rfl

theorem exists_isSignature_of_sign_eq_ok {k : DsaPrivateKey} {message t : Bytes}
    (h : sign k message = .ok t) : ∃ nonce r s,
      IsSignature k (digestNumber k.publicKey.q message) nonce r s ∧
        t = trailer k.publicKey r s := by
  rw [sign_eq] at h
  split at h
  . next r s hnumbers =>
    cases h
    rcases exists_isSignature_of_numbers?_eq_some hnumbers with ⟨nonce, h⟩
    exact ⟨nonce, r, s, h, rfl⟩
  . cases h

theorem length_of_sign_eq_ok {k : DsaPrivateKey} {message t : Bytes} (h : sign k message = .ok t) :
    t.length = k.publicKey.signatureSize := by
  rcases exists_isSignature_of_sign_eq_ok h with ⟨_, r, s, _, rfl⟩
  exact length_trailer _ _ _

section

variable {k : DsaPrivateKey} {z nonce r s : Nat}

/-- The exponents that verification computes add up to the nonce. -/
theorem IsSignature.exponents_modEq (h : IsSignature k z nonce r s) {w : Nat}
    (hw : s * w ≡ 1 [MOD k.publicKey.q]) :
    z * w % k.publicKey.q + k.x * (r * w % k.publicKey.q) ≡ nonce [MOD k.publicKey.q] := by
  calc z * w % k.publicKey.q + k.x * (r * w % k.publicKey.q)
      ≡ z * w + k.x * (r * w) [MOD k.publicKey.q] :=
        (Nat.mod_modEq _ _).add ((Nat.mod_modEq _ _).mul_left _)
    _ = (z + k.x * r) * w := by ring
    _ ≡ nonce * s * w [MOD k.publicKey.q] := h.s_modEq.symm.mul_right w
    _ = nonce * (s * w) := mul_assoc _ _ _
    _ ≡ nonce * 1 [MOD k.publicKey.q] := hw.mul_left nonce
    _ = nonce := mul_one nonce

theorem verifyNumbers_of_isSignature (hk : k.Matches) (h : IsSignature k z nonce r s) :
    verifyNumbers k.publicKey z r s = true := by
  have hcoprime := (Nat.coprime_of_lt_prime h.s_pos.ne' h.s_lt hk.prime).symm
  rcases Number.exists_inverseMod? hcoprime with ⟨w, hinverse⟩
  have hw := Number.modEq_of_inverseMod?_eq_some hk.prime.pos hinverse
  let u₁ := z * w % k.publicKey.q
  let u₂ := r * w % k.publicKey.q
  have hpower : k.publicKey.g ^ u₁ % k.publicKey.p * (k.publicKey.y ^ u₂ % k.publicKey.p) ≡
      k.publicKey.g ^ nonce [MOD k.publicKey.p] := by
    calc k.publicKey.g ^ u₁ % k.publicKey.p * (k.publicKey.y ^ u₂ % k.publicKey.p)
        ≡ k.publicKey.g ^ u₁ * k.publicKey.y ^ u₂ [MOD k.publicKey.p] :=
          (Nat.mod_modEq _ _).mul (Nat.mod_modEq _ _)
      _ ≡ k.publicKey.g ^ u₁ * (k.publicKey.g ^ k.x) ^ u₂ [MOD k.publicKey.p] :=
          (hk.value.pow _).mul_left _
      _ = k.publicKey.g ^ (u₁ + k.x * u₂) := by rw [pow_add, pow_mul]
      _ ≡ k.publicKey.g ^ nonce [MOD k.publicKey.p] :=
          Number.pow_modEq_pow hk.order (h.exponents_modEq hw)
  unfold verifyNumbers
  rw [hinverse]
  dsimp only
  rw [decide_eq_true_iff, Number.powMod_eq, Number.powMod_eq, hpower, ← h.r_eq]

theorem verify_trailer (hk : k.Matches) {message : Bytes}
    (h : IsSignature k (digestNumber k.publicKey.q message) nonce r s) :
    verify k.publicKey message (trailer k.publicKey r s) = true := by
  unfold verify
  dsimp only
  rw [take_trailer, drop_trailer, toNat_half h.r_lt, toNat_half h.s_lt, decide_eq_true_iff]
  exact ⟨length_trailer _ _ _, h.r_pos, h.r_lt, h.s_pos, h.s_lt, verifyNumbers_of_isSignature hk h⟩

end

theorem verify_eq_false {k : DsaPublicKey} (message : Bytes) {t : Bytes}
    (h : t.length ≠ k.signatureSize ∨
      Bytes.toNat (t.take k.halfSize) = 0 ∨ k.q ≤ Bytes.toNat (t.take k.halfSize) ∨
      Bytes.toNat (t.drop k.halfSize) = 0 ∨ k.q ≤ Bytes.toNat (t.drop k.halfSize)) :
    verify k message t = false := by
  unfold verify
  dsimp only
  rw [decide_eq_false_iff_not]
  omega

end Signature

end Dsa

namespace Key

/-- What a DSA key signs has twice the width of its order, whatever zeros the two numbers start with,
and the public half accepts it. Trailers of other sizes or with numbers out of range are refused. -/
theorem dsa_signatures_verify {k : DsaPrivateKey} (hk : k.Matches) :
    (dsaPrivate k).publicHalf = .ok (dsaPublic k.publicKey) ∧
    ∃ signing verifying, (dsaPrivate k).signStream = .ok signing ∧
      (dsaPublic k.publicKey).verifyStream = .ok verifying ∧
      (∀ message t, (signing.update message).sign = .ok t →
        t.length = 2 * Bytes.byteLength k.publicKey.q ∧
        (∃ nonce r s, r < k.publicKey.q ∧
          Dsa.Signature.IsSignature k (Dsa.Signature.digestNumber k.publicKey.q message) nonce r s ∧
          t.take k.publicKey.halfSize = Bytes.bigEndian k.publicKey.halfSize r ∧
          t.drop k.publicKey.halfSize = Bytes.bigEndian k.publicKey.halfSize s) ∧
        (verifying.update message).verify t = true) ∧
      ∀ message t,
        t.length ≠ 2 * Bytes.byteLength k.publicKey.q ∨
          (∃ half ∈ [t.take k.publicKey.halfSize, t.drop k.publicKey.halfSize],
            Bytes.toNat half = 0 ∨ k.publicKey.q ≤ Bytes.toNat half) →
        (verifying.update message).verify t = false := by
  refine ⟨rfl, .dsa k [], .dsa k.publicKey [], rfl, rfl, ?_, ?_⟩
  . intro message t ht
    rcases Dsa.Signature.exists_isSignature_of_sign_eq_ok ht with ⟨nonce, r, s, h, rfl⟩
    refine ⟨Dsa.Signature.length_trailer _ _ _, ⟨nonce, r, s, h.r_lt, h, ?_, ?_⟩, ?_⟩
    . exact Dsa.Signature.take_trailer _ _ _
    . exact Dsa.Signature.drop_trailer _ _ _
    . exact Dsa.Signature.verify_trailer hk h
  . intro message t ht
    apply Dsa.Signature.verify_eq_false message
    rcases ht with hlength | ⟨half, hhalf, hrange⟩
    . exact .inl hlength
    . rcases List.mem_pair.mp hhalf with rfl | rfl
      . exact .inr (hrange.elim .inl fun hlarge => .inr (.inl hlarge))
      . exact .inr (.inr (.inr hrange))

/-- A key whose order has two bytes, so that nearly all numbers below it have a zero in front. -/
def shortDsa : DsaPrivateKey where
  publicKey := ⟨1543, 257, 64, 1377, by decide +kernel⟩
  x := 3
  valid := by decide

theorem matches_shortDsa : shortDsa.Matches where
  prime := by decide +kernel
  order := by decide +kernel
  value := by decide

theorem dsa_signatures_verify_shortDsa :
    shortDsa.Matches ∧
    ∃ signing verifying, (dsaPrivate shortDsa).signStream = .ok signing ∧
      (dsaPublic shortDsa.publicKey).verifyStream = .ok verifying ∧
      (signing.update []).sign = .ok [0, 212, 0, 171] ∧
      (verifying.update []).verify [0, 212, 0, 171] = true ∧
      (verifying.update []).verify [212, 171] = false ∧
      (verifying.update []).verify [0, 0, 0, 171] = false := by
  rcases dsa_signatures_verify matches_shortDsa with
    ⟨_, signing, verifying, hsigning, hverifying, hsign, hrefused⟩
  have ht : (signing.update []).sign = .ok [0, 212, 0, 171] := by
    cases hsigning
    decide +kernel
  refine ⟨matches_shortDsa, signing, verifying, hsigning, hverifying, ht, (hsign _ _ ht).2.2, ?_,
    ?_⟩
  . apply hrefused
    exact .inl (by decide)
  . apply hrefused
    exact .inr ⟨_, List.mem_cons_self, .inl (by decide)⟩

end Key

end Keyring
