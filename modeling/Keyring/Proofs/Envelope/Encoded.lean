import Keyring.Envelope.FrontEnd
import Keyring.Proofs.Outcome
import Keyring.Proofs.Text.Base64
/-!
This module contains the text forms of signatures and ciphertexts. Each byte string has one text in
an encoding, no other text is read, and so a front end accepts a text if and only if it is the text
of something that it accepts.
-/

namespace Keyring

open Text.Base64

namespace Encoding

variable {e : Encoding}

/-- What reading says to a text that no byte string is written as. -/
def Refuses (e : Encoding) (text : String) : Prop :=
  e.decode text = .error (.badFormat "Not valid base64")

theorem lawful_spelling (e : Encoding) : e.spelling.Lawful := by
  cases e with
  | webSafeBase64 => exact Spelling.lawful_webSafe
  | base64 => exact Spelling.lawful_standard

theorem decode_eq_ok_iff {text : String} {data : Bytes} :
    e.decode text = .ok data ↔ e.encode data = text := by
  unfold decode encode
  rw [← Spelling.decode?_eq_some_iff e.lawful_spelling]
  cases e.spelling.decode? text with
  | none => simp
  | some data' => simp

theorem decode_encode (data : Bytes) : e.decode (e.encode data) = .ok data := by
  rw [decode_eq_ok_iff]

theorem refuses_of_encode_ne {text : String} (h : ∀ data, e.encode data ≠ text) :
    e.Refuses text := by
  have hnone : e.spelling.decode? text = none := by
    rw [Option.eq_none_iff_forall_ne_some]
    intro data hdata
    exact h data ((Spelling.decode?_eq_some_iff e.lawful_spelling).mp hdata)
  rw [Refuses, decode, hnone]

theorem refuses_of_mem {text : String} {c : Char} (hc : c ∈ text.toList)
    (hdigit : e.spelling.digit? c = none) (hpad : c = '=' → e.spelling.padded = false) :
    e.Refuses text := by
  apply refuses_of_encode_ne
  rintro data rfl
  rw [encode, Spelling.encode, String.toList_ofList] at hc
  rcases Spelling.digit?_of_mem_encodeChars e.lawful_spelling hc with hsome | ⟨rfl, hpadded⟩
  . exact hsome hdigit
  . rw [hpad rfl] at hpadded
    simp at hpadded

theorem refuses_of_padding_ne {body : List Char} {n : Nat} (hbody : '=' ∉ body)
    (hn : n ≠ (4 - body.length % 4) % 4) :
    base64.Refuses (String.ofList (body ++ List.replicate n '=')) := by
  apply refuses_of_encode_ne
  intro data h
  exact hn (Spelling.eq_of_encode_eq Spelling.lawful_standard hbody h).2

theorem refuses_of_unused_ne {body : List Char} {c : Char} {d n : Nat} (hbody : '=' ∉ body ++ [c])
    (hc : e.spelling.digit? c = some d)
    (hd : (body.length + 1) % 4 = 2 ∧ d % 16 ≠ 0 ∨ (body.length + 1) % 4 = 3 ∧ d % 4 ≠ 0) :
    e.Refuses (String.ofList (body ++ [c] ++ List.replicate n '=')) := by
  apply refuses_of_encode_ne
  intro data h
  rcases Spelling.unused_of_encode_eq e.lawful_spelling hbody hc h with ⟨hfour, htwo⟩
  rcases hd with ⟨hlength, hne⟩ | ⟨hlength, hne⟩
  . exact hne (hfour hlength)
  . exact hne (htwo hlength)

theorem eq_of_decode_eq_ok {text : String} {data data' : Bytes}
    (h : webSafeBase64.decode text = .ok data) (h' : base64.decode text = .ok data') :
    data = data' := by
  rw [decode_eq_ok_iff] at h h'
  exact Spelling.eq_of_encode_webSafe_eq_encode_standard (h.trans h'.symm)

/-- Where an operation takes a text it works on the bytes of the text, if it has any. -/
theorem decode_bind_eq_ok_iff {α : Type} {text : String} {f : Bytes → Except Error α} {a : α} :
    (e.decode text >>= f) = .ok a ↔ ∃ data, text = e.encode data ∧ f data = .ok a := by
  simp only [bind_eq_ok_iff, decode_eq_ok_iff, eq_comm (a := text)]

end Encoding

/-- Each byte string has one text in an encoding and every other text is refused: one with padding
that is not asked for or not there, with characters of the other encoding, or with unused bits that
are set. So a front end that takes texts accepts one text for each byte string that it accepts. -/
theorem Encoding.texts_canonical :
    (∀ (e : Encoding) data, e.decode (e.encode data) = .ok data) ∧
    (∀ (e : Encoding) text data, e.decode text = .ok data → e.encode data = text) ∧
    (∀ (e : Encoding) text, (∀ data, e.encode data ≠ text) → e.Refuses text) ∧
    (∀ (text : String) c, c ∈ text.toList → c = '=' ∨ c = '+' ∨ c = '/' →
      webSafeBase64.Refuses text) ∧
    (∀ (text : String) c, c ∈ text.toList → c = '-' ∨ c = '_' → base64.Refuses text) ∧
    (∀ (body : List Char) n, '=' ∉ body → n ≠ (4 - body.length % 4) % 4 →
      base64.Refuses (String.ofList (body ++ List.replicate n '='))) ∧
    (∀ (e : Encoding) (body : List Char) c d n, '=' ∉ body ++ [c] → e.spelling.digit? c = some d →
      (body.length + 1) % 4 = 2 ∧ d % 16 ≠ 0 ∨ (body.length + 1) % 4 = 3 ∧ d % 4 ≠ 0 →
      e.Refuses (String.ofList (body ++ [c] ++ List.replicate n '='))) ∧
    (∀ text data data', webSafeBase64.decode text = .ok data → base64.decode text = .ok data' →
      data = data') ∧
    (∀ (v : Verifier) message text, v.verifyEncoded message text = .ok true ↔
      ∃ signature, text = v.keySet.config.encoding.encode signature ∧
        v.verify message signature = .ok true) ∧
    (∀ (s : Signer) message text, s.verifyEncoded message text = .ok true ↔
      ∃ signature, text = s.keySet.config.encoding.encode signature ∧
        s.verify message signature = .ok true) ∧
    (∀ (v : UnversionedVerifier) message text, v.verifyEncoded message text = .ok true ↔
      ∃ trailer, text = v.keySet.config.encoding.encode trailer ∧
        v.verify message trailer = .ok true) ∧
    (∀ (c : Crypter) message text, c.decryptEncoded text = .ok message ↔
      ∃ ciphertext, text = c.keySet.config.encoding.encode ciphertext ∧
        c.decrypt ciphertext = .ok message) := by
  refine ⟨?_, ?_, ?_, ?_, ?_, ?_, ?_, ?_, ?_, ?_, ?_, ?_⟩
  . intro e data
    exact decode_encode data
  . intro e text data
    exact decode_eq_ok_iff.mp
  . intro e text
    exact refuses_of_encode_ne
  . rintro text c hc (rfl | rfl | rfl)
    all_goals exact refuses_of_mem hc (by decide) (by decide)
  . rintro text c hc (rfl | rfl)
    all_goals exact refuses_of_mem hc (by decide) (by decide)
  . intro body n
    exact refuses_of_padding_ne
  . intro e body c d n
    exact refuses_of_unused_ne
  . intro text data data'
    exact eq_of_decode_eq_ok
  . intro v message text
    exact decode_bind_eq_ok_iff
  . intro s message text
    exact decode_bind_eq_ok_iff
  . intro v message text
    exact decode_bind_eq_ok_iff
  . intro c message text
    exact decode_bind_eq_ok_iff

theorem Encoding.texts_canonical_sample :
    webSafeBase64.decode "-_8AEA" = .ok [251, 255, 0, 16] ∧
      base64.decode "+/8AEA==" = .ok [251, 255, 0, 16] ∧
      (∀ text, base64.decode text = .ok [251, 255, 0, 16] → text = "+/8AEA==") ∧
      webSafeBase64.Refuses "-_8AEA==" ∧ webSafeBase64.Refuses "+/8AEA" ∧
      base64.Refuses "-_8AEA==" ∧ base64.Refuses "+/8AEA=" ∧ base64.Refuses "+/8AEB==" ∧
      ∀ data, base64.decode "AAAA" = .ok data → data = [0, 0, 0] := by
  rcases texts_canonical with
    ⟨hround, hunique, _, hwebSafe, hstandard, hpadding, hunused, hagree, _⟩
  have hweb : webSafeBase64.encode [251, 255, 0, 16] = "-_8AEA" := by decide +kernel
  have hstd : base64.encode [251, 255, 0, 16] = "+/8AEA==" := by decide +kernel
  have hzeros : webSafeBase64.encode [0, 0, 0] = "AAAA" := by decide +kernel
  refine ⟨?_, ?_, ?_, ?_, ?_, ?_, ?_, ?_, ?_⟩
  . exact hweb ▸ hround _ _
  . exact hstd ▸ hround _ _
  . intro text h
    rw [← hunique _ _ _ h, hstd]
  . exact hwebSafe _ '=' (by decide) (.inl rfl)
  . exact hwebSafe _ '+' (by decide) (.inr (.inl rfl))
  . exact hstandard _ '-' (by decide) (.inl rfl)
  . exact hpadding "+/8AEA".toList 1 (by decide) (by decide)
  . exact hunused _ "+/8AE".toList 'B' 1 2 (by decide) (by decide) (by decide)
  . intro data h
    exact (hagree _ _ _ (hzeros ▸ hround _ _) h).symm

end Keyring
