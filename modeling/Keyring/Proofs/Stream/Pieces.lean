import Keyring.Proofs.Stream.Setup
/-!
This module contains the proof that streams do not depend on how a message is cut into pieces. The
encryption of an AES key is that of the whole message, and its decryption refuses and returns what
it would for the whole ciphertext at once.
-/

namespace Keyring

open Cipher

namespace SignStream

theorem foldl_update (s : SignStream) (pieces : List Bytes) :
    pieces.foldl update s = s.update pieces.flatten := by
  induction pieces generalizing s with
  | nil => cases s <;> simp [update]
  | cons data pieces ih =>
    rw [List.foldl_cons, ih, List.flatten_cons]
    cases s <;> simp [update]

end SignStream

namespace VerifyStream

theorem foldl_update (s : VerifyStream) (pieces : List Bytes) :
    pieces.foldl update s = s.update pieces.flatten := by
  induction pieces generalizing s with
  | nil => cases s <;> simp [update]
  | cons data pieces ih =>
    rw [List.foldl_cons, ih, List.flatten_cons]
    cases s <;> simp [update]

end VerifyStream

inductive EncryptCall where
  | init
  | update (data : Bytes)
deriving DecidableEq

namespace EncryptCall

def data : EncryptCall → Bytes
  | .init => []
  | .update data => data

/-- What calls feed in, one after another. -/
def message (calls : List EncryptCall) : Bytes :=
  calls.flatMap data

end EncryptCall

namespace EncryptStream

def call (s : EncryptStream) : EncryptCall → EncryptStream × Bytes
  | .init => s.init
  | .update data => s.update data

/-- Makes calls one after another, each of which is returned with its output. -/
def feed (s : EncryptStream) : List EncryptCall → EncryptStream × List (EncryptCall × Bytes)
  | [] => (s, [])
  | c :: calls =>
    let (s, out) := s.call c
    let (s, outs) := s.feed calls
    (s, (c, out) :: outs)

/-- What the calls for the initial block returned. -/
def starts (outs : List (EncryptCall × Bytes)) : List Bytes :=
  (outs.filter (·.1 = .init)).map (·.2)

/-- What the calls that feed data in returned, as one. -/
def body (outs : List (EncryptCall × Bytes)) : Bytes :=
  ((outs.filter (·.1 ≠ .init)).map (·.2)).flatten

/-- The outputs of some calls for the initial block, of which the first gets it. -/
def handedOut (iv : Bytes) : Nat → List Bytes
  | 0 => []
  | n + 1 => iv :: List.replicate n []

theorem starts_cons_init (out : Bytes) (outs : List (EncryptCall × Bytes)) :
    starts ((.init, out) :: outs) = out :: starts outs := by
  simp [starts]

theorem starts_cons_update (data out : Bytes) (outs : List (EncryptCall × Bytes)) :
    starts ((.update data, out) :: outs) = starts outs := by
  simp [starts]

theorem body_cons_init (out : Bytes) (outs : List (EncryptCall × Bytes)) :
    body ((.init, out) :: outs) = body outs := by
  simp [body]

theorem body_cons_update (data out : Bytes) (outs : List (EncryptCall × Bytes)) :
    body ((.update data, out) :: outs) = out ++ body outs := by
  simp [body]

theorem starts_feed_of_taken (iv : Bytes) (cipher : Cbc.Encryptor) (calls : List EncryptCall) :
    starts ((aes iv true cipher).feed calls).2 = List.replicate (calls.count .init) [] := by
  induction calls generalizing cipher with
  | nil => rfl
  | cons c calls ih =>
    cases c with
    | init =>
      unfold feed call init
      dsimp only
      rw [starts_cons_init, ih, List.count_cons_self, List.replicate_succ]
    | update data =>
      unfold feed call update
      dsimp only
      rw [starts_cons_update, ih, List.count_cons_of_ne]
      simp

theorem starts_feed (iv : Bytes) (cipher : Cbc.Encryptor) (calls : List EncryptCall) :
    starts ((aes iv false cipher).feed calls).2 = handedOut iv (calls.count .init) := by
  induction calls generalizing cipher with
  | nil => rfl
  | cons c calls ih =>
    cases c with
    | init =>
      -- From here on the block has been handed out.
      unfold feed call init
      dsimp only
      rw [starts_cons_init, starts_feed_of_taken, List.count_cons_self, handedOut]
    | update data =>
      unfold feed call update
      dsimp only
      rw [starts_cons_update, ih, List.count_cons_of_ne]
      simp

theorem exists_feed_aes (iv : Bytes) (taken : Bool) (cipher : Cbc.Encryptor)
    (calls : List EncryptCall) :
    ∃ taken' cipher', ((aes iv taken cipher).feed calls).1 = .aes iv taken' cipher' ∧
      body ((aes iv taken cipher).feed calls).2 ++ cipher'.finish =
        cipher.rest (EncryptCall.message calls) := by
  induction calls generalizing taken cipher with
  | nil => exact ⟨taken, cipher, rfl, cipher.finish_eq_rest⟩
  | cons c calls ih =>
    cases c with
    | init =>
      rcases ih true cipher with ⟨taken', cipher', hstream, hout⟩
      have hfeed : (aes iv taken cipher).feed (.init :: calls) =
          (((aes iv true cipher).feed calls).1,
            (.init, ((aes iv taken cipher).init).2) :: ((aes iv true cipher).feed calls).2) := by
        cases taken <;> rfl
      rw [hfeed]
      refine ⟨taken', cipher', hstream, ?_⟩
      rw [body_cons_init, hout]
      rfl
    | update data =>
      rcases ih taken (cipher.update data).1 with ⟨taken', cipher', hstream, hout⟩
      refine ⟨taken', cipher', hstream, ?_⟩
      unfold feed call update
      dsimp only
      rw [body_cons_update, List.append_assoc, hout, Cbc.Encryptor.update_append_rest]
      rfl

theorem feed_rsa (key : RsaPublicKey) (fed : Bytes) (calls : List EncryptCall) :
    ((rsa key fed).feed calls).1 = .rsa key (fed ++ EncryptCall.message calls) := by
  induction calls generalizing fed with
  | nil => simp [feed, EncryptCall.message]
  | cons c calls ih =>
    cases c with
    | init => simp [feed, call, init, ih, EncryptCall.message, EncryptCall.data]
    | update data => simp [feed, call, update, ih, EncryptCall.message, EncryptCall.data]

end EncryptStream

namespace DecryptStream

/-- Feeds pieces in one after another and joins their outputs. -/
def feed (s : DecryptStream) : List Bytes → Except Error (DecryptStream × Bytes)
  | [] => .ok (s, [])
  | data :: pieces => do
    let (s, out) ← s.update data
    let (s, outs) ← s.feed pieces
    return (s, out ++ outs)

theorem update_append (s : DecryptStream) (data more : Bytes) :
    s.update (data ++ more) =
      s.update data >>= fun (s, out) => s.update more >>= fun (s, rest) => .ok (s, out ++ rest) := by
  cases s with
  | aes cipher =>
    rw [update_aes, update_aes, Cbc.Decryptor.update_append]
    cases cipher.update data with
    | error e => rfl
    | ok result =>
      rcases result with ⟨cipher, out⟩
      simp only [ok_bind, update_aes]
      cases cipher.update more with
      | error e => rfl
      | ok result => rfl
  | rsa key fed => simp [update]

theorem update_nil_of_update {s next : DecryptStream} {data out : Bytes}
    (h : s.update data = .ok (next, out)) : next.update [] = .ok (next, []) := by
  have happend := s.update_append data []
  rw [List.append_nil, h, ok_bind] at happend
  rcases bind_eq_ok_iff.mp happend.symm with ⟨⟨last, rest⟩, hnil, heq⟩
  rw [Except.ok.injEq, Prod.mk.injEq, List.append_right_eq_self] at heq
  rw [hnil, heq.1, heq.2]

theorem feed_eq_update {s : DecryptStream} (h : s.update [] = .ok (s, [])) (pieces : List Bytes) :
    s.feed pieces = s.update pieces.flatten := by
  induction pieces generalizing s with
  | nil => exact h.symm
  | cons data pieces ih =>
    rw [List.flatten_cons, update_append, feed]
    cases hdata : s.update data with
    | error e => rfl
    | ok result =>
      rcases result with ⟨next, out⟩
      rw [ok_bind, ok_bind]
      dsimp only
      rw [ih (update_nil_of_update hdata)]
      rfl

end DecryptStream

namespace AesKey

/-- The plaintext of whole blocks, with its padding. -/
def paddedPlaintext (k : AesKey) (iv data : Bytes) : Bytes :=
  (Cbc.decryptBlocks (Aes.roundKeys k.bytes) iv (Bytes.blocks 16 data)).flatten

/-- The decryption that a key starts with. -/
def decryption (k : AesKey) : DecryptStream :=
  .aes (.start k.bytes)

section

variable {k : AesKey} {next : DecryptStream} {out : Bytes}

theorem finish_decryption_of_lt {data : Bytes} (hupdate : k.decryption.update data = .ok (next, out))
    (h : data.length < 16) : next.finish = .error .shortCiphertext := by
  rw [decryption, DecryptStream.update_aes, Cbc.Decryptor.update_start_of_lt k.bytes h,
    ok_bind] at hupdate
  cases hupdate
  rfl

variable {iv data : Bytes} (hupdate : k.decryption.update (iv ++ data) = .ok (next, out))
  (hiv : iv.length = 16)

include hupdate hiv

theorem decryptReady_of_decryption :
    next = .aes (Cbc.Decryptor.decryptReady (Aes.roundKeys k.bytes) iv data).1 ∧
      out = (Cbc.Decryptor.decryptReady (Aes.roundKeys k.bytes) iv data).2 := by
  have hiv : iv.length = Aes.blockSize := hiv
  have hle : Aes.blockSize ≤ (iv ++ data).length := by
    rw [List.length_append, hiv]
    exact Nat.le_add_right _ _
  rw [decryption, DecryptStream.update_aes, Cbc.Decryptor.update_start_of_le k.size_mem hle,
    List.take_left' hiv, List.drop_left' hiv, ok_bind] at hupdate
  cases hupdate
  exact ⟨rfl, rfl⟩

theorem exists_finish_decryption_eq_error
    (h : data = [] ∨ data.length % 16 ≠ 0 ∨
      Padding.unpad? 16 (k.paddedPlaintext iv data) = none) :
    ∃ operation, next.finish = .error (.cryptoOperationFailed operation) := by
  rw [(decryptReady_of_decryption hupdate hiv).1]
  apply Cbc.Decryptor.finish_decryptReady_eq_error k.isSchedule
  . exact hiv
  . rw [Cbc.decrypt?_eq_none_iff]
    exact h

theorem exists_finish_decryption_eq_ok {message : Bytes} (hdata : data ≠ [])
    (hmod : data.length % 16 = 0)
    (h : Padding.unpad? 16 (k.paddedPlaintext iv data) = some message) :
    ∃ last, next.finish = .ok last ∧ out ++ last = message := by
  rcases decryptReady_of_decryption hupdate hiv with ⟨rfl, rfl⟩
  apply (Cbc.Decryptor.finish_decryptReady k.isSchedule hiv).mpr
  unfold Cbc.decrypt?
  rw [if_pos]
  . exact h
  . exact ⟨mt List.length_eq_zero_iff.mp hdata, hmod⟩

end

end AesKey

namespace Key

theorem exists_rsa_of_encryptStream {k : Key} {stream : EncryptStream}
    {source rest : RandomSource} (h : k.encryptStream.run source = .ok stream rest)
    (htype : k.type ≠ .aes) : ∃ key, stream = .rsa key [] := by
  cases k with
  | aes k => exact absurd rfl htype
  | rsaPrivate k =>
    cases h
    exact ⟨k.publicKey, rfl⟩
  | rsaPublic k =>
    cases h
    exact ⟨k, rfl⟩
  | hmac _ | dsaPrivate _ | dsaPublic _ => cases h

theorem feed_of_decryptStream {k : Key} {stream : DecryptStream}
    (h : k.decryptStream = .ok stream) (pieces : List Bytes) :
    stream.feed pieces = stream.update pieces.flatten := by
  apply DecryptStream.feed_eq_update
  unfold decryptStream at h
  split at h
  . cases h
    rfl
  . cases h
    rfl
  . cases h

theorem streams_ignore_pieces :
    (∀ (k : AesKey) (source rest : RandomSource) (iv : Bytes), source.draw 16 = (iv, rest) →
      ∃ stream, (Key.aes k).encryptStream.run source = .ok stream rest ∧ ∀ calls,
        EncryptStream.starts (stream.feed calls).2 =
          EncryptStream.handedOut iv (calls.count .init) ∧
        ∃ last, (∀ source, (stream.feed calls).1.finish.run source = .ok last source) ∧
          EncryptStream.body (stream.feed calls).2 ++ last =
            Cbc.encrypt k.bytes iv (EncryptCall.message calls)) ∧
    (∀ k : AesKey, ∃ stream, (Key.aes k).decryptStream = .ok stream ∧ ∀ pieces, ∃ next out,
      stream.feed pieces = .ok (next, out) ∧
      stream.feed [pieces.flatten] = .ok (next, out) ∧
      (pieces.flatten.length < 16 → next.finish = .error .shortCiphertext) ∧
      ∀ iv data, pieces.flatten = iv ++ data → iv.length = 16 →
        (data = [] ∨ data.length % 16 ≠ 0 ∨
            Padding.unpad? 16 (k.paddedPlaintext iv data) = none →
          ∃ operation, next.finish = .error (.cryptoOperationFailed operation)) ∧
        ∀ message, data ≠ [] → data.length % 16 = 0 →
          Padding.unpad? 16 (k.paddedPlaintext iv data) = some message →
          ∃ last, next.finish = .ok last ∧ out ++ last = message) ∧
    (∀ (k : Key) stream, k.signStream = .ok stream → ∀ pieces pieces' : List Bytes,
      pieces.flatten = pieces'.flatten →
        (pieces.foldl SignStream.update stream).sign =
          (pieces'.foldl SignStream.update stream).sign) ∧
    (∀ k : Key, ∃ stream, k.verifyStream = .ok stream ∧
      ∀ (pieces pieces' : List Bytes) (trailer : Bytes), pieces.flatten = pieces'.flatten →
        (pieces.foldl VerifyStream.update stream).verify trailer =
          (pieces'.foldl VerifyStream.update stream).verify trailer) ∧
    (∀ (k : Key) stream source rest, k.encryptStream.run source = .ok stream rest →
      k.type ≠ .aes → ∀ calls calls', EncryptCall.message calls = EncryptCall.message calls' →
        (stream.feed calls).1.finish = (stream.feed calls').1.finish) ∧
    (∀ (k : Key) stream, k.decryptStream = .ok stream → ∀ pieces : List Bytes,
      (∃ next out, stream.feed pieces = .ok (next, out)) ∧
      ∀ pieces' : List Bytes, pieces.flatten = pieces'.flatten →
        stream.feed pieces = stream.feed pieces') := by
  refine ⟨?_, ?_, ?_, ?_, ?_, ?_⟩
  . intro k source rest iv hdraw
    refine ⟨_, run_encryptStream_aes k hdraw, ?_⟩
    intro calls
    refine ⟨EncryptStream.starts_feed iv _ calls, ?_⟩
    rcases EncryptStream.exists_feed_aes iv false ⟨Aes.roundKeys k.bytes, iv, []⟩ calls with
      ⟨taken, cipher, hstream, hout⟩
    refine ⟨cipher.finish, ?_, hout⟩
    intro source
    rw [hstream]
    rfl
  . intro k
    have hstream : (Key.aes k).decryptStream = .ok k.decryption := rfl
    refine ⟨_, hstream, ?_⟩
    intro pieces
    rcases exists_update_of_decryptStream hstream pieces.flatten with ⟨next, out, hupdate⟩
    refine ⟨next, out, ?_, ?_, AesKey.finish_decryption_of_lt hupdate, ?_⟩
    . rw [feed_of_decryptStream hstream, hupdate]
    . rw [feed_of_decryptStream hstream, List.flatten_singleton, hupdate]
    . intro iv data hdata hiv
      rw [hdata] at hupdate
      refine ⟨AesKey.exists_finish_decryption_eq_error hupdate hiv, ?_⟩
      intro message hne hmod hplain
      exact AesKey.exists_finish_decryption_eq_ok hupdate hiv hne hmod hplain
  . intro k stream _ pieces pieces' hsame
    rw [SignStream.foldl_update, SignStream.foldl_update, hsame]
  . intro k
    refine ⟨_, k.verifyStream_eq_ok, ?_⟩
    intro pieces pieces' trailer hsame
    rw [VerifyStream.foldl_update, VerifyStream.foldl_update, hsame]
  . intro k stream source rest hstream htype calls calls' hsame
    rcases exists_rsa_of_encryptStream hstream htype with ⟨key, rfl⟩
    rw [EncryptStream.feed_rsa, EncryptStream.feed_rsa, hsame]
  . intro k stream hstream pieces
    rw [feed_of_decryptStream hstream]
    refine ⟨exists_update_of_decryptStream hstream _, ?_⟩
    intro pieces' hsame
    rw [feed_of_decryptStream hstream, hsame]

def zeroKey : AesKey where
  bytes := List.replicate 24 0
  hmac := ⟨List.replicate 20 0, by simp⟩
  size_mem := by simp

/-- A message whose first block is completed by the second of two pieces, with calls for the initial
block on both sides. -/
def brokenCalls : List EncryptCall :=
  [.update [1, 2, 3], .init, .update (List.replicate 20 4), .update [], .init]

theorem streams_ignore_pieces_zeroKey :
    ∃ encryption decryption, (Key.aes zeroKey).encryptStream.run (.cycle #[7]) =
        .ok encryption ⟨(RandomSource.cycle #[7]).byteAt, 16⟩ ∧
      EncryptStream.starts (encryption.feed brokenCalls).2 = [List.replicate 16 7, []] ∧
      (∃ last, (∀ source, (encryption.feed brokenCalls).1.finish.run source = .ok last source) ∧
        EncryptStream.body (encryption.feed brokenCalls).2 ++ last =
          Cbc.encrypt zeroKey.bytes (List.replicate 16 7) ([1, 2, 3] ++ List.replicate 20 4)) ∧
      (Key.aes zeroKey).decryptStream = .ok decryption ∧
      (∃ next out, decryption.feed [[1], List.replicate 14 0] = .ok (next, out) ∧
        next.finish = .error .shortCiphertext) ∧
      ∃ next out operation,
        decryption.feed [[1], List.replicate 14 0, [2, 3]] = .ok (next, out) ∧
          next.finish = .error (.cryptoOperationFailed operation) := by
  rcases streams_ignore_pieces with ⟨hencrypt, hdecrypt, _⟩
  rcases hencrypt zeroKey (.cycle #[7]) ⟨(RandomSource.cycle #[7]).byteAt, 16⟩
    (List.replicate 16 7) rfl with ⟨encryption, hencryption, hcalls⟩
  rcases hdecrypt zeroKey with ⟨decryption, hdecryption, hpieces⟩
  have houts := hcalls brokenCalls
  refine ⟨encryption, decryption, hencryption, houts.1, houts.2, hdecryption, ?_, ?_⟩
  . rcases hpieces [[1], List.replicate 14 0] with ⟨next, out, hfeed, _, hshort, _⟩
    exact ⟨next, out, hfeed, hshort (by decide)⟩
  . rcases hpieces [[1], List.replicate 14 0, [2, 3]] with ⟨next, out, hfeed, _, _, hbroken⟩
    rcases (hbroken (1 :: List.replicate 14 0 ++ [2]) [3] rfl rfl).1 (.inr (.inl (by decide))) with
      ⟨operation, hfinish⟩
    exact ⟨next, out, operation, hfeed, hfinish⟩

end Key

end Keyring
