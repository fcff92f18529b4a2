import Keyring.Text.Base64
/-!
This module contains the laws of base 64. Reading accepts what writing produces and nothing else, in
both spellings. A text is the digits of its bytes, six bits each, and the padding that their number
asks for, and where both spellings accept a text they agree on its bytes.
-/

namespace Keyring.Text.Base64

/-- The digits of a byte string, whose unused bits at the end are zero. -/
def sextets : Bytes → List Nat
  | [] => []
  | [a] =>
    let n := a.toNat * 16
    [n / 64, n % 64]
  | [a, b] =>
    let n := (a.toNat * 256 + b.toNat) * 4
    [n / 4096, n / 64 % 64, n % 64]
  | a :: b :: c :: rest =>
    let n := (a.toNat * 256 + b.toNat) * 256 + c.toNat
    n / 262144 :: n / 4096 % 64 :: n / 64 % 64 :: n % 64 :: sextets rest

theorem lt_of_mem_sextets {bs : Bytes} : ∀ d ∈ sextets bs, d < 64 := by
  fun_induction sextets bs with
  | case1 => simp
  | case2 a n =>
    have ha := a.toNat_lt
    simp only [List.forall_mem_cons, List.not_mem_nil, false_implies, implies_true, and_true]
    omega
  | case3 a b n =>
    have ha := a.toNat_lt
    have hb := b.toNat_lt
    simp only [List.forall_mem_cons, List.not_mem_nil, false_implies, implies_true, and_true]
    omega
  | case4 a b c rest n ih =>
    have ha := a.toNat_lt
    have hb := b.toNat_lt
    have hc := c.toNat_lt
    simp only [List.forall_mem_cons]
    refine ⟨?_, ?_, ?_, ?_, ih⟩
    all_goals omega

theorem length_sextets (bs : Bytes) : (sextets bs).length = (4 * bs.length + 2) / 3 := by
  fun_induction sextets bs with
  | case1 => rfl
  | case2 => simp
  | case3 => simp
  | case4 a b c rest n ih =>
    simp only [List.length_cons, ih]
    omega

/-- Four bits of a last digit are unused behind one byte, and two behind two. -/
theorem unused_getLast_sextets {bs : Bytes} {d : Nat} (h : (sextets bs).getLast? = some d) :
    ((sextets bs).length % 4 = 2 → d % 16 = 0) ∧ ((sextets bs).length % 4 = 3 → d % 4 = 0) := by
  fun_induction sextets bs with
  | case1 => simp at h
  | case2 a n =>
    simp only [List.getLast?_cons_cons, List.getLast?_singleton, Option.some.injEq] at h
    simp only [List.length_cons, List.length_nil]
    omega
  | case3 a b n =>
    simp only [List.getLast?_cons_cons, List.getLast?_singleton, Option.some.injEq] at h
    simp only [List.length_cons, List.length_nil]
    omega
  | case4 a b c rest n ih =>
    simp only [List.length_cons]
    cases hrest : sextets rest with
    | nil =>
      simp
    | cons e ds =>
      rw [hrest] at h ih
      simp only [List.getLast?_cons_cons] at h
      have := ih h
      simp only [List.length_cons] at this ⊢
      omega

namespace Spelling

variable {sp : Spelling} {d₁ d₂ d₃ d₄ : Nat}

theorem oneByte?_eq_some_iff (h₁ : d₁ < 64) (h₂ : d₂ < 64) {bs : Bytes} :
    oneByte? d₁ d₂ = some bs ↔ ∃ a, bs = [a] ∧ sextets [a] = [d₁, d₂] := by
  simp only [oneByte?, sextets, List.cons.injEq, and_true]
  constructor
  . intro h
    split at h
    . rw [Option.some.injEq] at h
      refine ⟨_, h.symm, ?_⟩
      rw [UInt8.toNat_ofNat']
      omega
    . simp at h
  . rintro ⟨a, rfl, ha₁, ha₂⟩
    have ha := a.toNat_lt
    have hbyte : d₁ * 4 + d₂ / 16 = a.toNat := by omega
    rw [if_pos (by omega), hbyte, UInt8.ofNat_toNat]

theorem twoBytes?_eq_some_iff (h₁ : d₁ < 64) (h₂ : d₂ < 64) (h₃ : d₃ < 64) {bs : Bytes} :
    twoBytes? d₁ d₂ d₃ = some bs ↔ ∃ a b, bs = [a, b] ∧ sextets [a, b] = [d₁, d₂, d₃] := by
  simp only [twoBytes?, sextets, List.cons.injEq, and_true]
  constructor
  . intro h
    split at h
    . rw [Option.some.injEq] at h
      refine ⟨_, _, h.symm, ?_⟩
      rw [UInt8.toNat_ofNat', UInt8.toNat_ofNat']
      omega
    . simp at h
  . rintro ⟨a, b, rfl, hab₁, hab₂, hab₃⟩
    have ha := a.toNat_lt
    have hb := b.toNat_lt
    have hfirst : d₁ * 4 + d₂ / 16 = a.toNat := by omega
    have hsecond : UInt8.ofNat (d₂ * 16 + d₃ / 4) = b := by
      apply UInt8.toNat_inj.mp
      rw [UInt8.toNat_ofNat']
      omega
    rw [if_pos (by omega), hfirst, hsecond, UInt8.ofNat_toNat]

theorem threeBytes_eq_iff (h₁ : d₁ < 64) (h₂ : d₂ < 64) (h₃ : d₃ < 64) (h₄ : d₄ < 64)
    {a b c : UInt8} :
    threeBytes d₁ d₂ d₃ d₄ = [a, b, c] ↔ sextets [a, b, c] = [d₁, d₂, d₃, d₄] := by
  have ha := a.toNat_lt
  have hb := b.toNat_lt
  have hc := c.toNat_lt
  simp only [threeBytes, sextets, List.cons.injEq, and_true, ← UInt8.toNat_inj,
    UInt8.toNat_ofNat']
  omega

/-- A text is digits and then padding. -/
theorem encodeChars_eq (bs : Bytes) :
    sp.encodeChars bs =
      (sextets bs).map sp.charOf ++ sp.padding ((3 - bs.length % 3) % 3) := by
  have hnone : sp.padding 0 = [] := by simp [padding]
  fun_induction sp.encodeChars bs with
  | case1 => exact hnone.symm
  | case2 => rfl
  | case3 => rfl
  | case4 a b c rest n ih =>
    have hlength : (a :: b :: c :: rest).length % 3 = rest.length % 3 := by
      simp only [List.length_cons]
      omega
    rw [ih, hlength]
    rfl

/-- A spelling whose digits can be told from each other and from padding. -/
structure Lawful (sp : Spelling) : Prop where
  digit?_charOf : ∀ d < 64, sp.digit? (sp.charOf d) = some d
  digit?_pad : sp.digit? '=' = none

theorem lawful_standard : standard.Lawful := by
  constructor
  . decide
  . decide

theorem lawful_webSafe : webSafe.Lawful := by
  constructor
  . decide
  . decide

theorem of_digit?_eq_some {c : Char} {d : Nat} (h : sp.digit? c = some d) :
    d < 64 ∧ sp.charOf d = c := by
  have hofNat : ∀ {n : Nat}, n = c.toNat → Char.ofNat n = c := by
    rintro _ rfl
    exact c.ofNat_toNat
  have hA : 'A'.toNat = 65 := rfl
  have ha : 'a'.toNat = 97 := rfl
  have h0 : '0'.toNat = 48 := rfl
  unfold digit? at h
  unfold charOf
  split at h
  . next hupper =>
    have hle : 65 ≤ c.toNat := hupper.1
    have hge : c.toNat ≤ 90 := hupper.2
    rw [Option.some.injEq] at h
    refine ⟨by omega, ?_⟩
    rw [if_pos (by omega)]
    exact hofNat (by omega)
  split at h
  . next hlower =>
    have hle : 97 ≤ c.toNat := hlower.1
    have hge : c.toNat ≤ 122 := hlower.2
    rw [Option.some.injEq] at h
    refine ⟨by omega, ?_⟩
    rw [if_neg (by omega), if_pos (by omega)]
    exact hofNat (by omega)
  split at h
  . next hdecimal =>
    have hle : 48 ≤ c.toNat := hdecimal.1
    have hge : c.toNat ≤ 57 := hdecimal.2
    rw [Option.some.injEq] at h
    refine ⟨by omega, ?_⟩
    rw [if_neg (by omega), if_neg (by omega), if_pos (by omega)]
    exact hofNat (by omega)
  split at h
  . next hplus =>
    rw [Option.some.injEq] at h
    subst h
    exact ⟨by decide, hplus.symm⟩
  split at h
  . next hslash =>
    rw [Option.some.injEq] at h
    subst h
    exact ⟨by decide, hslash.symm⟩
  . simp at h

theorem decodeChars?_one {c₁ c₂ : Char} (h₁ : sp.digit? c₁ = some d₁)
    (h₂ : sp.digit? c₂ = some d₂) :
    sp.decodeChars? (c₁ :: c₂ :: sp.padding 2) = oneByte? d₁ d₂ := by
  unfold padding
  cases hpadded : sp.padded with
  | false => simp [decodeChars?, hpadded, h₁, h₂]
  | true => simp [decodeChars?, hpadded, h₁, h₂]

theorem encodeChars_of_oneByte? {c₁ c₂ : Char} {bs : Bytes}
    (h : (do oneByte? (← sp.digit? c₁) (← sp.digit? c₂)) = some bs) :
    sp.encodeChars bs = c₁ :: c₂ :: sp.padding 2 := by
  simp only [Option.bind_eq_bind, Option.bind_eq_some_iff] at h
  rcases h with ⟨d₁, h₁, d₂, h₂, h⟩
  rcases of_digit?_eq_some h₁ with ⟨hlt₁, rfl⟩
  rcases of_digit?_eq_some h₂ with ⟨hlt₂, rfl⟩
  rcases (oneByte?_eq_some_iff hlt₁ hlt₂).mp h with ⟨a, rfl, hsextets⟩
  rw [encodeChars_eq, hsextets]
  rfl

theorem encodeChars_of_twoBytes? {c₁ c₂ c₃ : Char} {bs : Bytes}
    (h : (do twoBytes? (← sp.digit? c₁) (← sp.digit? c₂) (← sp.digit? c₃)) = some bs) :
    sp.encodeChars bs = c₁ :: c₂ :: c₃ :: sp.padding 1 := by
  simp only [Option.bind_eq_bind, Option.bind_eq_some_iff] at h
  rcases h with ⟨d₁, h₁, d₂, h₂, d₃, h₃, h⟩
  rcases of_digit?_eq_some h₁ with ⟨hlt₁, rfl⟩
  rcases of_digit?_eq_some h₂ with ⟨hlt₂, rfl⟩
  rcases of_digit?_eq_some h₃ with ⟨hlt₃, rfl⟩
  rcases (twoBytes?_eq_some_iff hlt₁ hlt₂ hlt₃).mp h with ⟨a, b, rfl, hsextets⟩
  rw [encodeChars_eq, hsextets]
  rfl

theorem encodeChars_cons_cons_cons {a b c : UInt8} (h : sextets [a, b, c] = [d₁, d₂, d₃, d₄])
    (rest : Bytes) :
    sp.encodeChars (a :: b :: c :: rest) =
      sp.charOf d₁ :: sp.charOf d₂ :: sp.charOf d₃ :: sp.charOf d₄ :: sp.encodeChars rest := by
  simp only [sextets, List.cons.injEq, and_true] at h
  rcases h with ⟨rfl, rfl, rfl, rfl⟩
  rfl

theorem encodeChars_of_decodeChars?_eq_some {cs : List Char} {bs : Bytes}
    (h : sp.decodeChars? cs = some bs) : sp.encodeChars bs = cs := by
  fun_induction sp.decodeChars? cs generalizing bs with
  | case1 =>
    cases h
    rfl
  | case2 | case3 | case5 => simp at h
  | case4 =>
    rw [encodeChars_of_oneByte? h, padding, if_neg (by assumption)]
  | case6 =>
    rw [encodeChars_of_twoBytes? h, padding, if_neg (by assumption)]
  | case7 c₁ c₂ c₄ rest hlast =>
    rcases hlast with ⟨hpadded, rfl, rfl⟩
    rw [encodeChars_of_oneByte? h, padding, if_pos hpadded]
    rfl
  | case8 c₁ c₂ c₃ c₄ rest hlast =>
    rcases hlast with ⟨hpadded, rfl, rfl⟩
    rw [encodeChars_of_twoBytes? h, padding, if_pos hpadded]
    rfl
  | case9 c₁ c₂ c₃ c₄ rest hlast ih =>
    simp only [Option.bind_eq_bind, Option.bind_eq_some_iff, Option.pure_def,
      Option.some.injEq] at h
    rcases h with ⟨d₁, h₁, d₂, h₂, d₃, h₃, d₄, h₄, bs', hbs', rfl⟩
    rcases of_digit?_eq_some h₁ with ⟨hlt₁, rfl⟩
    rcases of_digit?_eq_some h₂ with ⟨hlt₂, rfl⟩
    rcases of_digit?_eq_some h₃ with ⟨hlt₃, rfl⟩
    rcases of_digit?_eq_some h₄ with ⟨hlt₄, rfl⟩
    have hsextets := (threeBytes_eq_iff hlt₁ hlt₂ hlt₃ hlt₄).mp rfl
    rw [threeBytes, List.cons_append, List.cons_append, List.cons_append, List.nil_append,
      encodeChars_cons_cons_cons hsextets, ih hbs']

namespace Lawful

variable (hsp : sp.Lawful)
include hsp

theorem charOf_ne_pad {d : Nat} (hd : d < 64) : sp.charOf d ≠ '=' := by
  intro hpad
  have hdigit := hsp.digit?_charOf d hd
  rw [hpad, hsp.digit?_pad] at hdigit
  simp at hdigit

theorem decodeChars?_two {c₁ c₂ c₃ : Char} (h₁ : sp.digit? c₁ = some d₁)
    (h₂ : sp.digit? c₂ = some d₂) (h₃ : sp.digit? c₃ = some d₃) :
    sp.decodeChars? (c₁ :: c₂ :: c₃ :: sp.padding 1) = twoBytes? d₁ d₂ d₃ := by
  have hpad : c₃ ≠ '=' := by
    rintro rfl
    simp [hsp.digit?_pad] at h₃
  unfold padding
  cases hpadded : sp.padded with
  | false => simp [decodeChars?, hpadded, h₁, h₂, h₃]
  | true => simp [decodeChars?, hpadded, hpad, h₁, h₂, h₃]

theorem decodeChars?_three {c₁ c₂ c₃ c₄ : Char} (h₁ : sp.digit? c₁ = some d₁)
    (h₂ : sp.digit? c₂ = some d₂) (h₃ : sp.digit? c₃ = some d₃) (h₄ : sp.digit? c₄ = some d₄)
    (rest : List Char) :
    sp.decodeChars? (c₁ :: c₂ :: c₃ :: c₄ :: rest) =
      (sp.decodeChars? rest).map (threeBytes d₁ d₂ d₃ d₄ ++ ·) := by
  have hpad : c₄ ≠ '=' := by
    rintro rfl
    simp [hsp.digit?_pad] at h₄
  rw [decodeChars?]
  simp only [hpad, h₁, h₂, h₃, h₄, and_false, if_false, Option.bind_eq_bind, Option.bind_some]
  cases sp.decodeChars? rest with
  | none => rfl
  | some bs => rfl

theorem decodeChars?_encodeChars (bs : Bytes) :
    sp.decodeChars? (sp.encodeChars bs) = some bs := by
  have hdigit : ∀ (as : Bytes) {d : Nat}, d ∈ sextets as → sp.digit? (sp.charOf d) = some d :=
    fun _ _ hd => hsp.digit?_charOf _ (lt_of_mem_sextets _ hd)
  fun_induction sp.encodeChars bs with
  | case1 => rfl
  | case2 a n =>
    have h₁ := hdigit [a] (.head _)
    have h₂ := hdigit [a] (.tail _ (.head _))
    rw [decodeChars?_one h₁ h₂]
    exact (oneByte?_eq_some_iff (of_digit?_eq_some h₁).1 (of_digit?_eq_some h₂).1).mpr
      ⟨a, rfl, rfl⟩
  | case3 a b n =>
    have h₁ := hdigit [a, b] (.head _)
    have h₂ := hdigit [a, b] (.tail _ (.head _))
    have h₃ := hdigit [a, b] (.tail _ (.tail _ (.head _)))
    rw [hsp.decodeChars?_two h₁ h₂ h₃]
    exact (twoBytes?_eq_some_iff (of_digit?_eq_some h₁).1 (of_digit?_eq_some h₂).1
      (of_digit?_eq_some h₃).1).mpr ⟨a, b, rfl, rfl⟩
  | case4 a b c rest n ih =>
    have h₁ := hdigit [a, b, c] (.head _)
    have h₂ := hdigit [a, b, c] (.tail _ (.head _))
    have h₃ := hdigit [a, b, c] (.tail _ (.tail _ (.head _)))
    have h₄ := hdigit [a, b, c] (.tail _ (.tail _ (.tail _ (.head _))))
    rw [hsp.decodeChars?_three h₁ h₂ h₃ h₄, ih, (threeBytes_eq_iff (of_digit?_eq_some h₁).1
      (of_digit?_eq_some h₂).1 (of_digit?_eq_some h₃).1 (of_digit?_eq_some h₄).1).mpr rfl]
    rfl

end Lawful

theorem decode?_eq_some_iff (hsp : sp.Lawful) {text : String} {bs : Bytes} :
    sp.decode? text = some bs ↔ sp.encode bs = text := by
  unfold decode? encode
  constructor
  . intro h
    rw [encodeChars_of_decodeChars?_eq_some h, String.ofList_toList]
  . rintro rfl
    rw [String.toList_ofList]
    exact hsp.decodeChars?_encodeChars bs

theorem padding_eq (sp : Spelling) (n : Nat) :
    sp.padding n = List.replicate (if sp.padded then n else 0) '=' := by
  unfold padding
  split
  . rfl
  . rfl

theorem pad_notMem (hsp : sp.Lawful) (bs : Bytes) : '=' ∉ (sextets bs).map sp.charOf := by
  intro h
  rcases List.mem_map.mp h with ⟨d, hd, hpad⟩
  exact hsp.charOf_ne_pad (lt_of_mem_sextets d hd) hpad

theorem digit?_of_mem_encodeChars (hsp : sp.Lawful) {bs : Bytes} {c : Char}
    (h : c ∈ sp.encodeChars bs) : sp.digit? c ≠ none ∨ c = '=' ∧ sp.padded := by
  rw [encodeChars_eq, padding_eq, List.mem_append, List.mem_map, List.mem_replicate] at h
  rcases h with ⟨d, hd, rfl⟩ | ⟨hpadded, rfl⟩
  . left
    rw [hsp.digit?_charOf d (lt_of_mem_sextets d hd)]
    simp
  . right
    refine ⟨rfl, ?_⟩
    split at hpadded
    . assumption
    . simp at hpadded

/-- What a text has in front of padding are the digits of its bytes, and their number determines the
padding. -/
theorem eq_of_encode_eq (hsp : sp.Lawful) {bs : Bytes} {body : List Char} {n : Nat}
    (hbody : '=' ∉ body) (h : sp.encode bs = String.ofList (body ++ List.replicate n '=')) :
    body = (sextets bs).map sp.charOf ∧ n = if sp.padded then (4 - body.length % 4) % 4 else 0 := by
  have hsplit : ∀ {cs : List Char} {k : Nat}, '=' ∉ cs →
      (cs ++ List.replicate k '=').takeWhile (· ≠ '=') = cs := by
    intro cs k hcs
    rw [List.takeWhile_append_of_pos]
    . cases k with
      | zero => simp
      | succ k => simp [List.replicate_succ]
    . intro c hc
      simp only [ne_eq, decide_not, Bool.not_eq_eq_eq_not, Bool.not_true, decide_eq_false_iff_not]
      rintro rfl
      exact hcs hc
  have hchars := String.ofList_injective h
  rw [encodeChars_eq, padding_eq] at hchars
  have heq := congrArg (List.takeWhile (· ≠ '=')) hchars
  rw [hsplit hbody, hsplit (pad_notMem hsp bs)] at heq
  refine ⟨heq.symm, ?_⟩
  rw [heq, List.append_cancel_left_eq, List.replicate_inj] at hchars
  rw [← heq, List.length_map, length_sextets, ← hchars.1]
  have hlength : (3 - bs.length % 3) % 3 = (4 - (4 * bs.length + 2) / 3 % 4) % 4 := by
    have hcases : bs.length % 3 = 0 ∨ bs.length % 3 = 1 ∨ bs.length % 3 = 2 := by omega
    rcases hcases with h₀ | h₁ | h₂
    . omega
    . omega
    . omega
  rw [hlength]

theorem unused_of_encode_eq (hsp : sp.Lawful) {bs : Bytes} {body : List Char} {c : Char} {d n : Nat}
    (hbody : '=' ∉ body ++ [c]) (hc : sp.digit? c = some d)
    (h : sp.encode bs = String.ofList (body ++ [c] ++ List.replicate n '=')) :
    ((body.length + 1) % 4 = 2 → d % 16 = 0) ∧ ((body.length + 1) % 4 = 3 → d % 4 = 0) := by
  have hmap := (eq_of_encode_eq hsp hbody h).1
  have hlength : body.length + 1 = (sextets bs).length := by
    have hlength := congrArg List.length hmap
    rw [List.length_append, List.length_singleton, List.length_map] at hlength
    exact hlength
  have hlast : (sextets bs).getLast? = some d := by
    have hchar := congrArg List.getLast? hmap
    rw [List.getLast?_concat, List.getLast?_map, eq_comm, Option.map_eq_some_iff] at hchar
    rcases hchar with ⟨e, he, rfl⟩
    rw [hsp.digit?_charOf e (lt_of_mem_sextets e (List.mem_of_getLast? he)),
      Option.some.injEq] at hc
    rw [he, hc]
  rw [hlength]
  exact unused_getLast_sextets hlast

theorem charOf_webSafe_eq_charOf_standard :
    ∀ d < 64, ∀ e < 64, webSafe.charOf d = standard.charOf e → d = e := by
  decide +kernel

theorem map_charOf_webSafe_eq_map_charOf_standard {ds es : List Nat} (hds : ∀ d ∈ ds, d < 64)
    (hes : ∀ e ∈ es, e < 64) (h : ds.map webSafe.charOf = es.map standard.charOf) : ds = es := by
  induction ds generalizing es with
  | nil =>
    rw [List.map_nil, eq_comm, List.map_eq_nil_iff] at h
    exact h.symm
  | cons d ds ih =>
    cases es with
    | nil => simp at h
    | cons e es =>
      rw [List.map_cons, List.map_cons, List.cons.injEq] at h
      rw [List.forall_mem_cons] at hds hes
      rw [charOf_webSafe_eq_charOf_standard d hds.1 e hes.1 h.1, ih hds.2 hes.2 h.2]

theorem encode_webSafe_eq (bs : Bytes) :
    webSafe.encode bs = String.ofList ((sextets bs).map webSafe.charOf) := by
  rw [encode, encodeChars_eq, padding_eq]
  simp [webSafe]

/-- A text that is written in both spellings has the same bytes in both. -/
theorem eq_of_encode_webSafe_eq_encode_standard {bs bs' : Bytes}
    (h : webSafe.encode bs = standard.encode bs') : bs = bs' := by
  have hchars : standard.encode bs' =
      String.ofList ((sextets bs).map webSafe.charOf ++ List.replicate 0 '=') := by
    rw [← h, encode_webSafe_eq, List.replicate_zero, List.append_nil]
  have hmap := (eq_of_encode_eq lawful_standard (pad_notMem lawful_webSafe bs) hchars).1
  have hsextets := map_charOf_webSafe_eq_map_charOf_standard lt_of_mem_sextets lt_of_mem_sextets
    hmap
  have hencode : webSafe.encode bs = webSafe.encode bs' := by
    rw [encode_webSafe_eq, encode_webSafe_eq, hsextets]
  have hread := (decode?_eq_some_iff lawful_webSafe).mpr hencode
  rw [(decode?_eq_some_iff lawful_webSafe).mpr rfl, Option.some.injEq] at hread
  exact hread.symm

end Spelling

end Keyring.Text.Base64
