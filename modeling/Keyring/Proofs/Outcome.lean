/-!
This module contains what the outcome of a computation in steps tells about the steps: it ends well
if and only if every one of them does.
-/

namespace Keyring

variable {ε σ α β : Type}

@[simp]
theorem pure_eq_ok (a : α) : (pure a : Except ε α) = .ok a := by
  rfl

@[simp]
theorem throw_eq_error (e : ε) : (throw e : Except ε α) = .error e := by
  rfl

@[simp]
theorem ok_bind (a : α) (f : α → Except ε β) : (Except.ok a >>= f) = f a := by
  rfl

@[simp]
theorem error_bind (e : ε) (f : α → Except ε β) : (Except.error e >>= f) = .error e := by
  rfl

theorem bind_eq_ok_iff {x : Except ε α} {f : α → Except ε β} {b : β} :
    (x >>= f) = .ok b ↔ ∃ a, x = .ok a ∧ f a = .ok b := by
  cases x with
  | error e => simp
  | ok a => simp

theorem bind_eq_error_iff {x : Except ε α} {f : α → Except ε β} {e : ε} :
    (x >>= f) = .error e ↔ x = .error e ∨ ∃ a, x = .ok a ∧ f a = .error e := by
  cases x with
  | error e => simp
  | ok a => simp

/-- Whether a computation ends with nothing but what has a property, or with an error. -/
def Ensures (P : α → Prop) (x : Except ε α) : Prop :=
  ∀ a, x = .ok a → P a

theorem ensures_pure {P : α → Prop} {a : α} : Ensures P (pure a : Except ε α) ↔ P a := by
  simp [Ensures]

theorem ensures_error (P : α → Prop) (e : ε) : Ensures P (.error e) := by
  simp [Ensures]

theorem Ensures.bind {P : α → Prop} {Q : β → Prop} {x : Except ε α} {f : α → Except ε β}
    (hx : Ensures P x) (hf : ∀ a, P a → Ensures Q (f a)) : Ensures Q (x >>= f) := by
  intro b h
  rcases bind_eq_ok_iff.mp h with ⟨a, ha, hb⟩
  exact hf a (hx a ha) b hb

theorem Ensures.bind_right {Q : β → Prop} {x : Except ε α} {f : α → Except ε β}
    (hf : ∀ a, Ensures Q (f a)) : Ensures Q (x >>= f) := by
  have hx : Ensures (fun _ => True) x := fun _ _ => trivial
  exact hx.bind fun a _ => hf a

theorem ite_error_eq_ok_iff {c : Prop} [Decidable c] {e : ε} {x : Except ε α} {a : α} :
    (if c then .error e else x) = .ok a ↔ ¬c ∧ x = .ok a := by
  split
  . next hc => simp [hc]
  . next hc => simp [hc]

theorem dite_error_eq_ok_iff {c : Prop} [Decidable c] {f : c → α} {e : ε} {a : α} :
    (if h : c then .ok (f h) else .error e : Except ε α) = .ok a ↔ ∃ h, f h = a := by
  split
  . next hc => simp [hc]
  . next hc => simp [hc]

theorem mapM_eq_ok {f : α → Except ε β} {g : α → β} {xs : List α}
    (h : ∀ x ∈ xs, f x = .ok (g x)) : xs.mapM f = .ok (xs.map g) := by
  induction xs with
  | nil => simp
  | cons x xs ih =>
    rw [List.forall_mem_cons] at h
    rw [List.mapM_cons, h.1, ok_bind, ih h.2, ok_bind, List.map_cons, pure_eq_ok]

theorem foldlM_eq_error_iff {f : β → α → Except ε β} {xs : List α} {b : β} {e : ε} :
    xs.foldlM f b = .error e ↔ ∃ before x after c, xs = before ++ x :: after ∧
      before.foldlM f b = .ok c ∧ f c x = .error e := by
  constructor
  . intro h
    induction xs generalizing b with
    | nil => simp at h
    | cons y ys ih =>
      rw [List.foldlM_cons, bind_eq_error_iff] at h
      rcases h with hy | ⟨c, hc, hys⟩
      . exact ⟨[], y, ys, b, rfl, rfl, hy⟩
      . rcases ih hys with ⟨before, x, after, d, rfl, hd, hx⟩
        refine ⟨y :: before, x, after, d, rfl, ?_, hx⟩
        rw [List.foldlM_cons, hc, ok_bind, hd]
  . rintro ⟨before, x, after, c, rfl, hc, hx⟩
    rw [List.foldlM_append, hc, ok_bind, List.foldlM_cons, hx, error_bind]

/-- What each step keeps, with one element more done, the whole run keeps. -/
theorem foldlM_preserves {f : β → α → Except ε β} {P : List α → β → Prop}
    (hstep : ∀ {done b x c}, P done b → f b x = .ok c → P (done ++ [x]) c) {done xs : List α}
    {b c : β} (hb : P done b) (h : xs.foldlM f b = .ok c) : P (done ++ xs) c := by
  induction xs generalizing done b with
  | nil =>
    rw [List.foldlM_nil, pure_eq_ok, Except.ok.injEq] at h
    rw [List.append_nil, ← h]
    exact hb
  | cons x xs ih =>
    rw [List.foldlM_cons, bind_eq_ok_iff] at h
    rcases h with ⟨d, hd, h⟩
    rw [List.append_cons]
    exact ih (hstep hb hd) h

/-- A decoder that refuses any bytes behind what it accepts accepts no two that begin alike. -/
theorem eq_of_prefix {decode : List α → Except ε β} {refusal : List α → ε}
    (happend : ∀ {xs b}, decode xs = .ok b → ∀ rest,
      decode (xs ++ rest) = if rest.isEmpty then .ok b else .error (refusal rest))
    {xs ys : List α} {b b' : β} (hxs : decode xs = .ok b) (hys : decode ys = .ok b')
    (hbegins : xs <+: ys) : xs = ys := by
  rcases hbegins with ⟨rest, rfl⟩
  rw [happend hxs] at hys
  cases rest with
  | nil => rw [List.append_nil]
  | cons _ _ => simp at hys

@[simp]
theorem run_throw (e : ε) (s : σ) : (throw e : EStateM ε σ α).run s = .error e s := by
  rfl

@[simp]
theorem run_ofExcept_ok (a : α) (s : σ) :
    (MonadExcept.ofExcept (Except.ok a) : EStateM ε σ α).run s = .ok a s := by
  rfl

@[simp]
theorem run_ofExcept_error (e : ε) (s : σ) :
    (MonadExcept.ofExcept (Except.error e) : EStateM ε σ α).run s = .error e s := by
  rfl

theorem run_ofExcept_eq_ok_iff {x : Except ε α} {a : α} {s s' : σ} :
    (MonadExcept.ofExcept x : EStateM ε σ α).run s = .ok a s' ↔ x = .ok a ∧ s = s' := by
  cases x with
  | error e => simp
  | ok b => simp

theorem run_ofExcept_eq_error_iff {x : Except ε α} {e : ε} {s s' : σ} :
    (MonadExcept.ofExcept x : EStateM ε σ α).run s = .error e s' ↔ x = .error e ∧ s = s' := by
  cases x with
  | error e => simp
  | ok b => simp

theorem run_bind_of_ok {x : EStateM ε σ α} {f : α → EStateM ε σ β} {a : α} {s s' : σ}
    (h : x.run s = .ok a s') : (x >>= f).run s = (f a).run s' := by
  rw [EStateM.run_bind, h]

theorem run_bind_eq_ok_iff {x : EStateM ε σ α} {f : α → EStateM ε σ β} {b : β} {s s' : σ} :
    (x >>= f).run s = .ok b s' ↔ ∃ a t, x.run s = .ok a t ∧ (f a).run t = .ok b s' := by
  rw [EStateM.run_bind]
  cases h : x.run s with
  | error e t => simp
  | ok a t => simp [and_assoc]

theorem run_bind_eq_error_iff {x : EStateM ε σ α} {f : α → EStateM ε σ β} {e : ε} {s s' : σ} :
    (x >>= f).run s = .error e s' ↔
      x.run s = .error e s' ∨ ∃ a t, x.run s = .ok a t ∧ (f a).run t = .error e s' := by
  rw [EStateM.run_bind]
  cases h : x.run s with
  | error e t => simp
  | ok a t => simp [and_assoc]

end Keyring
