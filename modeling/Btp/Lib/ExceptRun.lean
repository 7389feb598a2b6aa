import Mathlib

/-!
# Successful runs in the exception monad

A computation in `Except ε` that returns a value ran each of its binds to a
value. For a monadic left fold this gives an invariant rule: what every
successful step preserves holds of the fold's result. The rule's step sees
where in the list it is, for invariants that depend on how much of the list
has been consumed.
-/

namespace ExceptRun

variable {ε α β σ : Type}

@[simp] theorem bind_eq_ok {x : Except ε α} {f : α → Except ε β} {b : β} :
    (x >>= f) = .ok b ↔ ∃ a, x = .ok a ∧ f a = .ok b := by
  cases x with
  | error e => simp [bind, Except.bind]
  | ok a => simp [bind, Except.bind]

@[simp] theorem pure_eq_ok {a b : α} : (pure a : Except ε α) = .ok b ↔ a = b := by
  simp [pure, Except.pure]

@[simp] theorem throw_ne_ok {e : ε} {b : α} : (throw e : Except ε α) ≠ .ok b := by
  simp [throw, throwThe, MonadExceptOf.throw]

/-- A bind whose continuation always returns fails exactly when its first
computation fails, with the same error. -/
theorem bind_pure_eq_error {x : Except ε α} {g : α → β} {e : ε} :
    (x >>= fun a => pure (g a)) = .error e ↔ x = .error e := by
  cases x with
  | error e' => simp [bind, Except.bind]
  | ok a => simp [bind, Except.bind, pure, Except.pure]

/-- The invariant rule of a successful fold over `l`, for an invariant `P done s`
of the consumed prefix `done` and the state `s` reached after it. -/
theorem foldlM_ok_induction {f : σ → α → Except ε σ} (l : List α) (P : List α → σ → Prop)
    (hstep : ∀ pre x post s s', l = pre ++ x :: post → f s x = .ok s' → P pre s →
      P (pre ++ [x]) s')
    {s s' : σ} (h : l.foldlM f s = .ok s') (h₀ : P [] s) : P l s' := by
  -- the fold over the suffix `rest`, after the prefix `done` has been consumed
  suffices key : ∀ rest done s, l = done ++ rest → rest.foldlM f s = .ok s' → P done s →
      P l s' from key l [] s rfl h h₀
  intro rest
  induction rest with
  | nil =>
    intro done s hl hrun hp
    rw [List.foldlM_nil, pure_eq_ok] at hrun
    rw [hl, List.append_nil, ← hrun]
    exact hp
  | cons x rest ih =>
    intro done s hl hrun hp
    rw [List.foldlM_cons, bind_eq_ok] at hrun
    obtain ⟨s₁, hx, hrest⟩ := hrun
    apply ih (done ++ [x]) s₁ (by simp [hl]) hrest
    exact hstep done x rest s s₁ hl hx hp

/-- A property of the state that every successful step preserves holds of
the result of a successful fold. -/
theorem foldlM_ok_inv {f : σ → α → Except ε σ} (P : σ → Prop)
    (hstep : ∀ x s s', f s x = .ok s' → P s → P s') (l : List α) {s s' : σ}
    (h : l.foldlM f s = .ok s') (h₀ : P s) : P s' :=
  foldlM_ok_induction l (fun _ s => P s) (fun _ x _ s s' _ hx hp => hstep x s s' hx hp) h h₀

/-- A fold simulates another when a relation between their states is kept by
every successful step of the first, matched by a successful step of the
second. -/
theorem foldlM_ok_sim {τ : Type} {f : σ → α → Except ε σ} {g : τ → α → Except ε τ}
    (R : σ → τ → Prop)
    (hstep : ∀ x s s' t, R s t → f s x = .ok s' → ∃ t', g t x = .ok t' ∧ R s' t') :
    ∀ (l : List α) {s s' : σ} {t : τ}, R s t → l.foldlM f s = .ok s' →
      ∃ t', l.foldlM g t = .ok t' ∧ R s' t'
  | [], s, s', t, hr, h => by
    rw [List.foldlM_nil, pure_eq_ok] at h
    exact ⟨t, rfl, h ▸ hr⟩
  | x :: l, s, s', t, hr, h => by
    rw [List.foldlM_cons, bind_eq_ok] at h
    obtain ⟨s₁, hx, hrest⟩ := h
    obtain ⟨t₁, ht₁, hr₁⟩ := hstep x s s₁ t hr hx
    obtain ⟨t', ht', hr'⟩ := foldlM_ok_sim R hstep l hr₁ hrest
    refine ⟨t', ?_, hr'⟩
    rw [List.foldlM_cons, ht₁]
    exact ht'

/-- A map whose every call returns a value returns the list of those values. -/
theorem mapM_eq_ok {f : α → Except ε β} (g : α → β) (l : List α)
    (h : ∀ x ∈ l, f x = .ok (g x)) : l.mapM f = .ok (l.map g) := by
  induction l with
  | nil => rfl
  | cons x l ih =>
    rw [List.mapM_cons, h x (by simp), ih fun y hy => h y (by simp [hy])]
    rfl

end ExceptRun
