import Mathlib

/-!
# Undo logs

A state changed by steps that each log an entry is rolled back by undoing the
entries in reverse order. Undoing need not restore the state exactly, only up
to an equivalence `R` that the undo of every entry respects. `Logged s es s'`
says that a run from `s` to `s'` logged `es` and that each step is undone by
its entry up to `R`; the rules below compose such runs, cut them at a prefix of
their log, and roll them back.
-/

namespace UndoLog

variable {σ ε : Type} (undo : ε → σ → Option σ) (R : σ → σ → Prop)

/-- Undo the entries of `es`, the last one first. -/
def undoAll (es : List ε) (s : σ) : Option σ :=
  es.reverse.foldlM (fun s e => undo e s) s

/-- `undo` is a congruence for `R`: equivalent states are undone alike. -/
def Respects : Prop :=
  ∀ e s t s', R s t → undo e s = some s' → ∃ t', undo e t = some t' ∧ R s' t'

/-- A run from `s` to `s'` that logged `es`, each step undone by its entry up
to `R`. -/
inductive Logged : σ → List ε → σ → Prop
  | nil {s s' : σ} : R s' s → Logged s [] s'
  | snoc {s s' s'' : σ} {es : List ε} {e : ε} :
      Logged s es s' → (∃ u, undo e s'' = some u ∧ R u s') → Logged s (es ++ [e]) s''

variable {undo R}

@[simp] theorem undoAll_nil (s : σ) : undoAll undo [] s = some s := rfl

theorem undoAll_cons (e : ε) (es : List ε) (s : σ) :
    undoAll undo (e :: es) s = (undoAll undo es s).bind (undo e) := by
  simp only [undoAll, List.reverse_cons, List.foldlM_append, List.foldlM_cons, List.foldlM_nil,
    bind_pure]
  rfl

theorem undoAll_append (es fs : List ε) (s : σ) :
    undoAll undo (es ++ fs) s = (undoAll undo fs s).bind (undoAll undo es) := by
  simp only [undoAll, List.reverse_append, List.foldlM_append]
  rfl

theorem undoAll_singleton (e : ε) (s : σ) : undoAll undo [e] s = undo e s := by
  rw [undoAll_cons, undoAll_nil, Option.bind_some]

/-- What every undo preserves holds after undoing a list of entries. -/
theorem undoAll_inv (P : σ → Prop) (hstep : ∀ e s s', undo e s = some s' → P s → P s')
    {es : List ε} {s s' : σ} (h : undoAll undo es s = some s') (hs : P s) : P s' := by
  induction es generalizing s' with
  | nil =>
    rw [undoAll_nil, Option.some.injEq] at h
    exact h ▸ hs
  | cons e es ih =>
    rw [undoAll_cons] at h
    obtain ⟨u, hu, hue⟩ := Option.bind_eq_some_iff.mp h
    exact hstep e u s' hue (ih hu)

section
variable (hR : Respects undo R)
include hR

/-- Undoing a list of entries respects `R`, one entry at a time. -/
theorem Respects.undoAll {es : List ε} {s t s' : σ} (hst : R s t)
    (h : undoAll undo es s = some s') : ∃ t', undoAll undo es t = some t' ∧ R s' t' := by
  induction es generalizing s' with
  | nil =>
    rw [undoAll_nil, Option.some.injEq] at h
    exact ⟨t, rfl, h ▸ hst⟩
  | cons e es ih =>
    rw [undoAll_cons] at h ⊢
    obtain ⟨u, hu, hue⟩ := Option.bind_eq_some_iff.mp h
    obtain ⟨v, hv, huv⟩ := ih hu
    obtain ⟨w, hw, hw'⟩ := hR e u v s' huv hue
    exact ⟨w, by rw [hv, Option.bind_some, hw], hw'⟩

variable (hequiv : Equivalence R)
include hequiv

/-- A logged run may end in any state equivalent to its end. -/
theorem Logged.of_equiv {s x y : σ} {es : List ε} (h : Logged undo R s es x) (hyx : R y x) :
    Logged undo R s es y := by
  cases h with
  | nil hxs => exact .nil (hequiv.trans hyx hxs)
  | snoc hrun hstep =>
    obtain ⟨u, hu, hus⟩ := hstep
    obtain ⟨u', hu', huu'⟩ := hR _ _ _ _ (hequiv.symm hyx) hu
    exact .snoc hrun ⟨u', hu', hequiv.trans (hequiv.symm huu') hus⟩

/-- Rolling back a logged run returns to its start, up to `R`. -/
theorem Logged.undoAll {s s' : σ} {es : List ε} (h : Logged undo R s es s') :
    ∃ u, UndoLog.undoAll undo es s' = some u ∧ R u s := by
  induction h with
  | nil hs => exact ⟨_, rfl, hs⟩
  | @snoc x x' es e _ hstep ih =>
    obtain ⟨u, hu, hux⟩ := hstep
    obtain ⟨v, hv, hvs⟩ := ih
    -- the rest of the log, undone from `u`, goes where it goes from `x`
    obtain ⟨w, hw, hvw⟩ := hR.undoAll (hequiv.symm hux) hv
    refine ⟨w, ?_, hequiv.trans (hequiv.symm hvw) hvs⟩
    rw [undoAll_append, undoAll_singleton, hu, Option.bind_some, hw]

/-- Logged runs compose. -/
theorem Logged.append {s s' s'' : σ} {es fs : List ε} (h : Logged undo R s es s')
    (h' : Logged undo R s' fs s'') : Logged undo R s (es ++ fs) s'' := by
  induction h' with
  | nil hs => simpa using h.of_equiv hR hequiv hs
  | snoc _ hstep ih =>
    rw [← List.append_assoc]
    exact .snoc ih hstep

/-- Undoing the last entries of a logged run leaves a run that logged the
others. -/
theorem Logged.undo_suffix {s s' : σ} {es fs : List ε} (h : Logged undo R s (es ++ fs) s') :
    ∃ u, UndoLog.undoAll undo fs s' = some u ∧ Logged undo R s es u := by
  induction fs using List.reverseRecOn generalizing s' with
  | nil => exact ⟨s', rfl, by simpa using h⟩
  | append_singleton fs f ih =>
    rw [← List.append_assoc] at h
    generalize hl : es ++ fs ++ [f] = l at h
    cases h with
    | nil _ => simp at hl
    | snoc hrun hstep =>
      obtain ⟨hes, hf⟩ := List.append_inj' hl rfl
      subst hes
      simp only [List.singleton_inj] at hf
      subst hf
      obtain ⟨u, hu, hux⟩ := hstep
      obtain ⟨v, hv, hlogv⟩ := ih hrun
      obtain ⟨w, hw, hvw⟩ := hR.undoAll (hequiv.symm hux) hv
      refine ⟨w, ?_, hlogv.of_equiv hR hequiv (hequiv.symm hvw)⟩
      rw [undoAll_append, undoAll_singleton, hu, Option.bind_some, hw]

end

end UndoLog
