import Mathlib

/-!
# Computations that return

An `Option` computation in which `none` is a failure (a panic, an
out-of-range access) *returns* a value satisfying `p` when it is `some a`
with `p a`: the total-correctness reading of a Hoare triple over `Option`.
The rules follow the monad: a bind returns when its first part returns and
the rest returns from every value the first part can give.
-/

namespace OptionSpec

variable {α β : Type} {p q : α → Prop} {r : β → Prop}

/-- `o` returns a value, and the value satisfies `p`. -/
def Returns (p : α → Prop) (o : Option α) : Prop := ∃ a, o = some a ∧ p a

theorem returns_some {a : α} (h : p a) : Returns p (some a) := ⟨a, rfl, h⟩

theorem returns_pure {a : α} (h : p a) : Returns p (pure a) := ⟨a, rfl, h⟩

@[simp] theorem returns_some_iff {a : α} : Returns p (some a) ↔ p a := by
  simp [Returns]

@[simp] theorem not_returns_none : ¬ Returns p none := by
  simp [Returns]

theorem returns_of_eq {o : Option α} {a : α} (ho : o = some a) (h : p a) : Returns p o :=
  ⟨a, ho, h⟩

theorem Returns.mono {o : Option α} (ho : Returns p o) (h : ∀ a, p a → q a) : Returns q o := by
  obtain ⟨a, rfl, hp⟩ := ho
  exact ⟨a, rfl, h a hp⟩

theorem Returns.post {o : Option α} {a : α} (ho : Returns p o) (h : o = some a) : p a := by
  obtain ⟨b, rfl, hp⟩ := ho
  rwa [Option.some.inj h] at hp

theorem Returns.isSome {o : Option α} (ho : Returns p o) : o.isSome := by
  obtain ⟨a, rfl, -⟩ := ho
  rfl

theorem Returns.bind {o : Option α} {f : α → Option β} (ho : Returns p o)
    (hf : ∀ a, p a → Returns r (f a)) : Returns r (o >>= f) := by
  obtain ⟨a, rfl, hp⟩ := ho
  exact hf a hp

theorem Returns.map {o : Option α} {f : α → β} (ho : Returns p o) (hf : ∀ a, p a → r (f a)) :
    Returns r (o.map f) := by
  obtain ⟨a, rfl, hp⟩ := ho
  exact ⟨f a, rfl, hf a hp⟩

/-- A computation that is `some` returns with the trivial postcondition. -/
theorem returns_of_isSome {o : Option α} (h : o.isSome) : Returns (fun _ => True) o := by
  obtain ⟨a, ha⟩ := Option.isSome_iff_exists.mp h
  exact ⟨a, ha, trivial⟩

/-! ## Partial correctness -/

/-- Whatever `o` returns satisfies `p`: the partial-correctness reading, which
says nothing of a computation that fails. -/
def Ensures (p : α → Prop) (o : Option α) : Prop := ∀ a, o = some a → p a

theorem ensures_some {a : α} (h : p a) : Ensures p (some a) := by
  rintro b ⟨⟩
  exact h

theorem ensures_pure {a : α} (h : p a) : Ensures p (pure a) := ensures_some h

theorem ensures_true (o : Option α) : Ensures (fun _ => True) o := fun _ _ => trivial

theorem Returns.ensures {o : Option α} (ho : Returns p o) : Ensures p o := fun _ h => ho.post h

theorem Ensures.bind {o : Option α} {f : α → Option β} (ho : Ensures p o)
    (hf : ∀ a, p a → Ensures r (f a)) : Ensures r (o >>= f) := by
  intro b hb
  obtain ⟨a, ha, hfa⟩ := Option.bind_eq_some_iff.mp hb
  exact hf a (ho a ha) b hfa

theorem Ensures.map {o : Option α} {f : α → β} (ho : Ensures p o) (hf : ∀ a, p a → r (f a)) :
    Ensures r (o.map f) := by
  intro b hb
  obtain ⟨a, ha, rfl⟩ := Option.map_eq_some_iff.mp hb
  exact hf a (ho a ha)

/-- A computation that is `some`, and satisfies `p` when it returns, returns
with `p`: total correctness from partial correctness and termination. -/
theorem Ensures.returns {o : Option α} (ho : Ensures p o) (hs : o.isSome) : Returns p o := by
  obtain ⟨a, ha⟩ := Option.isSome_iff_exists.mp hs
  exact ⟨a, ha, ho a ha⟩

end OptionSpec
