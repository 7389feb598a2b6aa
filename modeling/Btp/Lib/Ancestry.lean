import Mathlib

/-!
# Following parent links

A store of records, each naming its parent by a key, is walked by following
the parent link a number of times. The walk composes (`follow_add`), survives
the store's growth (`follow_mono`), and when every record but the roots sits
one level above its parent, it reaches a record at every lower level
(`follow_graded`).
-/

namespace Ancestry

variable {K : Type*} (parent : K → Option K)

/-- The key reached from `k` by following `parent` `n` times. -/
def follow : Nat → K → Option K
  | 0, k => some k
  | n + 1, k => (parent k).bind (follow n)

variable {parent}

@[simp] theorem follow_zero (k : K) : follow parent 0 k = some k := rfl

theorem follow_succ (n : Nat) (k : K) : follow parent (n + 1) k = (parent k).bind (follow parent n) :=
  rfl

theorem follow_succ_of_parent {n : Nat} {k k' : K} (h : parent k = some k') :
    follow parent (n + 1) k = follow parent n k' := by
  rw [follow_succ, h, Option.bind_some]

/-- Following `m + n` links is following `n`, then `m`. -/
theorem follow_add (m n : Nat) (k : K) :
    follow parent (m + n) k = (follow parent n k).bind (follow parent m) := by
  induction n generalizing k with
  | zero => rfl
  | succ n ih =>
    rw [← Nat.add_assoc, follow_succ, follow_succ, Option.bind_assoc]
    congr 1
    funext k'
    exact ih k'

theorem follow_add_of_eq {m n : Nat} {k k' : K} (h : follow parent n k = some k') :
    follow parent (m + n) k = follow parent m k' := by
  rw [follow_add, h, Option.bind_some]

/-- A walk in a store goes the same way in a store with more links. -/
theorem follow_mono {parent' : K → Option K} (hsub : ∀ k k', parent k = some k' → parent' k = some k')
    {n : Nat} {k r : K} (h : follow parent n k = some r) : follow parent' n k = some r := by
  induction n generalizing k with
  | zero => exact h
  | succ n ih =>
    rw [follow_succ] at h
    obtain ⟨k', hk', hr⟩ := Option.bind_eq_some_iff.1 h
    rw [follow_succ_of_parent (hsub k k' hk')]
    exact ih hr

/-- Where every present key of positive level has a present parent one level
below, a walk of at most the level of a present key reaches a present key of
the level that many below. -/
theorem follow_graded {present : K → Prop} {level : K → Nat}
    (hstep : ∀ k, present k → 0 < level k → ∃ k', parent k = some k' ∧ present k' ∧ level k = level k' + 1)
    {n : Nat} {k : K} (hk : present k) (hn : n ≤ level k) :
    ∃ r, follow parent n k = some r ∧ present r ∧ level r = level k - n := by
  induction n generalizing k with
  | zero => exact ⟨k, rfl, hk, rfl⟩
  | succ n ih =>
    obtain ⟨k', hpar, hk', hlevel⟩ := hstep k hk (by omega)
    obtain ⟨r, hr, hrp, hrl⟩ := ih hk' (by omega)
    refine ⟨r, by rw [follow_succ_of_parent hpar, hr], hrp, ?_⟩
    omega

end Ancestry
