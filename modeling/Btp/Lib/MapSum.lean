import Mathlib

/-!
# The sum of the values of a map

A loop `for _, v := range m { n += v }` sums the values of a map in whatever
order it visits them. For a map as an `AList`, the sum is the value at any
one key, `0` if the key is absent, and the sum over the other keys; writing a
key replaces its one entry. These are the two facts a counter kept per key
needs to keep its total.
-/

namespace MapSum

variable {K M : Type*} [DecidableEq K] [AddCommMonoid M]

/-- The sum of the values of `m`. -/
def valueSum (m : AList fun _ : K => M) : M := (m.entries.map (·.2)).sum

/-- A sum of a weight over the entries of an association list is the weight at
`k`, `0` if absent, and the sum over the entries without `k`. -/
theorem sum_map_eq_dlookup_add_kerase {V : Type*} (w : V → M) (k : K)
    (l : List (Sigma fun _ : K => V)) :
    (l.map fun e => w e.2).sum = ((l.dlookup k).map w).getD 0 + ((l.kerase k).map fun e => w e.2).sum := by
  induction l with
  | nil => simp
  | cons e l ih =>
    obtain ⟨a, v⟩ := e
    by_cases hk : k = a
    · subst hk
      simp [List.dlookup_cons_eq, List.kerase_cons_eq]
    · rw [List.dlookup_cons_ne _ _ hk, List.kerase_cons_ne hk, List.map_cons, List.map_cons,
        List.sum_cons, List.sum_cons, ih, add_left_comm]

theorem sum_eq_dlookup_add_kerase (k : K) (l : List (Sigma fun _ : K => M)) :
    (l.map (·.2)).sum = (l.dlookup k).getD 0 + ((l.kerase k).map (·.2)).sum := by
  simpa using sum_map_eq_dlookup_add_kerase id k l

omit [DecidableEq K] in
@[simp] theorem valueSum_empty : valueSum (∅ : AList fun _ : K => M) = 0 := rfl

/-- The sum is the value at `k` and the sum of the map without `k`. -/
theorem valueSum_eq_lookup_add_erase (m : AList fun _ : K => M) (k : K) :
    valueSum m = (m.lookup k).getD 0 + valueSum (m.erase k) :=
  sum_eq_dlookup_add_kerase k m.entries

/-- Writing `v` at `k` gives `v` and the sum of the map without `k`. -/
theorem valueSum_insert (m : AList fun _ : K => M) (k : K) (v : M) :
    valueSum (m.insert k v) = v + valueSum (m.erase k) := by
  simp only [valueSum, AList.entries_insert, List.map_cons, List.sum_cons]
  rfl

/-! ## A weight of the values -/

section Weight
variable {V : Type*}

/-- The sum of a weight `w` of the values of `m`. -/
def weightSum (w : V → M) (m : AList fun _ : K => V) : M := (m.entries.map fun e => w e.2).sum

/-- The weighted sum is the weight at `k` and the weighted sum of the map
without `k`. -/
theorem weightSum_eq_lookup_add_erase (w : V → M) (m : AList fun _ : K => V) (k : K) :
    weightSum w m = ((m.lookup k).map w).getD 0 + weightSum w (m.erase k) :=
  sum_map_eq_dlookup_add_kerase w k m.entries

/-- Writing `v` at `k` gives its weight and the weighted sum of the map without
`k`. -/
theorem weightSum_insert (w : V → M) (m : AList fun _ : K => V) (k : K) (v : V) :
    weightSum w (m.insert k v) = w v + weightSum w (m.erase k) := by
  simp only [weightSum, AList.entries_insert, List.map_cons, List.sum_cons]
  rfl

end Weight

end MapSum
