import Mathlib

/-!
# Common types

The fixed-size byte arrays of `common/types.go`, as bit vectors of their
width, and the map type used for Go's `map`: an association list with
distinct keys.
-/

namespace Btp

/-- `common.Hash`: 32 bytes. -/
abbrev Hash := BitVec 256

/-- `common.Address`: 20 bytes. -/
abbrev Address := BitVec 160

/-- `common.HashLength`. -/
def HashLength : Nat := 32

/-- `common.AddressLength`. -/
def AddressLength : Nat := 20

/-- A Go `map[K]V`. Go iterates a map in no fixed order; the model fixes one
by the order of the list, and the results about iteration hold for every
order. -/
abbrev GoMap (K V : Type) := AList (fun _ : K => V)

/-- A loop `for k, v := range m` that stops at the first entry satisfying `p`
finds one exactly when some key maps to a value satisfying `p`, whatever the
order of iteration. -/
theorem GoMap.any_entries_iff {K V : Type} [DecidableEq K] (m : GoMap K V) (p : K → V → Bool) :
    (m.entries.any fun e => p e.1 e.2) = true ↔ ∃ k v, m.lookup k = some v ∧ p k v = true := by
  simp only [List.any_eq_true]
  constructor
  · rintro ⟨⟨k, v⟩, hmem, hp⟩
    exact ⟨k, v, AList.mem_lookup_iff.mpr hmem, hp⟩
  · rintro ⟨k, v, hk, hp⟩
    exact ⟨⟨k, v⟩, AList.mem_lookup_iff.mp hk, hp⟩

end Btp
