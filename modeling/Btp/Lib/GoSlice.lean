import Mathlib

/-!
# Go slices, read within their length

`l[lo:hi]` of a Go slice panics unless `0 ≤ lo ≤ hi ≤ cap l`. Here a slice
expression is accepted only within the length: a read past the length is an
out-of-range access as well, whatever capacity the backing array has.
`copy(l[lo:hi], src)` writes the first `min (hi - lo) (len src)` elements of
`src` at `lo`.
-/

namespace GoSlice

variable {α : Type}

/-- `l[lo:hi]`, or `none` out of range. -/
def get (l : List α) (lo hi : Int) : Option (List α) :=
  if 0 ≤ lo ∧ lo ≤ hi ∧ hi ≤ l.length then some ((l.drop lo.toNat).take (hi - lo).toNat)
  else none

/-- `copy(l[lo:], src)` for a `src` that fits. -/
def write (l : List α) (lo : Nat) (src : List α) : List α :=
  l.take lo ++ src ++ l.drop (lo + src.length)

/-- `append(l, make([]α, n)...)`: `n` zero values at the end. -/
def grow (l : List α) (zero : α) (n : Nat) : List α := l ++ List.replicate n zero

theorem get_isSome_iff (l : List α) (lo hi : Int) :
    (get l lo hi).isSome ↔ 0 ≤ lo ∧ lo ≤ hi ∧ hi ≤ l.length := by
  unfold get
  split_ifs with h <;> simp [h]

theorem get_of_le {l : List α} {lo hi : Nat} (hle : lo ≤ hi) (hhi : hi ≤ l.length) :
    get l lo hi = some ((l.drop lo).take (hi - lo)) := by
  have hcond : (0 : Int) ≤ lo ∧ (lo : Int) ≤ hi ∧ (hi : Int) ≤ l.length := by omega
  simp only [get, hcond, and_self, if_true, Int.toNat_natCast]
  congr 2
  omega

theorem length_get {l : List α} {lo hi : Int} {s : List α} (h : get l lo hi = some s) :
    s.length = (hi - lo).toNat := by
  unfold get at h
  split_ifs at h with hcond
  obtain rfl := Option.some.inj h
  simp only [List.length_take, List.length_drop]
  omega

@[simp] theorem length_write {l : List α} {lo : Nat} {src : List α} (h : lo + src.length ≤ l.length) :
    (write l lo src).length = l.length := by
  simp only [write, List.length_append, List.length_take, List.length_drop]
  omega

@[simp] theorem length_grow (l : List α) (zero : α) (n : Nat) :
    (grow l zero n).length = l.length + n := by
  simp [grow]

/-- `copy(l[i+1:], l[i:]); l[i] = x`, the insertion of `x` at `i` into a
slice that gives up its last element: the inserted list, cut to the old
length. -/
theorem set_write_drop {l : List α} {i : Nat} (hi : i < l.length) (x : α) :
    (write l (i + 1) ((l.drop i).take (l.length - (i + 1)))).set i x =
      (l.insertIdx i x).take l.length := by
  apply List.ext_getElem
  · simp [write, List.length_insertIdx_of_le_length hi.le]
    omega
  · -- below `i` both keep `l`, at `i` both hold `x`, past it both shift by one
    intro k h1 h2
    simp [write, List.getElem_insertIdx, List.getElem_set]
    grind

/-- `l = append(l, x)` and then the insertion of `x` at `i` that gives up
the last element: the insertion of `x` at `i` into `l`. -/
theorem set_write_drop_append {l : List α} {i : Nat} (hi : i ≤ l.length) (x : α) :
    (write (l ++ [x]) (i + 1) (((l ++ [x]).drop i).take ((l ++ [x]).length - (i + 1)))).set i x =
      l.insertIdx i x := by
  have hlt : i < (l ++ [x]).length := by simp; omega
  rw [set_write_drop hlt]
  apply List.ext_getElem
  · simp [List.length_insertIdx_of_le_length hi, List.length_insertIdx_of_le_length hlt.le]
  · -- the appended `x` is the element cut off
    intro k h1 h2
    simp [List.getElem_insertIdx]
    grind

end GoSlice
