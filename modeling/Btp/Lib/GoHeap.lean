import Mathlib

/-!
# Go's `container/heap`

The algorithms of Go's `container/heap` (Go 1.12) over a slice, modelled as an
array, ordered by the `Less` of the slice's `heap.Interface`. The slice is a
binary tree in level order: the parent of `j > 0` is `(j - 1) / 2`. `down`
sifts an entry towards the leaves within the first `n` entries, `up` towards
the root, and `Init`, `Push`, `Pop`, `Remove` and `Fix` are built from them.
An index past the end, where Go would panic, leaves the slice as it is; no
operation below passes one.

The lemmas hold whenever `Less` compares entries by a key into a linear order.
Every operation permutes the entries and leaves a heap: no entry's key is
below its parent's, so the root's key is the least.
-/

namespace GoHeap

section Ops

variable {α : Type} (less : α → α → Bool)

/-- `up(h, j)`: swap the entry at `j` with its parent while it is less. -/
def up (a : Array α) (j : Nat) : Array α :=
  if hj : j < a.size then
    if (j - 1) / 2 = j then a
    else if less a[j] a[(j - 1) / 2] then up (a.swap ((j - 1) / 2) j) ((j - 1) / 2)
    else a
  else a
termination_by j

/-- The child `down` compares an entry with: the left child `2i+1`, or the
right one if it is less than the left. -/
def child (a : Array α) (n i : Nat) (hn : n ≤ a.size) : Nat :=
  if h2 : 2 * i + 2 < n then
    if less a[2 * i + 2] a[2 * i + 1] then 2 * i + 2 else 2 * i + 1
  else 2 * i + 1

theorem child_lt {a : Array α} {n i : Nat} (hn : n ≤ a.size) (h1 : 2 * i + 1 < n) :
    child less a n i hn < n := by
  unfold child
  split_ifs <;> omega

theorem child_gt {a : Array α} {n : Nat} (hn : n ≤ a.size) (i : Nat) :
    i < child less a n i hn := by
  unfold child
  split_ifs <;> omega

/-- The loop of `down(h, i0, n)` from position `i`: the slice and the
position the entry ends at. -/
def downLoop (a : Array α) (n : Nat) (hn : n ≤ a.size) (i : Nat) : Array α × Nat :=
  if h1 : 2 * i + 1 < n then
    have hj : child less a n i hn < n := child_lt less hn h1
    if less a[child less a n i hn] a[i] then
      downLoop (a.swap i (child less a n i hn)) n (by simpa using hn) (child less a n i hn)
    else (a, i)
  else (a, i)
termination_by n - i
decreasing_by
  have := child_gt less hn i
  omega

/-- `down(h, i0, n)`: the slice, and whether the entry moved. -/
def down (a : Array α) (i0 n : Nat) (hn : n ≤ a.size) : Array α × Bool :=
  let r := downLoop less a n hn i0
  (r.1, decide (r.2 > i0))

end Ops

/-! ## Sizes -/

section Sizes

variable {α : Type} {less : α → α → Bool}

@[simp] theorem size_up (a : Array α) (j : Nat) : (up less a j).size = a.size := by
  induction a, j using up.induct less with
  | case1 a j hj h0 => rw [up, dif_pos hj, if_pos h0]
  | case2 a j hj h0 hl ih => rw [up, dif_pos hj, if_neg h0, if_pos hl, ih, Array.size_swap]
  | case3 a j hj h0 hl => rw [up, dif_pos hj, if_neg h0, if_neg hl]
  | case4 a j hj => rw [up, dif_neg hj]

@[simp] theorem size_downLoop (a : Array α) (n : Nat) (hn : n ≤ a.size) (i : Nat) :
    (downLoop less a n hn i).1.size = a.size := by
  induction a, hn, i using downLoop.induct less n with
  | case1 a hn i h1 hj hl ih => rw [downLoop, dif_pos h1, if_pos hl, ih, Array.size_swap]
  | case2 a hn i h1 hj hl => rw [downLoop, dif_pos h1, if_neg hl]
  | case3 a hn i h1 => rw [downLoop, dif_neg h1]

theorem down_fst (a : Array α) (i0 n : Nat) (hn : n ≤ a.size) :
    (down less a i0 n hn).1 = (downLoop less a n hn i0).1 := rfl

theorem down_snd (a : Array α) (i0 n : Nat) (hn : n ≤ a.size) :
    (down less a i0 n hn).2 = decide ((downLoop less a n hn i0).2 > i0) := rfl

@[simp] theorem size_down (a : Array α) (i0 n : Nat) (hn : n ≤ a.size) :
    (down less a i0 n hn).1.size = a.size :=
  size_downLoop a n hn i0

end Sizes

section Ops

variable {α : Type} (less : α → α → Bool)

/-- The step shared by `heap.Fix` and `heap.Remove`: `down` from `i` within
the first `n` entries, and `up` from `i` if the entry did not move. -/
def downUp (a : Array α) (i n : Nat) (hn : n ≤ a.size) : Array α :=
  if !(down less a i n hn).2 then up less (down less a i n hn).1 i else (down less a i n hn).1

/-- The loop of `heap.Init`: `down` at `i - 1`, then below it down to `0`. -/
def initLoop (a : Array α) : Nat → Array α
  | 0 => a
  | i + 1 => initLoop (down less a i a.size le_rfl).1 i

/-- `heap.Init`: `down` at every node from `n/2 - 1` down to `0`. -/
def Init (a : Array α) : Array α := initLoop less a (a.size / 2)

/-- `heap.Push`: append, then `up` from the end. -/
def Push (a : Array α) (x : α) : Array α := up less (a.push x) a.size

/-- `heap.Pop`: the root is swapped to the end, the new root moved `down`
within the others, and the end popped and returned. -/
def Pop (a : Array α) (h : 0 < a.size) : Array α × α :=
  let b := (down less (a.swap 0 (a.size - 1)) 0 (a.size - 1) (by simp)).1
  have hb : b.size = a.size := by simp [b]
  (b.pop, b[b.size - 1])

/-- `heap.Remove(h, i)`: unless it is the last, the entry at `i` is swapped to
the end and the entry put in its place moved within the others; then the end
is popped and returned. -/
def Remove (a : Array α) (i : Nat) (hi : i < a.size) : Array α × α :=
  let n := a.size - 1
  let b := if n ≠ i then downUp less (a.swap i n) i n (by simp [n]) else a
  have hb : b.size = a.size := by
    simp only [b]
    split_ifs <;> simp [downUp]
    split_ifs <;> simp
  (b.pop, b[b.size - 1])

/-- `heap.Fix(h, i)`: the entry at `i` is moved `down`, or `up` if it did not
move down. -/
def Fix (a : Array α) (i : Nat) : Array α := downUp less a i a.size le_rfl

end Ops

section Sizes

variable {α : Type} {less : α → α → Bool}

@[simp] theorem size_Pop (a : Array α) (h : 0 < a.size) : (Pop less a h).1.size = a.size - 1 := by
  simp [Pop]

@[simp] theorem size_Push (a : Array α) (x : α) : (Push less a x).size = a.size + 1 := by
  simp [Push]

@[simp] theorem size_initLoop (a : Array α) (i : Nat) : (initLoop less a i).size = a.size := by
  induction i generalizing a with
  | zero => rfl
  | succ i ih => rw [initLoop, ih, size_down]

@[simp] theorem size_Init (a : Array α) : (Init less a).size = a.size := size_initLoop a _

end Sizes

/-! ## Entries: permuted, and untouched outside the moves -/

section Perm

variable {α : Type} {less : α → α → Bool}

theorem up_perm (a : Array α) (j : Nat) : (up less a j).Perm a := by
  induction a, j using up.induct less with
  | case1 a j hj h0 =>
    rw [up, dif_pos hj, if_pos h0]
  | case2 a j hj h0 hl ih =>
    rw [up, dif_pos hj, if_neg h0, if_pos hl]
    exact ih.trans (Array.swap_perm _ _)
  | case3 a j hj h0 hl =>
    rw [up, dif_pos hj, if_neg h0, if_neg hl]
  | case4 a j hj =>
    rw [up, dif_neg hj]

theorem downLoop_perm (a : Array α) (n : Nat) (hn : n ≤ a.size) (i : Nat) :
    (downLoop less a n hn i).1.Perm a := by
  induction a, hn, i using downLoop.induct less n with
  | case1 a hn i h1 hj hl ih =>
    rw [downLoop, dif_pos h1, if_pos hl]
    exact ih.trans (Array.swap_perm _ _)
  | case2 a hn i h1 hj hl =>
    rw [downLoop, dif_pos h1, if_neg hl]
  | case3 a hn i h1 =>
    rw [downLoop, dif_neg h1]

theorem downUp_perm (a : Array α) (i n : Nat) (hn : n ≤ a.size) :
    (downUp less a i n hn).Perm a := by
  rw [downUp]
  split
  · exact (up_perm _ i).trans (downLoop_perm a n hn i)
  · exact downLoop_perm a n hn i

@[simp] theorem size_downUp (a : Array α) (i n : Nat) (hn : n ≤ a.size) :
    (downUp less a i n hn).size = a.size :=
  (downUp_perm a i n hn).size_eq

/-- `up` from `j` moves only `j` and entries before it. -/
theorem getElem?_up_of_gt (a : Array α) {j k : Nat} (hjk : j < k) : (up less a j)[k]? = a[k]? := by
  induction a, j using up.induct less with
  | case1 a j hj h0 => rw [up, dif_pos hj, if_pos h0]
  | case2 a j hj h0 hl ih =>
    rw [up, dif_pos hj, if_neg h0, if_pos hl, ih (by omega), Array.getElem?_swap,
      if_neg (by omega), if_neg (by omega)]
  | case3 a j hj h0 hl => rw [up, dif_pos hj, if_neg h0, if_neg hl]
  | case4 a j hj => rw [up, dif_neg hj]

/-- `down` within the first `n` entries moves none of the others. -/
theorem getElem?_downLoop_of_ge (a : Array α) (n : Nat) (hn : n ≤ a.size) (i : Nat) {k : Nat}
    (hk : n ≤ k) : (downLoop less a n hn i).1[k]? = a[k]? := by
  induction a, hn, i using downLoop.induct less n with
  | case1 a hn i h1 hj hl ih =>
    rw [downLoop, dif_pos h1, if_pos hl, ih, Array.getElem?_swap, if_neg (by omega),
      if_neg (by omega)]
  | case2 a hn i h1 hj hl => rw [downLoop, dif_pos h1, if_neg hl]
  | case3 a hn i h1 => rw [downLoop, dif_neg h1]

theorem getElem?_downUp_of_ge (a : Array α) {i n : Nat} (hn : n ≤ a.size) (hi : i < n) {k : Nat}
    (hk : n ≤ k) : (downUp less a i n hn)[k]? = a[k]? := by
  rw [downUp]
  split
  · rw [getElem?_up_of_gt _ (by omega), down_fst, getElem?_downLoop_of_ge a n hn i hk]
  · rw [down_fst, getElem?_downLoop_of_ge a n hn i hk]

end Perm

/-! ## Heaps -/

section Heap

variable {α β : Type} [LinearOrder β]

/-- `Less` compares entries by `key`. -/
def KeyedBy (less : α → α → Bool) (key : α → β) : Prop :=
  ∀ x y, less x y = true ↔ key x < key y

/-- Among the first `n` entries, none whose parent is at `k` or beyond has a
key below its parent's. -/
def HeapFrom (key : α → β) (a : Array α) (n k : Nat) : Prop :=
  ∀ j (hj : j < a.size), j < n → 0 < j → k ≤ (j - 1) / 2 → key a[(j - 1) / 2] ≤ key a[j]

/-- The first `n` entries are a heap. -/
def IsHeap (key : α → β) (a : Array α) (n : Nat) : Prop := HeapFrom key a n 0

variable {less : α → α → Bool} {key : α → β}

theorem KeyedBy.eq_false_iff (hk : KeyedBy less key) {x y : α} :
    less x y = false ↔ key y ≤ key x := by
  rw [← not_lt, ← hk x y, Bool.not_eq_true]

theorem IsHeap.mono {a : Array α} {n m : Nat} (h : IsHeap key a n) (hm : m ≤ n) :
    IsHeap key a m :=
  fun j hj hjm hj0 hk => h j hj (by omega) hj0 hk

/-- The root of a heap has the least key: each entry's key is at least its
parent's, and the parents lead to the root. -/
theorem IsHeap.root_le {a : Array α} {n : Nat} (h : IsHeap key a n) (j : Nat) (hj : j < a.size)
    (hjn : j < n) : key a[0] ≤ key a[j] := by
  induction j using Nat.strong_induction_on with
  | _ j ih =>
    rcases Nat.eq_zero_or_pos j with rfl | hpos
    · exact le_rfl
    · have hparent : key a[0] ≤ key a[(j - 1) / 2] := ih _ (by omega) (by omega) (by omega)
      exact hparent.trans (h j hj hjn hpos (Nat.zero_le _))

end Heap

/-! ## Moving an entry down -/

section Down

variable {α β : Type} [LinearOrder β] {less : α → α → Bool} {key : α → β}

theorem child_parent (less : α → α → Bool) (a : Array α) (n i : Nat) (hn : n ≤ a.size) :
    (child less a n i hn - 1) / 2 = i := by
  unfold child
  split_ifs <;> omega

/-- The child `down` picks has the least key among the children. -/
theorem child_le (hk : KeyedBy less key) {a : Array α} {n i : Nat} (hn : n ≤ a.size)
    (hc : child less a n i hn < n) (j : Nat) (hj : j < a.size) (hjn : j < n) (hj0 : 0 < j)
    (hji : (j - 1) / 2 = i) : key a[child less a n i hn] ≤ key a[j] := by
  have hj12 : j = 2 * i + 1 ∨ j = 2 * i + 2 := by omega
  unfold child
  split_ifs with h2 hl
  · -- the right child is less than the left one
    rcases hj12 with rfl | rfl
    · exact le_of_lt ((hk _ _).1 hl)
    · exact le_rfl
  · rcases hj12 with rfl | rfl
    · exact le_rfl
    · exact (hk.eq_false_iff.1 (Bool.eq_false_iff.2 hl))
  · rcases hj12 with rfl | rfl
    · exact le_rfl
    · omega

/-- The first `n` entries are a heap from level `k` on but for the entry at
`i`, which may be above its children; its parent is no greater than them. -/
structure DownReady (key : α → β) (a : Array α) (n k i : Nat) : Prop where
  le : k ≤ i
  ordered : ∀ j (hj : j < a.size), j < n → 0 < j → k ≤ (j - 1) / 2 → (j - 1) / 2 ≠ i →
    key a[(j - 1) / 2] ≤ key a[j]
  grand : ∀ j (hj : j < a.size), j < n → 0 < j → ∀ (_ : (j - 1) / 2 = i), 0 < i →
    k ≤ (i - 1) / 2 → key a[(i - 1) / 2] ≤ key a[j]

/-- Swapping the entry with the child `down` picks moves the exception one
level down. -/
theorem DownReady.swap (hk : KeyedBy less key) {a : Array α} {n k i : Nat} (hn : n ≤ a.size)
    (h : DownReady key a n k i) (hc : child less a n i hn < n) (hi : i < n)
    (hl : less a[child less a n i hn] a[i] = true) :
    DownReady key (a.swap i (child less a n i hn)) n k (child less a n i hn) := by
  have hci : (child less a n i hn - 1) / 2 = i := child_parent less a n i hn
  have hic : i < child less a n i hn := child_gt less hn i
  have hlt : key a[child less a n i hn] < key a[i] := (hk _ _).1 hl
  refine ⟨h.le.trans hic.le, ?_, ?_⟩
  · intro j hj hjn hj0 hkj hjc
    rw [Array.size_swap] at hj
    by_cases hjc' : j = child less a n i hn
    · -- the entry, now below its old child
      simp only [hjc', hci, Array.getElem_swap_left, Array.getElem_swap_right]
      exact hlt.le
    by_cases hji : j = i
    · -- the child, now in the entry's place below the entry's parent
      subst hji
      have hgrand := h.grand _ (by omega) hc (by omega) hci hj0 hkj
      rw [Array.getElem_swap_of_ne (by omega) (by omega), Array.getElem_swap_left]
      exact hgrand
    by_cases hpi : (j - 1) / 2 = i
    · -- a sibling of the child, below the child now in the parent's place
      have hle := child_le hk hn hc j hj hjn hj0 hpi
      simp only [hpi, Array.getElem_swap_left]
      rw [Array.getElem_swap_of_ne hji hjc']
      exact hle
    · rw [Array.getElem_swap_of_ne hpi hjc, Array.getElem_swap_of_ne hji hjc']
      exact h.ordered j hj hjn hj0 hkj hpi
  · intro j hj hjn hj0 hjc hc0 hkc
    rw [Array.size_swap] at hj
    have hcj : child less a n i hn < j := by omega
    have hord := h.ordered j hj hjn hj0 (by omega) (by omega)
    simp only [hci, Array.getElem_swap_left]
    rw [Array.getElem_swap_of_ne (by omega) (by omega)]
    simpa only [hjc] using hord

/-- `down` leaves the first `n` entries a heap from level `k` on. -/
theorem DownReady.downLoop (hk : KeyedBy less key) {a : Array α} {n k i : Nat} (hn : n ≤ a.size)
    (h : DownReady key a n k i) : HeapFrom key (downLoop less a n hn i).1 n k := by
  induction a, hn, i using GoHeap.downLoop.induct less n with
  | case1 a hn i h1 hc hl ih =>
    rw [GoHeap.downLoop, dif_pos h1, if_pos hl]
    exact ih (h.swap hk hn hc (by omega) hl)
  | case2 a hn i h1 hc hl =>
    -- the entry is no greater than its children
    rw [GoHeap.downLoop, dif_pos h1, if_neg hl]
    intro j hj hjn hj0 hkj
    by_cases hji : (j - 1) / 2 = i
    · have hle : key a[i] ≤ key a[child less a n i hn] :=
        hk.eq_false_iff.1 (Bool.eq_false_iff.2 hl)
      have hcj := child_le hk hn hc j hj hjn hj0 hji
      simp only [hji]
      exact hle.trans hcj
    · exact h.ordered j hj hjn hj0 hkj hji
  | case3 a hn i h1 =>
    -- the entry has no child
    rw [GoHeap.downLoop, dif_neg h1]
    intro j hj hjn hj0 hkj
    exact h.ordered j hj hjn hj0 hkj (by omega)

end Down

/-! ## Moving an entry up -/

section Up

variable {α β : Type} [LinearOrder β] {less : α → α → Bool} {key : α → β}

/-- The first `n` entries are a heap but for the entry at `i`, which may be
below its parent; that parent is no greater than the entry's children. -/
structure UpReady (key : α → β) (a : Array α) (n i : Nat) : Prop where
  lt : i < n
  ordered : ∀ j (hj : j < a.size), j < n → 0 < j → j ≠ i → key a[(j - 1) / 2] ≤ key a[j]
  grand : ∀ j (hj : j < a.size), j < n → 0 < j → ∀ (_ : (j - 1) / 2 = i), 0 < i →
    key a[(i - 1) / 2] ≤ key a[j]

/-- Swapping the entry with its greater parent moves the exception one level
up. -/
theorem UpReady.swap (hk : KeyedBy less key) {a : Array α} {n i : Nat}
    (h : UpReady key a n i) (hi : i < a.size) (hi0 : 0 < i)
    (hl : less a[i] a[(i - 1) / 2] = true) :
    UpReady key (a.swap ((i - 1) / 2) i) n ((i - 1) / 2) := by
  have hin : i < n := h.lt
  have hlt : key a[i] < key a[(i - 1) / 2] := (hk _ _).1 hl
  refine ⟨by omega, ?_, ?_⟩
  · intro j hj hjn hj0 hjp
    rw [Array.size_swap] at hj
    by_cases hji : j = i
    · -- the entry, now above its old parent
      subst hji
      simp only [Array.getElem_swap_left, Array.getElem_swap_right]
      exact hlt.le
    by_cases hpi : (j - 1) / 2 = i
    · -- a child of the entry, below the old parent now in its place
      have hgrand := h.grand j hj hjn hj0 hpi hi0
      simp only [hpi, Array.getElem_swap_right]
      rw [Array.getElem_swap_of_ne hjp hji]
      exact hgrand
    by_cases hpp : (j - 1) / 2 = (i - 1) / 2
    · -- a sibling of the entry, below the entry now in the parent's place
      have hord := h.ordered j hj hjn hj0 hji
      simp only [hpp, Array.getElem_swap_left]
      rw [Array.getElem_swap_of_ne hjp hji]
      simp only [hpp] at hord
      exact hlt.le.trans hord
    · rw [Array.getElem_swap_of_ne hpp hpi, Array.getElem_swap_of_ne hjp hji]
      exact h.ordered j hj hjn hj0 hji
  · intro j hj hjn hj0 hjp hp0
    rw [Array.size_swap] at hj
    -- the grandparent is above the old parent, which is above every child of it
    have hpar := h.ordered ((i - 1) / 2) (by omega) (by omega) hp0 (by omega)
    rw [Array.getElem_swap_of_ne (by omega) (by omega)]
    by_cases hji : j = i
    · subst hji
      rw [Array.getElem_swap_right]
      exact hpar
    · have hord := h.ordered j hj hjn hj0 hji
      rw [Array.getElem_swap_of_ne (by omega) hji]
      simp only [hjp] at hord
      exact hpar.trans hord

/-- `up` leaves the first `n` entries a heap. -/
theorem UpReady.up (hk : KeyedBy less key) {a : Array α} {n i : Nat} (hn : n ≤ a.size)
    (h : UpReady key a n i) : IsHeap key (up less a i) n := by
  induction a, i using GoHeap.up.induct less with
  | case1 a j hj h0 =>
    -- at the root every other entry is in place
    rw [GoHeap.up, dif_pos hj, if_pos h0]
    intro m hm hmn hm0 _
    exact h.ordered m hm hmn hm0 (by omega)
  | case2 a j hj h0 hl ih =>
    rw [GoHeap.up, dif_pos hj, if_neg h0, if_pos hl]
    exact ih (by simpa using hn) (h.swap hk hj (by omega) hl)
  | case3 a j hj h0 hl =>
    -- the entry is no less than its parent
    rw [GoHeap.up, dif_pos hj, if_neg h0, if_neg hl]
    intro m hm hmn hm0 _
    by_cases hmj : m = j
    · subst hmj
      exact hk.eq_false_iff.1 (Bool.eq_false_iff.2 hl)
    · exact h.ordered m hm hmn hm0 hmj
  | case4 a j hj => exact absurd (h.lt.trans_le hn) hj

/-- In a heap `up` has nothing to do: any entry is an exception to nothing. -/
theorem IsHeap.upReady {a : Array α} {n i : Nat} (h : IsHeap key a n) (hin : i < n)
    (hn : n ≤ a.size) : UpReady key a n i := by
  refine ⟨hin, fun j hj hjn hj0 _ => h j hj hjn hj0 (Nat.zero_le _), ?_⟩
  intro j hj hjn hj0 hji hi0
  have hpar := h i (by omega) hin hi0 (Nat.zero_le _)
  have hord := h j hj hjn hj0 (Nat.zero_le _)
  simp only [hji] at hord
  exact hpar.trans hord

end Up

/-! ## The operations -/

section Operations

variable {α β : Type} [LinearOrder β] {less : α → α → Bool} {key : α → β}

/-- The first `n` entries are a heap but for the entry at `i`, which may be
out of place either way; its parent is no greater than its children. -/
structure FixReady (key : α → β) (a : Array α) (n i : Nat) : Prop where
  lt : i < n
  ordered : ∀ j (hj : j < a.size), j < n → 0 < j → j ≠ i → (j - 1) / 2 ≠ i →
    key a[(j - 1) / 2] ≤ key a[j]
  grand : ∀ j (hj : j < a.size), j < n → 0 < j → ∀ (_ : (j - 1) / 2 = i), 0 < i →
    key a[(i - 1) / 2] ≤ key a[j]

/-- An array that agrees with a heap on its first `n` entries but at `i` is a
heap but for `i`. -/
theorem IsHeap.fixReady {a b : Array α} {m n i : Nat} (h : IsHeap key a m) (hnm : n ≤ m)
    (hi : i < n) (hna : n ≤ a.size) (hnb : n ≤ b.size)
    (hagree : ∀ j, j < n → j ≠ i → b[j]? = a[j]?) : FixReady key b n i := by
  have hget : ∀ j (hj : j < n), j ≠ i → b[j] = a[j] := fun j hj hji => by
    have := hagree j hj hji
    rwa [Array.getElem?_eq_getElem, Array.getElem?_eq_getElem, Option.some.injEq] at this
  refine ⟨hi, fun j hj hjn hj0 hji hpi => ?_, fun j hj hjn hj0 hpi hi0 => ?_⟩
  · rw [hget j hjn hji, hget _ (by omega) hpi]
    exact h j (by omega) (by omega) hj0 (Nat.zero_le _)
  · -- the parent of `i` is above `i` in `a`, which is above `j`
    have hpar := h i (by omega) (by omega) hi0 (Nat.zero_le _)
    have hord := h j (by omega) (by omega) hj0 (Nat.zero_le _)
    simp only [hpi] at hord
    rw [hget _ (by omega) (by omega), hget j hjn (by omega)]
    exact hpar.trans hord

/-- An entry no greater than its children stays where it is. -/
theorem downLoop_of_le (hk : KeyedBy less key) {a : Array α} {n i : Nat} (hn : n ≤ a.size)
    (hle : ∀ j (hj : j < a.size), j < n → 0 < j → (j - 1) / 2 = i → ∀ (hi : i < a.size),
      key a[i] ≤ key a[j]) :
    downLoop less a n hn i = (a, i) := by
  rw [GoHeap.downLoop]
  by_cases h1 : 2 * i + 1 < n
  · have hc := child_lt less hn h1
    have hci := child_gt less hn i
    have hge := hle _ (by omega) hc (by omega) (child_parent less a n i hn) (by omega)
    have hl : less a[child less a n i hn] a[i] = false := hk.eq_false_iff.2 hge
    rw [dif_pos h1]
    simp [hl]
  · rw [dif_neg h1]

/-- `down`, then `up` if the entry did not move, puts the exception in place:
an entry below its parent is no greater than its children and goes up; any
other goes down, and `up` then has nothing to do. -/
theorem FixReady.downUp (hk : KeyedBy less key) {a : Array α} {n i : Nat} (hn : n ≤ a.size)
    (h : FixReady key a n i) : IsHeap key (downUp less a i n hn) n := by
  have hi : i < a.size := by have := h.lt; omega
  by_cases hup : 0 < i ∧ key a[i] < key a[(i - 1) / 2]
  · have hle : ∀ j (hj : j < a.size), j < n → 0 < j → (j - 1) / 2 = i → ∀ (hi : i < a.size),
        key a[i] ≤ key a[j] :=
      fun j hj hjn hj0 hji _ => hup.2.le.trans (h.grand j hj hjn hj0 hji hup.1)
    have hdown := downLoop_of_le hk hn hle
    have hready : UpReady key a n i := by
      refine ⟨h.lt, fun j hj hjn hj0 hji => ?_, h.grand⟩
      by_cases hpi : (j - 1) / 2 = i
      · have hgrand := h.grand j hj hjn hj0 hpi hup.1
        simp only [hpi]
        exact hup.2.le.trans hgrand
      · exact h.ordered j hj hjn hj0 hji hpi
    rw [GoHeap.downUp, down_snd, down_fst, hdown]
    simp only [gt_iff_lt, lt_self_iff_false, decide_false, Bool.not_false, if_true]
    exact hready.up hk hn
  · have hready : DownReady key a n 0 i := by
      refine ⟨Nat.zero_le _, fun j hj hjn hj0 _ hpi => ?_, fun j hj hjn hj0 hpi hi0 _ =>
        h.grand j hj hjn hj0 hpi hi0⟩
      by_cases hji : j = i
      · subst hji
        exact not_lt.1 fun hlt => hup ⟨hj0, hlt⟩
      · exact h.ordered j hj hjn hj0 hji hpi
    have hheap : IsHeap key (downLoop less a n hn i).1 n := hready.downLoop hk hn
    have hn' : n ≤ (downLoop less a n hn i).1.size := by simpa using hn
    rw [GoHeap.downUp, down_fst]
    split
    · exact (hheap.upReady h.lt hn').up hk hn'
    · exact hheap

theorem IsHeap.pop {a : Array α} (h : IsHeap key a (a.size - 1)) : IsHeap key a.pop a.pop.size := by
  intro j hj hjn hj0 _
  have hja : j < a.size - 1 := by rwa [Array.size_pop] at hjn
  rw [Array.getElem_pop, Array.getElem_pop]
  exact h j (by omega) hja hj0 (Nat.zero_le _)

theorem push_pop_getElem {a : Array α} (h : 0 < a.size) : a.pop.push a[a.size - 1] = a := by
  refine Array.ext (by simp; omega) fun j hj _ => ?_
  by_cases hjl : j < a.pop.size
  · rw [Array.getElem_push_lt hjl, Array.getElem_pop]
  · have hjs : j = a.pop.size := by rw [Array.size_push] at hj; omega
    subst hjs
    rw [Array.getElem_push_eq]
    simp

theorem toList_pop_append {a : Array α} (h : 0 < a.size) :
    a.pop.toList ++ [a[a.size - 1]] = a.toList := by
  rw [← Array.toList_push, push_pop_getElem h]

/-- `Init` makes a heap of any array: before `down` at `i`, every node past
`i` roots a heap. -/
theorem initLoop_heap (hk : KeyedBy less key) (a : Array α) (i : Nat)
    (h : HeapFrom key a a.size i) : IsHeap key (initLoop less a i) (initLoop less a i).size := by
  induction i generalizing a with
  | zero => exact h
  | succ i ih =>
    rw [initLoop]
    apply ih
    have hready : DownReady key a a.size i i :=
      ⟨le_rfl, fun j hj hjn hj0 hij hji => h j hj hjn hj0 (by omega),
        fun j hj hjn hj0 hji hi0 hii => absurd hii (by omega)⟩
    rw [size_down, down_fst]
    exact hready.downLoop hk le_rfl

theorem initLoop_perm (a : Array α) (i : Nat) : (initLoop less a i).Perm a := by
  induction i generalizing a with
  | zero => exact Array.Perm.refl a
  | succ i ih =>
    rw [initLoop]
    exact (ih _).trans (downLoop_perm a a.size le_rfl i)

theorem Init_heap (hk : KeyedBy less key) (a : Array α) :
    IsHeap key (Init less a) (Init less a).size :=
  -- no node from `n/2` on has a child
  initLoop_heap hk a _ fun j hj hjn hj0 hkj => absurd hkj (by omega)

theorem Init_perm (a : Array α) : (Init less a).Perm a := initLoop_perm a _

theorem IsHeap.Push (hk : KeyedBy less key) {a : Array α} (h : IsHeap key a a.size) (x : α) :
    IsHeap key (Push less a x) (Push less a x).size := by
  have hready : UpReady key (a.push x) (a.size + 1) a.size := by
    refine ⟨Nat.lt_succ_self _, fun j hj hjn hj0 hji => ?_, fun j hj hjn hj0 hpi hi0 => ?_⟩
    · have hja : j < a.size := by omega
      rw [Array.getElem_push_lt hja, Array.getElem_push_lt (by omega)]
      exact h j hja hja hj0 (Nat.zero_le _)
    · omega
  rw [GoHeap.Push, size_up, Array.size_push]
  exact hready.up hk (by simp)

theorem Push_perm (a : Array α) (x : α) : (Push less a x).Perm (a.push x) := up_perm _ _

/-- Popping the end of an array of the entries whose others are a heap: the
end is returned and the rest is a heap. -/
theorem popEnd_spec {a b : Array α} {x : α} (hb : 0 < b.size) (hsize : b.size = a.size)
    (hlast : b[a.size - 1]? = some x) (hheap : IsHeap key b (a.size - 1)) (hperm : b.Perm a) :
    b[b.size - 1] = x ∧ IsHeap key b.pop b.pop.size ∧
      (b.pop.toList ++ [b[b.size - 1]]).Perm a.toList := by
  refine ⟨?_, IsHeap.pop (by rw [hsize]; exact hheap), ?_⟩
  · rw [Array.getElem?_eq_getElem (by rw [hsize]; omega), Option.some.injEq] at hlast
    simpa only [hsize] using hlast
  · rw [toList_pop_append (by omega)]
    exact hperm.toList

/-- `Pop` returns the root, and leaves a heap of the other entries. -/
theorem IsHeap.Pop (hk : KeyedBy less key) {a : Array α} (h : IsHeap key a a.size)
    (h0 : 0 < a.size) :
    (Pop less a h0).2 = a[0] ∧ IsHeap key (Pop less a h0).1 (Pop less a h0).1.size ∧
      ((Pop less a h0).1.toList ++ [(Pop less a h0).2]).Perm a.toList := by
  -- the root swapped to the end, and the new root moved down within the others
  have hn : a.size - 1 ≤ (a.swap 0 (a.size - 1)).size := by simp
  have hready : DownReady key (a.swap 0 (a.size - 1)) (a.size - 1) 0 0 := by
    refine ⟨le_rfl, fun j hj hjn hj0 _ hp0 => ?_, fun j hj hjn hj0 hp0 h00 => absurd h00 (by omega)⟩
    rw [Array.getElem_swap_of_ne hp0 (by omega), Array.getElem_swap_of_ne (by omega) (by omega)]
    exact h j (by omega) (by omega) hj0 (Nat.zero_le _)
  have hheap : IsHeap key (downLoop less (a.swap 0 (a.size - 1)) (a.size - 1) hn 0).1
      (a.size - 1) := hready.downLoop hk hn
  have hsize : (downLoop less (a.swap 0 (a.size - 1)) (a.size - 1) hn 0).1.size = a.size := by simp
  have hlast : (downLoop less (a.swap 0 (a.size - 1)) (a.size - 1) hn 0).1[a.size - 1]? =
      some a[0] := by
    rw [getElem?_downLoop_of_ge _ _ _ _ le_rfl, Array.getElem?_swap, if_pos rfl]
  have hperm : (downLoop less (a.swap 0 (a.size - 1)) (a.size - 1) hn 0).1.Perm a :=
    (downLoop_perm _ _ hn 0).trans (Array.swap_perm _ _)
  simp only [GoHeap.Pop, down_fst]
  exact popEnd_spec (by rw [hsize]; exact h0) hsize hlast hheap hperm

/-- `Remove` returns the entry at `i`, and leaves a heap of the other
entries. -/
theorem IsHeap.Remove (hk : KeyedBy less key) {a : Array α} (h : IsHeap key a a.size) {i : Nat}
    (hi : i < a.size) :
    (Remove less a i hi).2 = a[i] ∧ IsHeap key (Remove less a i hi).1 (Remove less a i hi).1.size ∧
      ((Remove less a i hi).1.toList ++ [(Remove less a i hi).2]).Perm a.toList := by
  by_cases hni : a.size - 1 ≠ i
  · -- the last entry is put at `i` and moved into place
    have hn : a.size - 1 ≤ (a.swap i (a.size - 1)).size := by simp
    have hfix : FixReady key (a.swap i (a.size - 1)) (a.size - 1) i :=
      h.fixReady (Nat.sub_le _ _) (by omega) (by omega) (by simp) fun j hj hji => by
        rw [Array.getElem?_swap, if_neg (by omega), if_neg (Ne.symm hji)]
    have hsize : (downUp less (a.swap i (a.size - 1)) i (a.size - 1) hn).size = a.size := by simp
    have hlast : (downUp less (a.swap i (a.size - 1)) i (a.size - 1) hn)[a.size - 1]? =
        some a[i] := by
      rw [getElem?_downUp_of_ge _ hn (by omega) le_rfl, Array.getElem?_swap, if_pos rfl]
    have hperm : (downUp less (a.swap i (a.size - 1)) i (a.size - 1) hn).Perm a :=
      (downUp_perm _ _ _ hn).trans (Array.swap_perm _ _)
    simp only [GoHeap.Remove, if_pos hni]
    exact popEnd_spec (by rw [hsize]; omega) hsize hlast (hfix.downUp hk hn) hperm
  · -- the entry is the last one, and is popped as it is
    have hlast : a[a.size - 1]? = some a[i] := by
      rw [not_not.1 hni, Array.getElem?_eq_getElem hi]
    simp only [GoHeap.Remove, if_neg hni]
    exact popEnd_spec (by omega) rfl hlast (h.mono (Nat.sub_le _ _)) (Array.Perm.refl a)

/-- `Fix` after the entry at `i` is replaced leaves a heap. -/
theorem IsHeap.Fix (hk : KeyedBy less key) {a : Array α} (h : IsHeap key a a.size) {i : Nat}
    (hi : i < a.size) (x : α) :
    IsHeap key (Fix less (a.set i x) i) (Fix less (a.set i x) i).size ∧
      (Fix less (a.set i x) i).Perm (a.set i x) := by
  have hfix : FixReady key (a.set i x) (a.set i x).size i :=
    h.fixReady (by simp) (by simpa using hi) (by simp) le_rfl fun j _ hji =>
      Array.getElem?_set_ne hi (Ne.symm hji)
  exact ⟨by rw [GoHeap.Fix, size_downUp]; exact hfix.downUp hk le_rfl, downUp_perm _ _ _ _⟩

/-- `Pop` returns an entry whose key is no greater than any that remain. -/
theorem IsHeap.Pop_le (hk : KeyedBy less key) {a : Array α} (h : IsHeap key a a.size)
    (h0 : 0 < a.size) : ∀ x ∈ (GoHeap.Pop less a h0).1, key (GoHeap.Pop less a h0).2 ≤ key x := by
  obtain ⟨hroot, -, hperm⟩ := h.Pop hk h0
  intro x hx
  -- every remaining entry was an entry before, and the root was the least
  have hxa : x ∈ a.toList := hperm.subset (List.mem_append_left _ (Array.mem_toList_iff.2 hx))
  obtain ⟨j, hj, rfl⟩ := List.getElem_of_mem hxa
  rw [hroot]
  simpa using h.root_le j (by simpa using hj) (by simpa using hj)

/-- Pushing entries one after another keeps a heap. -/
theorem IsHeap.foldl_Push (hk : KeyedBy less key) {a : Array α} (h : IsHeap key a a.size)
    (l : List α) :
    IsHeap key (l.foldl (GoHeap.Push less) a) (l.foldl (GoHeap.Push less) a).size := by
  induction l generalizing a with
  | nil => exact h
  | cons x xs ih => exact ih (h.Push hk x)

theorem foldl_Push_perm (a : Array α) (l : List α) :
    (l.foldl (Push less) a).toList.Perm (a.toList ++ l) := by
  induction l generalizing a with
  | nil => simp
  | cons x xs ih =>
    refine (ih (Push less a x)).trans ?_
    have hpush : (Push less a x).Perm (a.push x) := Push_perm a x
    have hx : (Push less a x).toList.Perm (a.toList ++ [x]) := by simpa using hpush.toList
    simpa using hx.append_right xs

end Operations

end GoHeap
