import Mathlib

/-!
# Binary search into a sorted list

`sort.Search(n, f)` returns the first index in `[0, n)` at which `f` holds,
for an `f` that is false and then true. Over a list sorted by a key, with
`f i` saying that the key at `i` is not below `k`, that index is where an
element of key `k` is, or where it goes. Inserting there is the ordered
insertion of Mathlib, and on a list whose keys strictly increase, the index
of a key that is there points at its one element, so removing at that index
removes that element.
-/

namespace SortSearch

variable {α κ : Type*} [LinearOrder κ] (key : α → κ)

/-- `sort.Search(len(l), func(i int) bool { return key(l[i]) >= k })`. -/
def lowerBound (l : List α) (k : κ) : Nat := l.findIdx fun b => decide (k ≤ key b)

/-- `sort.Search(len(l), func(i int) bool { return key(l[i]) > k })`: the
first index past every key not above `k`. -/
def upperBound (l : List α) (k : κ) : Nat := l.findIdx fun b => decide (k < key b)

/-- The keys of `l` strictly increase. -/
def StrictlySorted (l : List α) : Prop := l.Pairwise fun a b => key a < key b

instance (l : List α) : Decidable (StrictlySorted key l) :=
  inferInstanceAs (Decidable (l.Pairwise _))

variable {key}

theorem lowerBound_nil (k : κ) : lowerBound key [] k = 0 := rfl

theorem lowerBound_cons (b : α) (l : List α) (k : κ) :
    lowerBound key (b :: l) k = if k ≤ key b then 0 else lowerBound key l k + 1 := by
  by_cases h : k ≤ key b <;> simp [lowerBound, List.findIdx_cons, h]

theorem lowerBound_le_length (l : List α) (k : κ) : lowerBound key l k ≤ l.length :=
  List.findIdx_le_length

theorem upperBound_cons (b : α) (l : List α) (k : κ) :
    upperBound key (b :: l) k = if k < key b then 0 else upperBound key l k + 1 := by
  by_cases h : k < key b <;> simp [upperBound, List.findIdx_cons, h]

/-- Where no key equals `k`, the first key above `k` is the first key not
below it. -/
theorem upperBound_eq_lowerBound {l : List α} {k : κ} (fresh : ∀ b ∈ l, key b ≠ k) :
    upperBound key l k = lowerBound key l k := by
  induction l with
  | nil => rfl
  | cons b l ih =>
    have hlt : k < key b ↔ k ≤ key b :=
      ⟨le_of_lt, fun hle => lt_of_le_of_ne hle (fresh b List.mem_cons_self).symm⟩
    rw [upperBound_cons, lowerBound_cons, ih fun c hc => fresh c (List.mem_cons_of_mem _ hc)]
    simp only [hlt]

/-- Inserting at the lower bound of an element's key is the ordered
insertion. -/
theorem insertIdx_lowerBound (l : List α) (x : α) :
    l.insertIdx (lowerBound key l (key x)) x = l.orderedInsert (fun a b => key a ≤ key b) x := by
  induction l with
  | nil => rfl
  | cons b l ih =>
    rw [lowerBound_cons, List.orderedInsert_cons]
    split_ifs
    · exact List.insertIdx_zero
    · rw [List.insertIdx_succ_cons, ih]

theorem StrictlySorted.sublist {l l' : List α} (hs : StrictlySorted key l) (h : l'.Sublist l) :
    StrictlySorted key l' :=
  List.Pairwise.sublist h hs

theorem StrictlySorted.cons {b : α} {l : List α} (hs : StrictlySorted key (b :: l)) :
    StrictlySorted key l :=
  (List.pairwise_cons.1 hs).2

/-- The ordered insertion of an element whose key is new keeps the keys
strictly increasing. -/
theorem StrictlySorted.orderedInsert {l : List α} {x : α} (hs : StrictlySorted key l)
    (fresh : ∀ b ∈ l, key b ≠ key x) :
    StrictlySorted key (l.orderedInsert (fun a b => key a ≤ key b) x) := by
  induction l with
  | nil => exact List.pairwise_singleton _ x
  | cons b l ih =>
    obtain ⟨hb, hl⟩ := List.pairwise_cons.1 hs
    have hne : key b ≠ key x := fresh b List.mem_cons_self
    rw [List.orderedInsert_cons]
    split_ifs with hle
    · -- `x` goes first: its key is below that of `b`, hence of all of `l`
      have hlt : key x < key b := lt_of_le_of_ne hle hne.symm
      refine List.pairwise_cons.2 ⟨fun c hc => ?_, hs⟩
      rcases List.mem_cons.1 hc with rfl | hc
      · exact hlt
      · exact hlt.trans (hb c hc)
    · -- `x` goes after `b`: every element of the insertion is above `b`
      refine List.pairwise_cons.2 ⟨fun c hc => ?_, ih hl fun c hc => fresh c (List.mem_cons_of_mem _ hc)⟩
      rcases (List.mem_orderedInsert _).1 hc with rfl | hc
      · exact lt_of_not_ge hle
      · exact hb c hc

/-- On a list whose keys strictly increase, the lower bound of the key of an
element points at that element. -/
theorem getElem?_lowerBound {l : List α} {b : α} (hs : StrictlySorted key l) (hb : b ∈ l) :
    l[lowerBound key l (key b)]? = some b := by
  induction l with
  | nil => cases hb
  | cons c l ih =>
    obtain ⟨hc, hl⟩ := List.pairwise_cons.1 hs
    rw [lowerBound_cons]
    rcases List.mem_cons.1 hb with rfl | hb
    · simp
    · -- `c` is below `b`, so the search goes past it
      have hlt : key c < key b := hc b hb
      rw [if_neg (not_le_of_gt hlt)]
      exact ih hl hb

/-- Removing at the lower bound of the key of an element of a list whose keys
strictly increase removes that element. -/
theorem eraseIdx_lowerBound [DecidableEq α] {l : List α} {b : α} (hs : StrictlySorted key l)
    (hb : b ∈ l) : l.eraseIdx (lowerBound key l (key b)) = l.erase b := by
  induction l with
  | nil => cases hb
  | cons c l ih =>
    obtain ⟨hc, hl⟩ := List.pairwise_cons.1 hs
    rw [lowerBound_cons]
    rcases List.mem_cons.1 hb with rfl | hb
    · simp
    · have hlt : key c < key b := hc b hb
      have hne : c ≠ b := fun h => (h ▸ hlt).false
      rw [if_neg (not_le_of_gt hlt), List.eraseIdx_cons_succ, ih hl hb,
        List.erase_cons_tail (by simpa using hne)]

/-- On a list whose keys strictly increase, no element other than `b` has
the key of `b`. -/
theorem StrictlySorted.eq_of_key_eq {l : List α} (hs : StrictlySorted key l) {a b : α} (ha : a ∈ l)
    (hb : b ∈ l) (h : key a = key b) : a = b := by
  induction l with
  | nil => cases ha
  | cons c l ih =>
    obtain ⟨hc, hl⟩ := List.pairwise_cons.1 hs
    rcases List.mem_cons.1 ha with hac | ha <;> rcases List.mem_cons.1 hb with hbc | hb
    · rw [hac, hbc]
    · rw [hac] at h
      exact absurd h (hc b hb).ne
    · rw [hbc] at h
      exact absurd h.symm (hc a ha).ne
    · exact ih hl ha hb

/-- Two lists whose keys strictly increase and that hold the same elements
are equal. -/
theorem StrictlySorted.eq_of_perm {l l' : List α} (hs : StrictlySorted key l)
    (hs' : StrictlySorted key l') (hp : l.Perm l') : l = l' :=
  hp.eq_of_pairwise (fun _ _ _ _ hab hba => absurd (hab.trans hba) (lt_irrefl _)) hs hs'

/-- A list sorted by key that holds the elements of a list whose keys
strictly increase has strictly increasing keys too. -/
theorem StrictlySorted.of_perm {l l' : List α} (hs : StrictlySorted key l) (hp : l'.Perm l)
    (hle : l'.Pairwise fun a b => key a ≤ key b) : StrictlySorted key l' := by
  -- distinct keys is a symmetric relation, so it survives the permutation
  have hne : l'.Pairwise fun a b => key a ≠ key b :=
    (hp.pairwise_iff fun h => Ne.symm h).2 (hs.imp ne_of_lt)
  exact (hle.and hne).imp fun h => lt_of_le_of_ne h.1 h.2

/-- Inserting into the first `m` elements and keeping `m` is keeping the
first `m` of the insertion into the whole list. -/
theorem take_orderedInsert_take (r : α → α → Prop) [DecidableRel r] (l : List α) (x : α) (m : Nat) :
    ((l.take m).orderedInsert r x).take m = (l.orderedInsert r x).take m := by
  induction l generalizing m with
  | nil => simp
  | cons b l ih =>
    cases m with
    | zero => rfl
    | succ k =>
      rw [List.take_succ_cons, List.orderedInsert_cons, List.orderedInsert_cons]
      split_ifs
      · -- `x` goes first on both sides; what follows is `b` and the prefix
        cases k with
        | zero => rfl
        | succ j => simp [List.take_take]
      · rw [List.take_succ_cons, List.take_succ_cons, ih]

end SortSearch
