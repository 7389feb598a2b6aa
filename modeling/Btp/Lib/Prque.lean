import Mathlib

/-!
# Priority queues

A priority queue of items with `int64` priorities, as `prque.Prque` of
`common/prque`: `Push` adds an item, `Pop` takes an item of the highest
priority. Which of several items of one priority comes first is not fixed
here. What a queue holds is its multiset of items; `Push` adds one and `Pop`
removes the one it returns, which is what an invariant counting the items
needs.
-/

/-- A priority queue: its items with their priorities. -/
structure Prque (α : Type) where
  items : List (α × Int64)

namespace Prque

variable {α : Type}

/-- `New`. -/
def new : Prque α := ⟨[]⟩

/-- `Push`. -/
def push (q : Prque α) (x : α) (priority : Int64) : Prque α := ⟨q.items ++ [(x, priority)]⟩

/-- `Empty`. -/
def Empty (q : Prque α) : Bool := q.items.isEmpty

/-- An entry of the highest priority, the first of them. -/
def best : List (α × Int64) → Option (α × Int64)
  | [] => none
  | e :: l =>
    match best l with
    | none => some e
    | some b => if b.2 > e.2 then some b else some e

/-- `Pop`: an item of the highest priority, and the queue without it. -/
def pop [DecidableEq α] (q : Prque α) : Option (α × Prque α) :=
  (best q.items).map fun e => (e.1, ⟨q.items.erase e⟩)

/-- What a queue holds. -/
def contents (q : Prque α) : Multiset α := (q.items.map Prod.fst : List α)

@[simp] theorem contents_new : (new : Prque α).contents = 0 := rfl

@[simp] theorem contents_push (q : Prque α) (x : α) (priority : Int64) :
    (q.push x priority).contents = q.contents + {x} := by
  simp only [contents, push, List.map_append, List.map_singleton, ← Multiset.coe_add,
    Multiset.coe_singleton]

theorem best_mem : ∀ {l : List (α × Int64)} {e : α × Int64}, best l = some e → e ∈ l
  | [], _, h => by cases h
  | e' :: l, e, h => by
    unfold best at h
    split at h
    · cases h
      exact List.mem_cons_self
    · split_ifs at h
      · cases h
        exact List.mem_cons_of_mem _ (best_mem ‹_›)
      · cases h
        exact List.mem_cons_self

theorem best_eq_none {l : List (α × Int64)} : best l = none ↔ l = [] := by
  cases l with
  | nil => simp [best]
  | cons e l =>
    simp only [best, reduceCtorEq, iff_false]
    split
    · simp
    · split_ifs <;> simp

/-- `Pop` takes one of the items. -/
theorem contents_pop [DecidableEq α] {q q' : Prque α} {x : α} (h : q.pop = some (x, q')) :
    q.contents = x ::ₘ q'.contents := by
  unfold pop at h
  obtain ⟨e, he, heq⟩ := Option.map_eq_some_iff.1 h
  obtain ⟨rfl, rfl⟩ := Prod.mk.inj heq
  have hperm := List.perm_cons_erase (best_mem he)
  simpa [contents] using (hperm.map Prod.fst)

/-- `Pop` takes an item unless the queue is empty. -/
theorem pop_eq_none [DecidableEq α] {q : Prque α} : q.pop = none ↔ q.Empty = true := by
  simp [pop, Empty, best_eq_none]

end Prque
