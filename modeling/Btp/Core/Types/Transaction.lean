import Btp.Core.TxList
import Btp.Lib.GoHeap

/-!
# Transactions by price and nonce

`TransactionsByPriceAndNonce` hands the miner the pending transactions of
many accounts, dearest first and each account's in nonce order: a
`container/heap` of one head per account, ordered by `TxByPrice` (the dearer
first), and a map from each account to the transactions after its head.
`Shift` replaces the head just taken by the account's next transaction, and
`Pop` drops the account.

The map is `GoMap`, whose order stands for any order of iteration. The
constructor reads the map while it rewrites it; for a map whose lists are
signed by their keys it leaves each key mapped to its list's tail, and the
heads in the heap.

The view `rem t b` is what is left of account `b`: its head, if it has one,
and its tail. `Shift` takes the first of the peeked account's and `Pop` all
of them; no other account's changes. Over a whole run, driven by any
sequence of decisions, each account's peeked transactions are a prefix of
its list, all of it unless one of them was popped, and nothing of it after
the popped one.
-/

namespace Btp.Types

open Btp.Core (Transaction NonceSorted)

/-! ## Entries of distinct keys -/

section Keyed

variable {α β : Type} [DecidableEq β] {f : α → β}

/-- Among entries of distinct keys, the entry found for a key is the one of
that key. -/
theorem find?_key_eq_some_iff {l : List α} (hnd : (l.map f).Nodup) (b : β) (x : α) :
    l.find? (fun y => f y == b) = some x ↔ x ∈ l ∧ f x = b := by
  constructor
  · intro h
    exact ⟨List.mem_of_find?_eq_some h, by simpa using List.find?_some h⟩
  · rintro ⟨hx, rfl⟩
    cases h : l.find? (fun y => f y == f x) with
    | none => exact absurd (List.find?_eq_none.1 h x hx) (by simp)
    | some y =>
      have hy := List.mem_of_find?_eq_some h
      have hfy : f y = f x := by simpa using List.find?_some h
      rw [List.inj_on_of_nodup_map hnd hy hx hfy]

/-- Among entries of distinct keys, finding a key does not depend on their
order. -/
theorem find?_key_perm {l l' : List α} (hnd : (l.map f).Nodup) (hp : l.Perm l') (b : β) :
    l.find? (fun y => f y == b) = l'.find? (fun y => f y == b) := by
  have hnd' : (l'.map f).Nodup := (hp.map f).nodup_iff.1 hnd
  cases hl : l.find? (fun y => f y == b) with
  | none =>
    refine (List.find?_eq_none.2 fun y hy => ?_).symm
    exact List.find?_eq_none.1 hl y (hp.symm.subset hy)
  | some x =>
    obtain ⟨hx, hfx⟩ := (find?_key_eq_some_iff hnd b x).1 hl
    exact ((find?_key_eq_some_iff hnd' b x).2 ⟨hp.subset hx, hfx⟩).symm

end Keyed

/-- `types.Sender`, with the error dropped as the callers here do: the zero
address when the signature does not recover. -/
def Sender (tx : Transaction) : Address := tx.From.getD 0

/-- `TxByPrice.Less`: the dearer transaction first. -/
def TxByPrice.Less (a b : Transaction) : Bool := decide (a.GasPrice > b.GasPrice)

/-- The order of `TxByPrice.Less`: the price, reversed. -/
def priceDescKey (tx : Transaction) : OrderDual Nat := OrderDual.toDual tx.GasPrice

theorem keyedBy_TxByPrice : GoHeap.KeyedBy TxByPrice.Less priceDescKey := fun a b => by
  simp [TxByPrice.Less, priceDescKey]

/-- `TransactionsByPriceAndNonce`: each account's transactions after its
head, and the heads. -/
structure TransactionsByPriceAndNonce where
  txs : GoMap Address (List Transaction)
  heads : Array Transaction

/-- The loop of `NewTransactionsByPriceAndNonce` over the map's keys: each
key's first transaction becomes a head, and the rest is stored under the
head's sender, the key dropped if that is another address. A key deleted
before it is reached is skipped, and a key added on the way is not visited;
an empty list is an index out of range, `none`. -/
def newLoop : List Address → GoMap Address (List Transaction) → Array Transaction →
    Option (GoMap Address (List Transaction) × Array Transaction)
  | [], txs, heads => some (txs, heads)
  | «from» :: keys, txs, heads =>
    match txs.lookup «from» with
    | none => newLoop keys txs heads
    | some [] => none
    | some (head :: tail) =>
      let txs' := txs.insert (Sender head) tail
      newLoop keys (if «from» ≠ Sender head then txs'.erase «from» else txs') (heads.push head)

/-- `NewTransactionsByPriceAndNonce`. -/
def NewTransactionsByPriceAndNonce (txs : GoMap Address (List Transaction)) :
    Option TransactionsByPriceAndNonce :=
  (newLoop txs.keys txs #[]).map fun r => ⟨r.1, GoHeap.Init TxByPrice.Less r.2⟩

namespace TransactionsByPriceAndNonce

/-- `TransactionsByPriceAndNonce.Peek`. -/
def Peek (t : TransactionsByPriceAndNonce) : Option Transaction := t.heads[0]?

/-- `TransactionsByPriceAndNonce.Shift`: the head is replaced by the next
transaction of its account and fixed in place, or popped if there is none.
With no heads Go indexes out of range; the model leaves `t`, and no caller
shifts then. -/
def Shift (t : TransactionsByPriceAndNonce) : TransactionsByPriceAndNonce :=
  if h : 0 < t.heads.size then
    match t.txs.lookup (Sender t.heads[0]) with
    | some (x :: xs) =>
      ⟨t.txs.insert (Sender t.heads[0]) xs, GoHeap.Fix TxByPrice.Less (t.heads.set 0 x) 0⟩
    | _ => { t with heads := (GoHeap.Pop TxByPrice.Less t.heads h).1 }
  else t

/-- `TransactionsByPriceAndNonce.Pop`: the head is dropped with its account. -/
def Pop (t : TransactionsByPriceAndNonce) : TransactionsByPriceAndNonce :=
  if h : 0 < t.heads.size then { t with heads := (GoHeap.Pop TxByPrice.Less t.heads h).1 }
  else t

/-! ## Runs driven by the miner's decisions -/

/-- What the miner does with a peeked transaction. -/
inductive Decision where
  | Shift
  | Pop

/-- One decision applied. -/
def step (t : TransactionsByPriceAndNonce) : Decision → TransactionsByPriceAndNonce
  | .Shift => t.Shift
  | .Pop => t.Pop

/-- The heads and the stored transactions: each decision lowers it. -/
def measure (t : TransactionsByPriceAndNonce) : Nat :=
  t.heads.size + (t.txs.entries.map fun e => e.2.length).sum

/-- Storing `w` under a key that held `v`. -/
theorem sum_length_insert {m : GoMap Address (List Transaction)} {a : Address}
    {v w : List Transaction} (h : m.lookup a = some v) :
    ((m.insert a w).entries.map fun e => e.2.length).sum + v.length =
      (m.entries.map fun e => e.2.length).sum + w.length := by
  have hmem : a ∈ m.entries.keys := AList.mem_keys.1 (AList.lookup_isSome.1 (by simp [h]))
  obtain ⟨b, l₁, l₂, hnot, heq, hker⟩ := List.exists_of_kerase hmem
  -- the key's entry sits between `l₁` and `l₂`, and holds `v`
  have hb : b = v := by
    have hlook : m.entries.dlookup a = some v := h
    rw [heq, List.dlookup_append, List.dlookup_eq_none.2 hnot, Option.none_or,
      List.dlookup_cons_eq] at hlook
    exact Option.some.inj hlook
  subst hb
  rw [AList.entries_insert, hker, heq]
  simp only [List.map_cons, List.map_append, List.sum_cons, List.sum_append]
  omega

theorem measure_Shift {t : TransactionsByPriceAndNonce} (h0 : 0 < t.heads.size) :
    t.Shift.measure < t.measure := by
  unfold Shift measure
  rw [dif_pos h0]
  split
  · rename_i x xs hlook
    have := sum_length_insert (w := xs) hlook
    simp only [GoHeap.Fix, GoHeap.size_downUp, Array.size_set, List.length_cons] at this ⊢
    omega
  · simp only [GoHeap.size_Pop]
    omega

theorem measure_Pop {t : TransactionsByPriceAndNonce} (h0 : 0 < t.heads.size) :
    t.Pop.measure < t.measure := by
  unfold Pop measure
  rw [dif_pos h0]
  simp only [GoHeap.size_Pop]
  omega

theorem measure_step {t : TransactionsByPriceAndNonce} (h0 : 0 < t.heads.size) (d : Decision) :
    (t.step d).measure < t.measure := by
  cases d with
  | Shift => exact measure_Shift h0
  | Pop => exact measure_Pop h0

/-- The miner's loop: peek, and while there is a transaction, apply the next
decision; the transactions peeked, in order. -/
def drain (choose : Nat → Decision) (t : TransactionsByPriceAndNonce) : List Transaction :=
  match h : t.Peek with
  | none => []
  | some tx =>
    have h0 : 0 < t.heads.size := by
      rw [Peek, Array.getElem?_eq_some_iff] at h
      exact Nat.lt_of_le_of_lt (Nat.zero_le _) h.1
    tx :: drain (fun i => choose (i + 1)) (t.step (choose 0))
termination_by t.measure
decreasing_by exact measure_step h0 _

/-- The state after the first `i` decisions. -/
def after (choose : Nat → Decision) (t : TransactionsByPriceAndNonce) : Nat →
    TransactionsByPriceAndNonce
  | 0 => t
  | i + 1 => after (fun j => choose (j + 1)) (t.step (choose 0)) i

/-! ## What is left of each account -/

/-- An array with an entry is its first entry and the rest. -/
theorem toList_eq_cons {α : Type} {a : Array α} (h0 : 0 < a.size) :
    a.toList = a[0] :: a.toList.tail := by
  have hne : a.toList ≠ [] := List.ne_nil_of_length_pos (by simpa using h0)
  conv_lhs => rw [← List.cons_head_tail hne]
  simp [List.head_eq_getElem]

/-- The head of account `b`, if it has one. -/
def headOf (t : TransactionsByPriceAndNonce) (b : Address) : Option Transaction :=
  t.heads.toList.find? fun h => Sender h == b

/-- What is left of account `b`: its head and the transactions after it, or
nothing once it has no head. -/
def rem (t : TransactionsByPriceAndNonce) (b : Address) : List Transaction :=
  match t.headOf b with
  | some h => h :: (t.txs.lookup b).getD []
  | none => []

/-- The invariant of a run: the heads form a heap, one per account, and each
account's stored transactions are its own. -/
structure Inv (t : TransactionsByPriceAndNonce) : Prop where
  heap : GoHeap.IsHeap priceDescKey t.heads t.heads.size
  senders : (t.heads.toList.map Sender).Nodup
  signed : ∀ a l, t.txs.lookup a = some l → ∀ tx ∈ l, Sender tx = a

section View

variable {t : TransactionsByPriceAndNonce}

theorem headOf_root (h0 : 0 < t.heads.size) : t.headOf (Sender t.heads[0]) = some t.heads[0] := by
  rw [headOf, toList_eq_cons h0]
  simp

/-- The peeked transaction heads what is left of its account. -/
theorem rem_root (h0 : 0 < t.heads.size) :
    t.rem (Sender t.heads[0]) = t.heads[0] :: (t.txs.lookup (Sender t.heads[0])).getD [] := by
  rw [rem, headOf_root h0]

theorem rem_of_size_eq_zero (h0 : t.heads.size = 0) (b : Address) : t.rem b = [] := by
  have hnil : t.heads.toList = [] := by simpa using h0
  simp [rem, headOf, hnil]

/-- The peeked transaction is the dearest head. -/
theorem Inv.Peek_le (h : t.Inv) {r : Transaction} (hr : t.Peek = some r) :
    ∀ x ∈ t.heads, x.GasPrice ≤ r.GasPrice := by
  intro x hx
  obtain ⟨hlt, rfl⟩ := Array.getElem?_eq_some_iff.1 hr
  obtain ⟨j, hj, rfl⟩ := Array.mem_iff_getElem.1 hx
  have := h.heap.root_le j hj hj
  simpa [priceDescKey] using this

/-- Popping the root off the heads: its account has nothing left, and every
other account keeps what is left of it. -/
theorem Inv.popRoot (h : t.Inv) (h0 : 0 < t.heads.size) :
    ({ t with heads := (GoHeap.Pop TxByPrice.Less t.heads h0).1 } : TransactionsByPriceAndNonce).Inv ∧
      ({ t with heads := (GoHeap.Pop TxByPrice.Less t.heads h0).1 } :
        TransactionsByPriceAndNonce).rem (Sender t.heads[0]) = [] ∧
      ∀ b, b ≠ Sender t.heads[0] →
        ({ t with heads := (GoHeap.Pop TxByPrice.Less t.heads h0).1 } :
          TransactionsByPriceAndNonce).rem b = t.rem b := by
  obtain ⟨hroot, hheap, hperm⟩ := h.heap.Pop keyedBy_TxByPrice h0
  rw [hroot] at hperm
  -- the senders of the rest, and the root's, are distinct
  have hnd : (((GoHeap.Pop TxByPrice.Less t.heads h0).1.toList ++ [t.heads[0]]).map Sender).Nodup :=
    (hperm.map Sender).nodup_iff.2 h.senders
  have hfind := find?_key_perm h.senders hperm.symm
  refine ⟨⟨hheap, (List.nodup_append.1 (by simpa using hnd)).1, h.signed⟩, ?_, fun b hb => ?_⟩
  · -- no other head is the root's account's
    have hnone : ((GoHeap.Pop TxByPrice.Less t.heads h0).1.toList.find?
        fun x => Sender x == Sender t.heads[0]) = none := by
      refine List.find?_eq_none.2 fun x hx hsx => ?_
      have hdis := (List.nodup_append.1 (by simpa using hnd)).2.2
      simp only [List.mem_map, List.mem_singleton, forall_exists_index, and_imp] at hdis
      exact hdis _ x hx rfl _ rfl (by simpa using hsx)
    simp [rem, headOf, hnone]
  · have hb' : ([t.heads[0]].find? fun x => Sender x == b) = none := by
      simp [Ne.symm hb]
    have hhead := hfind b
    rw [List.find?_append, hb', Option.or_none] at hhead
    simp only [rem, headOf]
    rw [hhead]

/-- `Shift`: what is left of the root's account loses its first transaction,
and every other account keeps what is left of it. -/
theorem Inv.Shift (h : t.Inv) (h0 : 0 < t.heads.size) :
    t.Shift.Inv ∧ t.Shift.rem (Sender t.heads[0]) = (t.rem (Sender t.heads[0])).tail ∧
      ∀ b, b ≠ Sender t.heads[0] → t.Shift.rem b = t.rem b := by
  unfold TransactionsByPriceAndNonce.Shift
  rw [dif_pos h0]
  split
  · rename_i x xs hlook
    -- the next transaction replaces the head, in an account of its own sender
    have hx : Sender x = Sender t.heads[0] := h.signed _ _ hlook x List.mem_cons_self
    obtain ⟨rest, hcons⟩ : ∃ rest, t.heads.toList = t.heads[0] :: rest := ⟨_, toList_eq_cons h0⟩
    have hset : (t.heads.set 0 x).toList = x :: rest := by
      rw [Array.toList_set, hcons, List.set_cons_zero]
    obtain ⟨hheap, hfix⟩ := h.heap.Fix keyedBy_TxByPrice h0 x
    have hnd : ((t.heads.set 0 x).toList.map Sender).Nodup := by
      rw [hset, List.map_cons, hx, ← List.map_cons, ← hcons]
      exact h.senders
    have hfind := find?_key_perm hnd hfix.toList.symm
    refine ⟨⟨hheap, (hfix.toList.map Sender).nodup_iff.2 hnd, fun c l hc => ?_⟩, ?_, fun b hb => ?_⟩
    · by_cases hca : c = Sender t.heads[0]
      · subst hca
        rw [AList.lookup_insert, Option.some.injEq] at hc
        subst hc
        exact fun tx htx => h.signed _ _ hlook tx (List.mem_cons_of_mem x htx)
      · rw [AList.lookup_insert_ne hca] at hc
        exact h.signed c l hc
    · rw [rem_root h0, hlook, Option.getD_some, List.tail_cons]
      simp only [rem, headOf, ← hfind, hset, List.find?_cons, hx, beq_self_eq_true,
        AList.lookup_insert, Option.getD_some]
    · have hnot : (Sender x == b) = false := by simp [hx, Ne.symm hb]
      have hnot' : (Sender t.heads[0] == b) = false := by simp [Ne.symm hb]
      simp only [rem, headOf, ← hfind, hset, hcons, List.find?_cons, hnot, hnot',
        AList.lookup_insert_ne hb]
  · -- the account has no more: the head is popped
    rename_i hnone
    obtain ⟨hinv, hroot, hother⟩ := h.popRoot h0
    refine ⟨hinv, ?_, hother⟩
    have hrest : (t.txs.lookup (Sender t.heads[0])).getD [] = [] := by
      cases hl : t.txs.lookup (Sender t.heads[0]) with
      | none => rfl
      | some l =>
        cases l with
        | nil => rfl
        | cons y ys => exact absurd hl (hnone y ys)
    rw [hroot, rem_root h0, hrest, List.tail_cons]

theorem Inv.Pop (h : t.Inv) (h0 : 0 < t.heads.size) :
    t.Pop.Inv ∧ t.Pop.rem (Sender t.heads[0]) = [] ∧
      ∀ b, b ≠ Sender t.heads[0] → t.Pop.rem b = t.rem b := by
  unfold TransactionsByPriceAndNonce.Pop
  rw [dif_pos h0]
  exact h.popRoot h0

theorem inv_step (h : t.Inv) (d : Decision) : (t.step d).Inv := by
  by_cases h0 : 0 < t.heads.size
  · cases d with
    | Shift => exact (h.Shift h0).1
    | Pop => exact (h.Pop h0).1
  · -- with no heads neither decision changes anything
    cases d <;> simp [step, TransactionsByPriceAndNonce.Shift, TransactionsByPriceAndNonce.Pop, h0, h]

end View

/-! ## Whole runs -/

section Run

variable {choose : Nat → Decision} {t : TransactionsByPriceAndNonce}

theorem Peek_eq_some {tx : Transaction} (h : t.Peek = some tx) :
    ∃ h0 : 0 < t.heads.size, t.heads[0] = tx := by
  obtain ⟨h0, rfl⟩ := Array.getElem?_eq_some_iff.1 h
  exact ⟨h0, rfl⟩

theorem size_eq_zero_of_Peek (h : t.Peek = none) : t.heads.size = 0 := by
  simpa [Peek] using h

theorem drain_of_none (h : t.Peek = none) : drain choose t = [] := by
  rw [drain]
  split
  · rfl
  · rename_i tx h'
    exact absurd (h.symm.trans h') (by simp)

theorem drain_of_some {tx : Transaction} (h : t.Peek = some tx) :
    drain choose t = tx :: drain (fun i => choose (i + 1)) (t.step (choose 0)) := by
  rw [drain]
  split
  · rename_i h'
    exact absurd (h.symm.trans h') (by simp)
  · rename_i tx' h'
    rw [Option.some.inj (h.symm.trans h')]

/-- The `i`-th transaction peeked is what `Peek` returns after the first `i`
decisions, and after the last one `Peek` returns nothing. -/
theorem drain_after (choose : Nat → Decision) (t : TransactionsByPriceAndNonce) :
    (∀ i (hi : i < (drain choose t).length), (after choose t i).Peek = some (drain choose t)[i]) ∧
      (after choose t (drain choose t).length).Peek = none := by
  induction choose, t using drain.induct with
  | case1 choose t hnone =>
    rw [drain_of_none hnone]
    exact ⟨fun i hi => absurd hi (by simp), hnone⟩
  | case2 choose t tx hsome h0 ih =>
    rw [drain_of_some hsome]
    refine ⟨fun i hi => ?_, ih.2⟩
    cases i with
    | zero => exact hsome
    | succ i => exact ih.1 i (by simpa using hi)

theorem inv_after (h : t.Inv) (i : Nat) : (after choose t i).Inv := by
  induction choose, t, i using after.induct with
  | case1 choose t => exact h
  | case2 choose t i ih => exact ih (inv_step h (choose 0))

/-- Over a run, each account's peeked transactions are a prefix of what was
left of it; all of it if none of them was popped; and none after one that
was. -/
theorem drain_prefix_rem (h : t.Inv) (b : Address) :
    (drain choose t).filter (fun tx => Sender tx == b) <+: t.rem b ∧
      ((∀ i (hi : i < (drain choose t).length), Sender (drain choose t)[i] = b →
        choose i = .Shift) → (drain choose t).filter (fun tx => Sender tx == b) = t.rem b) ∧
      ∀ i (hi : i < (drain choose t).length), Sender (drain choose t)[i] = b →
        choose i = .Pop → ∀ tx ∈ (drain choose t).drop (i + 1), Sender tx ≠ b := by
  induction choose, t using drain.induct with
  | case1 choose t hnone =>
    rw [drain_of_none hnone, rem_of_size_eq_zero (size_eq_zero_of_Peek hnone)]
    exact ⟨List.prefix_refl _, fun _ => rfl, fun i hi => absurd hi (by simp)⟩
  | case2 choose t tx hsome h0 ih =>
    obtain ⟨h0, rfl⟩ := Peek_eq_some hsome
    obtain ⟨ih1, ih2, ih3⟩ := ih (inv_step h (choose 0))
    rw [drain_of_some hsome]
    obtain ⟨d, hd⟩ : ∃ d, choose 0 = d := ⟨_, rfl⟩
    rw [hd] at ih1 ih2 ih3 ⊢
    by_cases hb : b = Sender t.heads[0]
    · -- the peeked transaction is the account's first
      subst hb
      rw [List.filter_cons_of_pos (by simp), rem_root h0]
      cases d with
      | Shift =>
        have hrem : (t.step .Shift).rem (Sender t.heads[0]) =
            (t.txs.lookup (Sender t.heads[0])).getD [] := by
          rw [step, (h.Shift h0).2.1, rem_root h0, List.tail_cons]
        rw [hrem] at ih1 ih2
        refine ⟨List.cons_prefix_cons.2 ⟨rfl, ih1⟩, fun hall => ?_, fun i hi hsi hpop => ?_⟩
        · rw [ih2 fun i hi hsi => hall (i + 1) (by simpa using hi) (by simpa using hsi)]
        · cases i with
          | zero => exact absurd (hd.symm.trans hpop) (by simp)
          | succ i => simpa using ih3 i (by simpa using hi) (by simpa using hsi) hpop
      | Pop =>
        have hrem : (t.step .Pop).rem (Sender t.heads[0]) = [] := (h.Pop h0).2.1
        rw [hrem] at ih1
        -- nothing of the account is peeked after
        have hnil := List.prefix_nil.1 ih1
        refine ⟨by rw [hnil]; exact List.cons_prefix_cons.2 ⟨rfl, List.nil_prefix⟩,
          fun hall => absurd (hd.symm.trans (hall 0 (by simp) rfl)) (by simp),
          fun i hi hsi hpop => ?_⟩
        cases i with
        | zero =>
          intro tx htx hstx
          have : tx ∈ (drain (fun i => choose (i + 1)) (t.step .Pop)).filter
              (fun tx => Sender tx == Sender t.heads[0]) :=
            List.mem_filter.2 ⟨by simpa using htx, by simpa using hstx⟩
          rw [hnil] at this
          exact absurd this List.not_mem_nil
        | succ i => simpa using ih3 i (by simpa using hi) (by simpa using hsi) hpop
    · -- another account's transaction: this account is untouched
      have hrem : (t.step d).rem b = t.rem b := by
        cases d with
        | Shift => exact (h.Shift h0).2.2 b hb
        | Pop => exact (h.Pop h0).2.2 b hb
      rw [List.filter_cons_of_neg (by simpa using Ne.symm hb), ← hrem]
      refine ⟨ih1, fun hall => ih2 fun i hi hsi => hall (i + 1) (by simpa using hi) (by simpa using hsi),
        fun i hi hsi hpop => ?_⟩
      cases i with
      | zero => exact absurd (by simpa using hsi) (Ne.symm hb)
      | succ i => simpa using ih3 i (by simpa using hi) (by simpa using hsi) hpop

end Run

end TransactionsByPriceAndNonce

/-! ## The constructor -/

section New

variable (m : GoMap Address (List Transaction))

/-- The first transactions of the lists of `keys`. -/
def firsts (keys : List Address) : List Transaction :=
  keys.filterMap fun k => (m.lookup k).bind List.head?

variable {m} (hne : ∀ a l, m.lookup a = some l → l ≠ [])
  (hsigned : ∀ a l, m.lookup a = some l → ∀ tx ∈ l, Sender tx = a)
include hne hsigned

/-- For lists signed by their keys, the constructor's loop stores each list's
tail under its key and collects the first transactions in the order of the
keys. -/
theorem newLoop_eq (keys : List Address) :
    ∀ (cur : GoMap Address (List Transaction)) (heads : Array Transaction), keys.Nodup →
      (∀ k ∈ keys, cur.lookup k = m.lookup k ∧ k ∈ m) →
      ∃ r, newLoop keys cur heads = some r ∧ r.2.toList = heads.toList ++ firsts m keys ∧
        ∀ b, r.1.lookup b = if b ∈ keys then (m.lookup b).map List.tail else cur.lookup b := by
  induction keys with
  | nil =>
    intro cur heads _ _
    exact ⟨(cur, heads), rfl, by simp [firsts], fun b => by simp⟩
  | cons k keys ih =>
    intro cur heads hnd hcur
    obtain ⟨hk, hkm⟩ := hcur k List.mem_cons_self
    obtain ⟨l, hl⟩ := Option.isSome_iff_exists.1 (AList.lookup_isSome.2 hkm)
    obtain ⟨hd, tl, rfl⟩ := List.exists_cons_of_ne_nil (hne k l hl)
    -- the first transaction is signed by the key: stored back under it
    have hsend : Sender hd = k := hsigned k _ hl hd List.mem_cons_self
    have hnot : k ∉ keys := (List.nodup_cons.1 hnd).1
    have hcur' : ∀ k' ∈ keys, (cur.insert k tl).lookup k' = m.lookup k' ∧ k' ∈ m := by
      intro k' hk'
      have hne' : k' ≠ k := fun h => hnot (h ▸ hk')
      obtain ⟨hk'cur, hk'm⟩ := hcur k' (List.mem_cons_of_mem k hk')
      rw [AList.lookup_insert_ne hne']
      exact ⟨hk'cur, hk'm⟩
    obtain ⟨r, hr, hheads, hlook⟩ := ih (cur.insert k tl) (heads.push hd) (List.nodup_cons.1 hnd).2 hcur'
    refine ⟨r, ?_, ?_, fun b => ?_⟩
    · rw [newLoop, hk, hl]
      simpa [hsend] using hr
    · rw [hheads]
      simp [firsts, hl]
    · rw [hlook b]
      by_cases hb : b = k
      · subst hb
        simp [hnot, hl]
      · simp [hb, AList.lookup_insert_ne hb]

/-- The first transactions carry the keys, in order. -/
theorem map_Sender_firsts : (firsts m m.keys).map Sender = m.keys := by
  rw [firsts, List.map_filterMap]
  refine (List.filterMap_congr fun k hk => ?_).trans List.filterMap_some
  obtain ⟨l, hl⟩ := Option.isSome_iff_exists.1 (AList.lookup_isSome.2 (AList.mem_keys.2 hk))
  obtain ⟨hd, tl, rfl⟩ := List.exists_cons_of_ne_nil (hne k l hl)
  simp [hl, hsigned k _ hl hd List.mem_cons_self]

/-- The constructor's state is a run's start, and what is left of each
account is its list. -/
theorem New_spec : ∃ t, NewTransactionsByPriceAndNonce m = some t ∧ t.Inv ∧
    ∀ b, t.rem b = (m.lookup b).getD [] := by
  obtain ⟨r, hr, hheads, hlook⟩ := newLoop_eq hne hsigned m.keys m #[] m.keys_nodup
    fun k hk => ⟨rfl, AList.mem_keys.2 hk⟩
  simp only [List.nil_append] at hheads
  have hinit : (GoHeap.Init TxByPrice.Less r.2).Perm r.2 := GoHeap.Init_perm _
  have hperm : (GoHeap.Init TxByPrice.Less r.2).toList.Perm (firsts m m.keys) := by
    rw [← hheads]
    exact hinit.toList
  have hnd : ((firsts m m.keys).map Sender).Nodup := by
    rw [map_Sender_firsts hne hsigned]
    exact m.keys_nodup
  -- the stored lists are the tails
  have htails : ∀ b, r.1.lookup b = (m.lookup b).map List.tail := by
    intro b
    rw [hlook b]
    split_ifs with hb
    · rfl
    · rw [AList.lookup_eq_none.2 (fun h => hb (AList.mem_keys.1 h)), Option.map_none]
  refine ⟨⟨r.1, GoHeap.Init TxByPrice.Less r.2⟩, by simp [NewTransactionsByPriceAndNonce, hr],
    ⟨GoHeap.Init_heap keyedBy_TxByPrice _, (hperm.map Sender).nodup_iff.2 hnd,
      fun a l ha tx htx => ?_⟩, fun b => ?_⟩
  · rw [htails a, Option.map_eq_some_iff] at ha
    obtain ⟨l0, hl0, rfl⟩ := ha
    exact hsigned a l0 hl0 tx (List.mem_of_mem_tail htx)
  · have hfind := find?_key_perm hnd hperm.symm b
    simp only [TransactionsByPriceAndNonce.rem, TransactionsByPriceAndNonce.headOf, ← hfind,
      htails b]
    cases hb : m.lookup b with
    | none =>
      -- no first transaction is `b`'s
      have hnone : ((firsts m m.keys).find? fun y => Sender y == b) = none := by
        refine List.find?_eq_none.2 fun x hx hxb => ?_
        have hk : Sender x ∈ m.keys := by
          rw [← map_Sender_firsts hne hsigned]
          exact List.mem_map_of_mem hx
        rw [show Sender x = b by simpa using hxb] at hk
        exact absurd (AList.lookup_isSome.2 (AList.mem_keys.2 hk)) (by simp [hb])
      simp [hnone]
    | some l =>
      obtain ⟨hd, tl, rfl⟩ := List.exists_cons_of_ne_nil (hne b l hb)
      have hmem : hd ∈ firsts m m.keys :=
        List.mem_filterMap.2 ⟨b, AList.mem_keys.1 (AList.lookup_isSome.1 (by simp [hb])), by simp [hb]⟩
      have hsend : Sender hd = b := hsigned b _ hb hd List.mem_cons_self
      have hfirst := (find?_key_eq_some_iff hnd b hd).2 ⟨hmem, hsend⟩
      simp [hfirst]

end New

/-- Of all the lists of a map whose lists are signed by their keys, the
transactions of `b` are `b`'s list. -/
theorem filter_Sender_flatMap {E : List (Sigma fun _ : Address => List Transaction)}
    (hnd : E.NodupKeys) (hsigned : ∀ e ∈ E, ∀ tx ∈ e.2, Sender tx = e.1) (b : Address) :
    (E.flatMap (·.2)).filter (fun tx => Sender tx == b) = (E.dlookup b).getD [] := by
  induction E with
  | nil => rfl
  | cons e E ih =>
    obtain ⟨hnotin, hnd'⟩ := List.nodupKeys_cons.1 hnd
    have ih' := ih hnd' fun e' he' => hsigned e' (List.mem_cons_of_mem e he')
    have hown : ∀ tx ∈ e.2, Sender tx = e.1 := hsigned e List.mem_cons_self
    rw [List.flatMap_cons, List.filter_append, ih']
    by_cases hb : b = e.1
    · -- the entry is `b`'s, and no later one is
      subst hb
      rw [List.filter_eq_self.2 fun tx htx => by simp [hown tx htx],
        List.dlookup_eq_none.2 hnotin, List.dlookup_cons_eq]
      simp
    · rw [List.filter_eq_nil_iff.2 fun tx htx => by simp [hown tx htx, Ne.symm hb],
        List.dlookup_cons_ne _ _ hb]
      simp

/-- For every map of non-empty, nonce-sorted lists signed by their keys, and
every sequence of `Shift` and `Pop` decisions: each peek returns the dearest
of the current heads, and the run ends when none is left; each account's
peeked transactions are a prefix of its list, in nonce order, all of it
unless one was popped, and none after a popped one; with only `Shift`, every
transaction is peeked once. -/
theorem peeks_follow_price_and_nonce (m : GoMap Address (List Transaction))
    (hne : ∀ a l, m.lookup a = some l → l ≠ [])
    (hsorted : ∀ a l, m.lookup a = some l → NonceSorted l)
    (hsigned : ∀ a l, m.lookup a = some l → ∀ tx ∈ l, Sender tx = a)
    (choose : Nat → TransactionsByPriceAndNonce.Decision) :
    ∃ t, NewTransactionsByPriceAndNonce m = some t ∧
      let ps : List Transaction := t.drain choose
      (∀ i (hi : i < ps.length), (t.after choose i).Peek = some ps[i] ∧
        ∀ x ∈ (t.after choose i).heads, x.GasPrice ≤ ps[i].GasPrice) ∧
      (t.after choose ps.length).Peek = none ∧
      (∀ b, ps.filter (fun tx => Sender tx == b) <+: (m.lookup b).getD [] ∧
        NonceSorted (ps.filter fun tx => Sender tx == b) ∧
        ((∀ i (hi : i < ps.length), Sender ps[i] = b → choose i = .Shift) →
          ps.filter (fun tx => Sender tx == b) = (m.lookup b).getD []) ∧
        ∀ i (hi : i < ps.length), Sender ps[i] = b → choose i = .Pop →
          ∀ tx ∈ ps.drop (i + 1), Sender tx ≠ b) ∧
      ((∀ i, choose i = .Shift) → ps.Perm (m.entries.flatMap (·.2))) := by
  obtain ⟨t, ht, hinv, hrem⟩ := New_spec hne hsigned
  refine ⟨t, ht, ?_⟩
  intro ps
  obtain ⟨hpeek, hend⟩ := TransactionsByPriceAndNonce.drain_after choose t
  -- each account's peeks, read against its list
  have hacc : ∀ b, ps.filter (fun tx => Sender tx == b) <+: (m.lookup b).getD [] ∧
      ((∀ i (hi : i < ps.length), Sender ps[i] = b → choose i = .Shift) →
        ps.filter (fun tx => Sender tx == b) = (m.lookup b).getD []) ∧
      ∀ i (hi : i < ps.length), Sender ps[i] = b → choose i = .Pop →
        ∀ tx ∈ ps.drop (i + 1), Sender tx ≠ b := by
    intro b
    rw [← hrem b]
    exact TransactionsByPriceAndNonce.drain_prefix_rem hinv b
  refine ⟨fun i hi => ⟨hpeek i hi,
    (TransactionsByPriceAndNonce.inv_after hinv i).Peek_le (hpeek i hi)⟩, hend,
    fun b => ⟨(hacc b).1, ?_, (hacc b).2⟩, fun hall => ?_⟩
  · -- a prefix of a sorted list is sorted
    cases hb : m.lookup b with
    | none =>
      have hpre := (hacc b).1
      rw [hb, Option.getD_none] at hpre
      rw [List.prefix_nil.1 hpre]
      exact List.Pairwise.nil
    | some l =>
      have hpre := (hacc b).1
      rw [hb, Option.getD_some] at hpre
      exact (hsorted b l hb).sublist hpre.sublist
  · -- every transaction is counted among its sender's
    have hmap : ∀ e ∈ m.entries, ∀ tx ∈ e.2, Sender tx = e.1 :=
      fun e he => hsigned e.1 e.2 (AList.mem_lookup_iff.2 he)
    refine List.perm_iff_count.2 fun tx => ?_
    have hown := (hacc (Sender tx)).2.1 fun i _ _ => hall i
    have hp : (fun y => Sender y == Sender tx) tx = true := by simp
    calc ps.count tx
        _ = (ps.filter fun y => Sender y == Sender tx).count tx :=
          (List.count_filter (p := fun y => Sender y == Sender tx) (a := tx) hp).symm
        _ = ((m.lookup (Sender tx)).getD []).count tx := by rw [hown]
        _ = ((m.entries.flatMap (·.2)).filter fun y => Sender y == Sender tx).count tx := by
          rw [filter_Sender_flatMap m.nodupKeys hmap (Sender tx)]
          rfl
        _ = (m.entries.flatMap (·.2)).count tx :=
          List.count_filter (p := fun y => Sender y == Sender tx) (a := tx) hp

theorem peeks_follow_price_and_nonce_on_two_accounts :
    let a0 : Transaction := ⟨some 1, 0, 5, 21000, none, 0, [], 0⟩
    let a1 : Transaction := ⟨some 1, 1, 9, 21000, none, 0, [], 0⟩
    let b0 : Transaction := ⟨some 2, 0, 7, 21000, none, 0, [], 0⟩
    let m₁ : GoMap Address (List Transaction) := (∅ : GoMap Address (List Transaction)).insert 1
      [a0, a1]
    let m : GoMap Address (List Transaction) := m₁.insert 2 [b0]
    (∀ a l, m.lookup a = some l → l ≠ []) ∧ (∀ a l, m.lookup a = some l → NonceSorted l) ∧
      (∀ a l, m.lookup a = some l → ∀ tx ∈ l, Sender tx = a) ∧
      ∃ t, NewTransactionsByPriceAndNonce m = some t ∧
        (t.drain fun _ => .Shift).Perm [b0, a0, a1] := by
  intro a0 a1 b0 m₁ m
  -- the map holds two lists
  have hl : ∀ a l, m.lookup a = some l → (a = 2 ∧ l = [b0]) ∨ (a = 1 ∧ l = [a0, a1]) := by
    intro a l h
    simp only [m] at h
    by_cases h2 : a = 2
    · subst h2
      rw [AList.lookup_insert, Option.some.injEq] at h
      exact .inl ⟨rfl, h.symm⟩
    · rw [AList.lookup_insert_ne h2] at h
      simp only [m₁] at h
      by_cases h1 : a = 1
      · subst h1
        rw [AList.lookup_insert, Option.some.injEq] at h
        exact .inr ⟨rfl, h.symm⟩
      · rw [AList.lookup_insert_ne h1, AList.lookup_empty] at h
        cases h
  have hne : ∀ a l, m.lookup a = some l → l ≠ [] := by
    intro a l h
    rcases hl a l h with ⟨-, rfl⟩ | ⟨-, rfl⟩ <;> simp
  have hsorted : ∀ a l, m.lookup a = some l → NonceSorted l := by
    intro a l h
    rcases hl a l h with ⟨-, rfl⟩ | ⟨-, rfl⟩ <;> simp [NonceSorted, a0, a1]
  have hsigned : ∀ a l, m.lookup a = some l → ∀ tx ∈ l, Sender tx = a := by
    intro a l h
    rcases hl a l h with ⟨rfl, rfl⟩ | ⟨rfl, rfl⟩ <;> decide
  obtain ⟨t, ht, -, -, -, hperm⟩ :=
    peeks_follow_price_and_nonce m hne hsorted hsigned fun _ => .Shift
  refine ⟨hne, hsorted, hsigned, t, ht, ?_⟩
  have hall : m.entries.flatMap (·.2) = [b0, a0, a1] := by decide
  rw [← hall]
  exact hperm fun _ => rfl

end Btp.Types
