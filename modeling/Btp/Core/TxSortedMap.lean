import Btp.Core.TxListSpec
import Btp.Lib.GoHeap

/-!
# The nonce-sorted map as the code keeps it

`txSortedMap` stores an account's transactions in a Go map from nonce to
transaction, with a `nonceHeap` of the stored nonces and a cache of the
transactions in nonce order. `Flatten` fills the cache; `Put`, `Filter`,
`Remove` and `Ready` drop it, and `Forward` and `Cap` cut it to what they
leave. The map is modelled as the list of its transactions in an order of
its iteration, which is any order: every result below holds of every such
list.

The representation invariant `Inv` says that the heap holds each stored
nonce once and is a heap, and that a cache is the stored transactions
sorted. Every operation keeps it, and under it the map refines the
sorted-list model of `Btp.Core.TxList`: its transactions sorted by nonce
change as that model's list does, and each operation returns what the model
returns.
-/

namespace Btp.Core

/-- Two sorted lists of the same transactions are the same list. -/
theorem NonceSorted.eq_of_perm {l₁ l₂ : List Transaction} (h₁ : NonceSorted l₁)
    (h₂ : NonceSorted l₂) (hp : l₁.Perm l₂) : l₁ = l₂ :=
  hp.eq_of_pairwise (fun _ _ _ _ hab hba => absurd (hab.trans hba) (lt_irrefl _)) h₁ h₂

theorem NonceSorted.nodup {l : List Transaction} (h : NonceSorted l) : (l.map (·.Nonce)).Nodup :=
  List.pairwise_map.2 (h.imp Nat.ne_of_lt)

end Btp.Core

namespace Btp.Core.Impl

/-- `nonceHeap.Less`. -/
def nonceLess (a b : Nat) : Bool := decide (a < b)

/-- `txSortedMap`: `items` is the map, `index` the `nonceHeap`, and `cache`
the sorted cache, `none` for `nil`. -/
structure TxSortedMap where
  items : List Transaction
  index : Array Nat
  cache : Option (List Transaction)

/-- `newTxSortedMap`. -/
def newTxSortedMap : TxSortedMap := ⟨[], #[], none⟩

/-- `sort.Sort(types.TxByNonce(txs))`. -/
def sortByNonce (txs : List Transaction) : List Transaction :=
  txs.mergeSort fun a b => decide (a.Nonce ≤ b.Nonce)

namespace TxSortedMap

/-- `m.items[nonce]`. -/
def lookup (items : List Transaction) (nonce : Nat) : Option Transaction :=
  items.find? (·.Nonce == nonce)

/-- `delete(m.items, nonce)`. -/
def delete (items : List Transaction) (nonce : Nat) : List Transaction :=
  items.filter (·.Nonce != nonce)

/-- `m.items[tx.Nonce()] = tx`: overwrite the entry of the nonce, or add one. -/
def store (items : List Transaction) (tx : Transaction) : List Transaction :=
  if items.any (·.Nonce == tx.Nonce) then items.map fun t => if t.Nonce = tx.Nonce then tx else t
  else items ++ [tx]

/-- `txSortedMap.Get`. -/
def Get (m : TxSortedMap) (nonce : Nat) : Option Transaction := lookup m.items nonce

/-- `txSortedMap.Put`: a new nonce is pushed on the heap. -/
def Put (m : TxSortedMap) (tx : Transaction) : TxSortedMap :=
  let index := if (lookup m.items tx.Nonce).isNone then GoHeap.Push nonceLess m.index tx.Nonce
    else m.index
  { items := store m.items tx, index, cache := none }

/-- The loop of `txSortedMap.Forward`: pop the heap while its least nonce is
below `threshold`, moving the nonce's transaction to `removed`. -/
def forwardLoop (threshold : Nat) (items : List Transaction) (index : Array Nat)
    (removed : List (Option Transaction)) :
    List (Option Transaction) × List Transaction × Array Nat :=
  if h : 0 < index.size then
    if index[0] < threshold then
      forwardLoop threshold (delete items (GoHeap.Pop nonceLess index h).2)
        (GoHeap.Pop nonceLess index h).1 (removed ++ [lookup items (GoHeap.Pop nonceLess index h).2])
    else (removed, items, index)
  else (removed, items, index)
termination_by index.size
decreasing_by simp; omega

/-- `txSortedMap.Forward`: the cache loses as many transactions from its
front as were removed. -/
def Forward (m : TxSortedMap) (threshold : Nat) : List (Option Transaction) × TxSortedMap :=
  let r := forwardLoop threshold m.items m.index []
  (r.1, { items := r.2.1, index := r.2.2, cache := m.cache.map (·.drop r.1.length) })

/-- `txSortedMap.Filter`: if anything is removed, the heap is rebuilt from
the remaining nonces and the cache dropped. -/
def Filter (m : TxSortedMap) (filter : Transaction → Bool) : List Transaction × TxSortedMap :=
  let removed := m.items.filter filter
  let items := m.items.filter fun tx => !filter tx
  if removed.length > 0 then
    (removed, { items, index := GoHeap.Init nonceLess (items.map (·.Nonce)).toArray, cache := none })
  else (removed, { m with items })

/-- The loop of `txSortedMap.Cap` over the sorted heap: from `size` down to
`threshold + 1`, the transaction of the nonce at `size - 1` is dropped. -/
def capLoop (index : Array Nat) (threshold : Nat) :
    Nat → List Transaction → List (Option Transaction) → List (Option Transaction) × List Transaction
  | 0, items, drops => (drops, items)
  | size + 1, items, drops =>
    if size + 1 > threshold then
      match index[size]? with
      | some nonce => capLoop index threshold size (delete items nonce) (drops ++ [lookup items nonce])
      | none => capLoop index threshold size items (drops ++ [none])
    else (drops, items)

/-- `txSortedMap.Cap`: the heap is sorted, the highest nonces dropped, the rest
made a heap again, and the cache loses as many transactions from its back. -/
def Cap (m : TxSortedMap) (threshold : Nat) : List (Option Transaction) × TxSortedMap :=
  if m.items.length ≤ threshold then ([], m)
  else
    let sorted := (m.index.toList.mergeSort fun a b => decide (a ≤ b)).toArray
    let r := capLoop sorted threshold m.items.length m.items []
    let index := GoHeap.Init nonceLess (sorted.extract 0 threshold)
    (r.1, { items := r.2, index, cache := m.cache.map fun c => c.take (c.length - r.1.length) })

/-- `txSortedMap.Remove`: the nonce is found in the heap by a scan and removed
there with `heap.Remove`. -/
def Remove (m : TxSortedMap) (nonce : Nat) : Bool × TxSortedMap :=
  match lookup m.items nonce with
  | none => (false, m)
  | some _ =>
    let index := match m.index.findFinIdx? (· == nonce) with
      | some i => (GoHeap.Remove nonceLess m.index i.1 i.2).1
      | none => m.index
    (true, { items := delete m.items nonce, index, cache := none })

/-- The loop of `txSortedMap.Ready`: pop the heap while its least nonce is
`next`, the nonce after the last one moved to `ready`. -/
def readyLoop (items : List Transaction) (index : Array Nat) (next : Nat)
    (ready : List (Option Transaction)) :
    List (Option Transaction) × List Transaction × Array Nat :=
  if h : 0 < index.size then
    if index[0] = next then
      readyLoop (delete items next) (GoHeap.Pop nonceLess index h).1 (next + 1)
        (ready ++ [lookup items next])
    else (ready, items, index)
  else (ready, items, index)
termination_by index.size
decreasing_by simp; omega

/-- `txSortedMap.Ready`: if the least nonce is at most `start`, the run of
consecutive nonces from it. -/
def Ready (m : TxSortedMap) (start : Nat) : List (Option Transaction) × TxSortedMap :=
  if h : m.index.size = 0 then ([], m)
  else if m.index[0] > start then ([], m)
  else
    let r := readyLoop m.items m.index m.index[0] []
    (r.1, { items := r.2.1, index := r.2.2, cache := none })

/-- `txSortedMap.Len`. -/
def Len (m : TxSortedMap) : Nat := m.items.length

/-- `txSortedMap.Flatten`: the cache, made first if there is none. -/
def Flatten (m : TxSortedMap) : List Transaction × TxSortedMap :=
  match m.cache with
  | some c => (c, m)
  | none => (sortByNonce m.items, { m with cache := some (sortByNonce m.items) })

end TxSortedMap

/-! ## Sorting by nonce -/

theorem sortByNonce_perm (txs : List Transaction) : (sortByNonce txs).Perm txs :=
  List.mergeSort_perm _ _

/-- Transactions of distinct nonces sort into strictly increasing nonce order. -/
theorem sortByNonce_sorted {txs : List Transaction} (h : (txs.map (·.Nonce)).Nodup) :
    NonceSorted (sortByNonce txs) := by
  have hle : (sortByNonce txs).Pairwise fun a b => decide (a.Nonce ≤ b.Nonce) = true :=
    List.pairwise_mergeSort (fun a b c hab hbc => by simp only [decide_eq_true_eq] at *; omega)
      (fun a b => by simp only [Bool.or_eq_true, decide_eq_true_eq]; omega) txs
  have hnd : ((sortByNonce txs).map (·.Nonce)).Nodup :=
    ((sortByNonce_perm txs).map (·.Nonce)).nodup_iff.2 h
  have hne : (sortByNonce txs).Pairwise fun a b => a.Nonce ≠ b.Nonce := List.pairwise_map.1 hnd
  exact (hle.and hne).imp fun hab => by
    simp only [decide_eq_true_eq] at hab
    omega

/-- A sorted permutation of the transactions is their sort. -/
theorem sortByNonce_eq {txs l : List Transaction} (hs : NonceSorted l) (hp : l.Perm txs) :
    sortByNonce txs = l :=
  (sortByNonce_sorted ((hp.map _).nodup_iff.1 hs.nodup)).eq_of_perm hs
    ((sortByNonce_perm txs).trans hp.symm)

namespace TxSortedMap

/-! ## The map operations -/

theorem lookup_eq_some {items : List Transaction} {nonce : Nat} {t : Transaction}
    (h : lookup items nonce = some t) : t ∈ items ∧ t.Nonce = nonce := by
  refine ⟨List.mem_of_find?_eq_some h, ?_⟩
  simpa using List.find?_some h

theorem lookup_eq_none {items : List Transaction} {nonce : Nat} :
    lookup items nonce = none ↔ nonce ∉ items.map (·.Nonce) := by
  simp [lookup, List.find?_eq_none]

theorem lookup_of_mem {items : List Transaction} (hnd : (items.map (·.Nonce)).Nodup)
    {t : Transaction} (ht : t ∈ items) : lookup items t.Nonce = some t := by
  cases h : lookup items t.Nonce with
  | none => exact absurd (List.mem_map_of_mem ht) (lookup_eq_none.1 h)
  | some u =>
    obtain ⟨hu, hun⟩ := lookup_eq_some h
    rw [List.inj_on_of_nodup_map hnd hu ht hun]

theorem map_delete (items : List Transaction) (nonce : Nat) :
    (delete items nonce).map (·.Nonce) = (items.map (·.Nonce)).filter (· != nonce) := by
  rw [delete, List.filter_map]
  rfl

theorem nodup_delete {items : List Transaction} (hnd : (items.map (·.Nonce)).Nodup) (nonce : Nat) :
    ((delete items nonce).map (·.Nonce)).Nodup := by
  rw [map_delete]
  exact hnd.filter _

/-- Deleting a stored nonce erases its one transaction. -/
theorem delete_eq_erase {items : List Transaction} (hnd : (items.map (·.Nonce)).Nodup)
    {t : Transaction} (ht : t ∈ items) : delete items t.Nonce = items.erase t := by
  have hnodup : items.Nodup := List.Nodup.of_map _ hnd
  rw [hnodup.erase_eq_filter, delete]
  refine List.filter_congr fun u hu => ?_
  by_cases hut : u = t
  · simp [hut]
  · have hn : u.Nonce ≠ t.Nonce := fun h => hut (List.inj_on_of_nodup_map hnd hu ht h)
    rw [Bool.eq_iff_iff, bne_iff_ne, bne_iff_ne]
    exact ⟨fun _ => hut, fun _ => hn⟩

theorem perm_delete {items : List Transaction} (hnd : (items.map (·.Nonce)).Nodup)
    {t : Transaction} (ht : t ∈ items) : items.Perm (t :: delete items t.Nonce) := by
  rw [delete_eq_erase hnd ht]
  exact List.perm_cons_erase ht

/-- A transaction of the least nonce heads the sorted transactions. -/
theorem sortByNonce_of_least {items : List Transaction} (hnd : (items.map (·.Nonce)).Nodup)
    {t : Transaction} (ht : t ∈ items) (hleast : ∀ u ∈ items, t.Nonce ≤ u.Nonce) :
    sortByNonce items = t :: sortByNonce (delete items t.Nonce) := by
  have hrest := sortByNonce_sorted (nodup_delete hnd t.Nonce)
  refine sortByNonce_eq (List.pairwise_cons.2 ⟨fun u hu => ?_, hrest⟩)
    (((sortByNonce_perm _).cons t).trans (perm_delete hnd ht).symm)
  have hud : u ∈ delete items t.Nonce := (sortByNonce_perm _).subset hu
  simp only [delete, List.mem_filter, bne_iff_ne, ne_eq] at hud
  have := hleast u hud.1
  omega

/-- `putSorted` over a sorted list puts `tx` in place of its nonce's
transaction, if any. -/
theorem putSorted_perm {l : List Transaction} (hs : NonceSorted l) (tx : Transaction) :
    (putSorted tx l).Perm (tx :: delete l tx.Nonce) := by
  induction l with
  | nil => exact List.Perm.refl _
  | cons t ts ih =>
    unfold NonceSorted at hs
    rw [List.pairwise_cons] at hs
    -- at or below `t`'s nonce, nothing after `t` has `tx`'s nonce
    have hkeep : tx.Nonce ≤ t.Nonce → ∀ u ∈ ts, (u.Nonce != tx.Nonce) = true := fun hle u hu => by
      have := hs.1 u hu
      simp only [bne_iff_ne, ne_eq]
      omega
    unfold putSorted
    split_ifs with hlt heq
    · -- `tx` goes in front; nothing of its nonce is stored
      rw [delete, List.filter_cons_of_pos (by simp only [bne_iff_ne, ne_eq]; omega),
        List.filter_eq_self.2 (hkeep (by omega))]
    · -- `tx` overwrites `t`
      rw [delete, List.filter_cons_of_neg (by simp [heq]), List.filter_eq_self.2 (hkeep (by omega))]
    · rw [delete, List.filter_cons_of_pos (by simp only [bne_iff_ne, ne_eq]; omega)]
      exact ((ih hs.2).cons t).trans (List.Perm.swap _ _ _)

theorem perm_cons_filter_ne {l : List Nat} (hnd : l.Nodup) {a : Nat} (h : a ∈ l) :
    l.Perm (a :: l.filter (· != a)) := by
  rw [← hnd.erase_eq_filter]
  exact List.perm_cons_erase h

/-- Storing `tx` puts it in place of its nonce's transaction, if any. -/
theorem store_perm {items : List Transaction} (hnd : (items.map (·.Nonce)).Nodup)
    (tx : Transaction) : (store items tx).Perm (tx :: delete items tx.Nonce) := by
  unfold store
  split_ifs with hany
  · obtain ⟨old, hold, hn⟩ := List.any_eq_true.1 hany
    have hn' : old.Nonce = tx.Nonce := by simpa using hn
    have hrest : (delete items tx.Nonce).map (fun t => if t.Nonce = tx.Nonce then tx else t) =
        delete items tx.Nonce := by
      refine (List.map_congr_left fun t ht => ?_).trans (List.map_id _)
      simp only [delete, List.mem_filter, bne_iff_ne, ne_eq] at ht
      rw [if_neg ht.2, id]
    have hp := (perm_delete hnd hold).map fun t => if t.Nonce = tx.Nonce then tx else t
    rw [List.map_cons, if_pos hn', hn', hrest] at hp
    exact hp
  · have hnone : ∀ t ∈ items, (t.Nonce != tx.Nonce) = true := fun t ht => by
      have := List.any_eq_false.1 (Bool.eq_false_iff.2 hany) t ht
      simpa using this
    rw [delete, List.filter_eq_self.2 hnone]
    exact List.perm_append_singleton _ _

/-! ## The representation invariant -/

theorem keyedBy_nonceLess : GoHeap.KeyedBy nonceLess (id : Nat → Nat) := fun a b => by
  simp [nonceLess]

/-- A heap built by `heap.Init` holds the nonces it was given. -/
theorem perm_Init (l : List Nat) : (GoHeap.Init nonceLess l.toArray).toList.Perm l := by
  have hinit : (GoHeap.Init nonceLess l.toArray).Perm l.toArray := GoHeap.Init_perm _
  simpa using hinit.toList

/-- `index` is a heap of the nonces of `items`, each stored once. -/
structure Indexes (items : List Transaction) (index : Array Nat) : Prop where
  nodup : (items.map (·.Nonce)).Nodup
  perm : index.toList.Perm (items.map (·.Nonce))
  heap : GoHeap.IsHeap id index index.size

/-- The representation invariant: the heap indexes the stored transactions,
and a cache is the stored transactions in nonce order. -/
structure Inv (m : TxSortedMap) : Prop where
  indexes : Indexes m.items m.index
  cache : ∀ c, m.cache = some c → c = sortByNonce m.items

theorem inv_newTxSortedMap : newTxSortedMap.Inv :=
  ⟨⟨List.nodup_nil, List.Perm.refl _, fun _ hj => absurd hj (by simp [newTxSortedMap])⟩,
    fun _ h => absurd h (by simp [newTxSortedMap])⟩

/-- `Flatten` returns the stored transactions sorted, and caches them. -/
theorem Inv.Flatten {m : TxSortedMap} (h : m.Inv) :
    m.Flatten.1 = sortByNonce m.items ∧ m.Flatten.2.items = m.items ∧ m.Flatten.2.Inv := by
  unfold TxSortedMap.Flatten
  split
  · rename_i c hc
    exact ⟨h.cache c hc, rfl, h⟩
  · exact ⟨rfl, rfl, ⟨h.indexes, fun c hc => (Option.some.inj hc).symm⟩⟩

/-- `Put` keeps the invariant, and its sorted transactions are the model's. -/
theorem Inv.Put {m : TxSortedMap} (h : m.Inv) (tx : Transaction) :
    (m.Put tx).Inv ∧ sortByNonce (m.Put tx).items = putSorted tx (sortByNonce m.items) := by
  have hperm := store_perm h.indexes.nodup tx
  -- the nonces after: `tx`'s, and the others
  have hnonces : ((store m.items tx).map (·.Nonce)).Perm
      (tx.Nonce :: (m.items.map (·.Nonce)).filter (· != tx.Nonce)) := by
    have := hperm.map (·.Nonce)
    rwa [List.map_cons, map_delete] at this
  have hnd : ((store m.items tx).map (·.Nonce)).Nodup :=
    hnonces.nodup_iff.2 (List.nodup_cons.2 ⟨by simp, h.indexes.nodup.filter _⟩)
  have hsorted : sortByNonce (store m.items tx) = putSorted tx (sortByNonce m.items) := by
    have hs := sortByNonce_sorted h.indexes.nodup
    refine sortByNonce_eq (hs.putSorted tx) ((putSorted_perm hs tx).trans ?_)
    refine List.Perm.trans (List.Perm.cons tx ?_) hperm.symm
    exact ((sortByNonce_perm m.items).filter _)
  refine ⟨⟨⟨hnd, ?_, ?_⟩, fun c hc => absurd hc (by simp [TxSortedMap.Put])⟩, hsorted⟩
  · -- a new nonce is pushed; a stored one is already in the heap
    simp only [TxSortedMap.Put]
    split_ifs with hnew
    · have hnot : tx.Nonce ∉ m.items.map (·.Nonce) := lookup_eq_none.1 (Option.isNone_iff_eq_none.1 hnew)
      refine ((GoHeap.Push_perm _ _).toList.trans ?_).trans hnonces.symm
      rw [Array.toList_push, List.filter_eq_self.2 fun n hn => by
        simp only [bne_iff_ne, ne_eq]
        rintro rfl
        exact hnot hn]
      exact (h.indexes.perm.append_right _).trans (List.perm_append_singleton _ _)
    · have hmem : tx.Nonce ∈ m.items.map (·.Nonce) := by
        by_contra hnot
        exact hnew (Option.isNone_iff_eq_none.2 (lookup_eq_none.2 hnot))
      exact h.indexes.perm.trans ((perm_cons_filter_ne h.indexes.nodup hmem).trans hnonces.symm)
  · simp only [TxSortedMap.Put]
    split_ifs
    · exact h.indexes.heap.Push keyedBy_nonceLess _
    · exact h.indexes.heap

/-! ## The heap's least nonce -/

/-- A heap of no nonce indexes no transaction. -/
theorem Indexes.eq_nil {items : List Transaction} {index : Array Nat} (h : Indexes items index)
    (h0 : ¬0 < index.size) : items = [] := by
  have hidx : index.toList = [] := by simpa using h0
  have := h.perm
  rw [hidx] at this
  simpa using this.symm

/-- The root of the heap is the least stored nonce, and its transaction heads
the sorted transactions. -/
theorem Indexes.least {items : List Transaction} {index : Array Nat} (h : Indexes items index)
    (h0 : 0 < index.size) :
    ∃ t, lookup items index[0] = some t ∧ t.Nonce = index[0] ∧
      sortByNonce items = t :: sortByNonce (delete items index[0]) := by
  have hmem : index[0] ∈ items.map (·.Nonce) := h.perm.subset (Array.getElem_mem_toList _)
  obtain ⟨t, ht, htn⟩ := List.mem_map.1 hmem
  have hleast : ∀ u ∈ items, t.Nonce ≤ u.Nonce := by
    intro u hu
    obtain ⟨j, hj, hju⟩ := List.getElem_of_mem (h.perm.symm.subset (List.mem_map_of_mem hu))
    have hroot := h.heap.root_le j (by simpa using hj) (by simpa using hj)
    rw [htn]
    simpa [← hju] using hroot
  refine ⟨t, ?_, htn, ?_⟩
  · rw [← htn]
    exact lookup_of_mem h.nodup ht
  · rw [← htn]
    exact sortByNonce_of_least h.nodup ht hleast

/-- A heap that, with `x` appended, holds the stored nonces holds those of
the other transactions. -/
theorem perm_delete_of_append {items : List Transaction} {index rest : Array Nat} {x : Nat}
    (hnd : (items.map (·.Nonce)).Nodup) (hidx : index.toList.Perm (items.map (·.Nonce)))
    (hrest : (rest.toList ++ [x]).Perm index.toList) :
    rest.toList.Perm ((delete items x).map (·.Nonce)) := by
  have hmem : x ∈ items.map (·.Nonce) := hidx.subset (hrest.subset (by simp))
  have hcons := (List.perm_append_singleton _ _).symm.trans
    ((hrest.trans hidx).trans (perm_cons_filter_ne hnd hmem))
  rw [map_delete]
  exact (List.perm_cons _).1 hcons

/-- `heap.Pop` takes the least nonce, and leaves a heap of the others. -/
theorem Indexes.pop {items : List Transaction} {index : Array Nat} (h : Indexes items index)
    (h0 : 0 < index.size) :
    (GoHeap.Pop nonceLess index h0).2 = index[0] ∧
      Indexes (delete items index[0]) (GoHeap.Pop nonceLess index h0).1 := by
  obtain ⟨hroot, hheap, hperm⟩ := h.heap.Pop keyedBy_nonceLess h0
  rw [hroot] at hperm
  exact ⟨hroot, ⟨nodup_delete h.nodup _, perm_delete_of_append h.nodup h.perm hperm, hheap⟩⟩

/-! ## Forward and Ready -/

/-- `Forward`'s loop moves, in nonce order, the transactions below the
threshold: each round pops the least nonce, the head of the sorted
transactions. -/
theorem forwardLoop_eq (threshold : Nat) {items : List Transaction} {index : Array Nat}
    (h : Indexes items index) (removed : List (Option Transaction)) :
    let r := forwardLoop threshold items index removed
    r.1 = removed ++
        ((sortByNonce items).takeWhile fun tx => decide (tx.Nonce < threshold)).map some ∧
      sortByNonce r.2.1 = (sortByNonce items).dropWhile (fun tx => decide (tx.Nonce < threshold)) ∧
      Indexes r.2.1 r.2.2 := by
  induction items, index, removed using forwardLoop.induct threshold with
  | case1 items index removed h0 hlt ih =>
    obtain ⟨t, hlook, htn, hsort⟩ := h.least h0
    obtain ⟨hroot, hpop⟩ := h.pop h0
    obtain ⟨h1, h2, h3⟩ := ih (by rwa [hroot])
    have ht : decide (t.Nonce < threshold) = true := by simpa [htn] using hlt
    rw [forwardLoop, dif_pos h0, if_pos hlt]
    refine ⟨?_, ?_, h3⟩
    · rw [h1, hroot, hlook, hsort,
        List.takeWhile_cons_of_pos (p := fun tx : Transaction => decide (tx.Nonce < threshold)) ht]
      simp
    · rw [h2, hroot, hsort,
        List.dropWhile_cons_of_pos (p := fun tx : Transaction => decide (tx.Nonce < threshold)) ht]
  | case2 items index removed h0 hlt =>
    -- the least nonce is not below the threshold: nothing is
    obtain ⟨t, -, htn, hsort⟩ := h.least h0
    have ht : ¬decide (t.Nonce < threshold) = true := by simpa [htn] using hlt
    rw [forwardLoop, dif_pos h0, if_neg hlt]
    refine ⟨?_, ?_, h⟩
    · rw [hsort, List.takeWhile_cons_of_neg (p := fun tx : Transaction => decide (tx.Nonce < threshold)) ht]
      simp
    · rw [hsort, List.dropWhile_cons_of_neg (p := fun tx : Transaction => decide (tx.Nonce < threshold)) ht]
  | case3 items index removed h0 =>
    have hnil := h.eq_nil h0
    subst hnil
    rw [forwardLoop, dif_neg h0]
    exact ⟨by simp [sortByNonce], by simp [sortByNonce], h⟩

/-- `Ready`'s loop moves the run of consecutive nonces from `next`. -/
theorem readyLoop_eq {items : List Transaction} {index : Array Nat} (h : Indexes items index)
    (next : Nat) (ready : List (Option Transaction)) :
    let r := readyLoop items index next ready
    r.1 = ready ++ (readyRun next (sortByNonce items)).1.map some ∧
      sortByNonce r.2.1 = (readyRun next (sortByNonce items)).2 ∧ Indexes r.2.1 r.2.2 := by
  induction items, index, next, ready using readyLoop.induct with
  | case1 items index ready h0 ih =>
    -- the least nonce is `next`: its transaction is moved, and the run goes on
    obtain ⟨t, hlook, htn, hsort⟩ := h.least h0
    obtain ⟨-, hpop⟩ := h.pop h0
    obtain ⟨h1, h2, h3⟩ := ih hpop
    rw [readyLoop, dif_pos h0, if_pos rfl]
    refine ⟨?_, ?_, h3⟩
    · rw [h1, hlook, hsort, readyRun, if_pos htn]
      simp
    · rw [h2, hsort, readyRun, if_pos htn]
  | case2 items index next ready h0 hne =>
    obtain ⟨t, -, htn, hsort⟩ := h.least h0
    rw [readyLoop, dif_pos h0, if_neg hne]
    refine ⟨?_, ?_, h⟩
    · rw [hsort, readyRun, if_neg (by rw [htn]; exact hne)]
      simp
    · rw [hsort, readyRun, if_neg (by rw [htn]; exact hne)]
  | case3 items index next ready h0 =>
    have hnil := h.eq_nil h0
    subst hnil
    rw [readyLoop, dif_neg h0]
    exact ⟨by simp [sortByNonce, readyRun], by simp [sortByNonce, readyRun], h⟩

/-! ## Refinement of the sorted-list model -/

/-- The map as the sorted-list model sees it: its transactions sorted. -/
def abs (m : TxSortedMap) (h : m.Inv) : Core.TxSortedMap :=
  ⟨sortByNonce m.items, sortByNonce_sorted h.indexes.nodup⟩

/-- Sorting commutes with taking the transactions that satisfy `p`. -/
theorem sortByNonce_filter {items : List Transaction} (hnd : (items.map (·.Nonce)).Nodup)
    (p : Transaction → Bool) : sortByNonce (items.filter p) = (sortByNonce items).filter p :=
  sortByNonce_eq ((sortByNonce_sorted hnd).filter p) ((sortByNonce_perm items).filter p)

/-- Finding a nonce does not depend on the order of the transactions. -/
theorem lookup_perm {l₁ l₂ : List Transaction} (hnd : (l₂.map (·.Nonce)).Nodup) (hp : l₁.Perm l₂)
    (nonce : Nat) : lookup l₁ nonce = lookup l₂ nonce := by
  have hnd₁ : (l₁.map (·.Nonce)).Nodup := (hp.map _).nodup_iff.2 hnd
  cases h₂ : lookup l₂ nonce with
  | none =>
    exact lookup_eq_none.2 fun hmem => lookup_eq_none.1 h₂ ((hp.map _).subset hmem)
  | some t =>
    obtain ⟨ht, rfl⟩ := lookup_eq_some h₂
    exact lookup_of_mem hnd₁ (hp.symm.subset ht)

theorem abs_Get {m : TxSortedMap} (h : m.Inv) (nonce : Nat) :
    (abs m h).Get nonce = lookup m.items nonce :=
  lookup_perm h.indexes.nodup (sortByNonce_perm m.items) nonce

/-- Dropping as many as `takeWhile` takes is `dropWhile`. -/
theorem drop_length_takeWhile {α : Type} (p : α → Bool) (l : List α) :
    l.drop (l.takeWhile p).length = l.dropWhile p := by
  induction l with
  | nil => rfl
  | cons a l ih =>
    by_cases hp : p a = true
    · rw [List.takeWhile_cons_of_pos hp, List.dropWhile_cons_of_pos hp, List.length_cons,
        List.drop_succ_cons, ih]
    · rw [List.takeWhile_cons_of_neg hp, List.dropWhile_cons_of_neg hp, List.length_nil,
        List.drop_zero]

/-- `Forward` returns and keeps what the model does, and cuts the cache to the
sorted transactions it keeps. -/
theorem Inv.Forward {m : TxSortedMap} (h : m.Inv) (threshold : Nat) :
    (m.Forward threshold).2.Inv ∧
      (m.Forward threshold).1 = ((abs m h).Forward threshold).1.map some ∧
      sortByNonce (m.Forward threshold).2.items = ((abs m h).Forward threshold).2.items := by
  obtain ⟨h1, h2, h3⟩ := forwardLoop_eq threshold h.indexes []
  have hout : (m.Forward threshold).1 =
      ((sortByNonce m.items).takeWhile fun tx => decide (tx.Nonce < threshold)).map some := by
    show (forwardLoop threshold m.items m.index []).1 = _
    simpa using h1
  have hitems : sortByNonce (m.Forward threshold).2.items =
      (sortByNonce m.items).dropWhile fun tx => decide (tx.Nonce < threshold) := h2
  refine ⟨⟨h3, fun c hc => ?_⟩, hout, hitems⟩
  -- the cache loses its front: the sorted transactions below the threshold
  simp only [TxSortedMap.Forward, Option.map_eq_some_iff] at hc
  obtain ⟨c0, hc0, rfl⟩ := hc
  rw [h.cache c0 hc0, h1, hitems, List.nil_append, List.length_map]
  exact drop_length_takeWhile _ _

/-- `Ready` returns and keeps what the model does. -/
theorem Inv.Ready {m : TxSortedMap} (h : m.Inv) (start : Nat) :
    (m.Ready start).2.Inv ∧
      (m.Ready start).1 = ((abs m h).Ready start).1.map some ∧
      sortByNonce (m.Ready start).2.items = ((abs m h).Ready start).2.items := by
  unfold TxSortedMap.Ready
  split_ifs with h0 hgt
  · -- no nonce is stored
    have hnil := h.indexes.eq_nil (by omega)
    simp only [abs, Core.TxSortedMap.Ready, hnil, sortByNonce, List.mergeSort_nil]
    refine ⟨h, ?_, ?_⟩ <;> simp
  · -- the least nonce is above `start`
    obtain ⟨t, -, htn, hsort⟩ := h.indexes.least (by omega)
    have hgt' : t.Nonce > start := by rw [htn]; exact hgt
    simp only [abs, Core.TxSortedMap.Ready, hsort, if_pos hgt']
    refine ⟨h, ?_, ?_⟩ <;> simp
  · obtain ⟨t, -, htn, hsort⟩ := h.indexes.least (by omega)
    obtain ⟨h1, h2, h3⟩ := readyLoop_eq h.indexes m.index[0] []
    have hgt' : ¬t.Nonce > start := by rw [htn]; exact hgt
    refine ⟨⟨h3, fun c hc => absurd hc (by simp)⟩, ?_, ?_⟩
    · simp only [abs, Core.TxSortedMap.Ready, hsort, if_neg hgt']
      rw [h1, hsort, htn]
      simp
    · simp only [abs, Core.TxSortedMap.Ready, hsort, if_neg hgt']
      rw [h2, hsort, htn]

/-- `Remove` answers and keeps what the model does. -/
theorem Inv.Remove {m : TxSortedMap} (h : m.Inv) (nonce : Nat) :
    (m.Remove nonce).2.Inv ∧ (m.Remove nonce).1 = ((abs m h).Remove nonce).1 ∧
      sortByNonce (m.Remove nonce).2.items = ((abs m h).Remove nonce).2.items := by
  rw [Core.TxSortedMap.Remove_fst, Core.TxSortedMap.Remove_items, abs_Get]
  unfold TxSortedMap.Remove
  split
  · -- no transaction of the nonce: nothing changes
    rename_i hnone
    have hnot := lookup_eq_none.1 hnone
    refine ⟨h, by simp [hnone], (List.filter_eq_self.2 fun t ht => ?_).symm⟩
    have := (sortByNonce_perm m.items).subset ht
    simp only [bne_iff_ne, ne_eq]
    rintro rfl
    exact hnot (List.mem_map_of_mem this)
  · rename_i t hsome
    obtain ⟨ht, rfl⟩ := lookup_eq_some hsome
    -- the scan finds the nonce in the heap
    have hmem : t.Nonce ∈ m.index := by
      rw [← Array.mem_toList_iff]
      exact h.indexes.perm.symm.subset (List.mem_map_of_mem ht)
    obtain ⟨i, hi⟩ : ∃ i, m.index.findFinIdx? (· == t.Nonce) = some i := by
      cases hf : m.index.findFinIdx? (· == t.Nonce) with
      | none => exact absurd (Array.findFinIdx?_eq_none_iff.1 hf t.Nonce hmem) (by simp)
      | some i => exact ⟨i, rfl⟩
    have hval : m.index[i.1] = t.Nonce := by simpa using (Array.findFinIdx?_eq_some_iff.1 hi).1
    obtain ⟨hret, hheap, hperm⟩ := h.indexes.heap.Remove keyedBy_nonceLess i.2
    rw [hret, hval] at hperm
    simp only [hi]
    exact ⟨⟨⟨nodup_delete h.indexes.nodup _,
      perm_delete_of_append h.indexes.nodup h.indexes.perm hperm, hheap⟩,
      fun c hc => absurd hc (by simp)⟩, by simp [hsome], sortByNonce_filter h.indexes.nodup _⟩

/-- `Filter` removes what the model removes, in the map's order, and keeps
what the model keeps. -/
theorem Inv.Filter {m : TxSortedMap} (h : m.Inv) (filter : Transaction → Bool) :
    (m.Filter filter).2.Inv ∧ (m.Filter filter).1.Perm ((abs m h).Filter filter).1 ∧
      sortByNonce (m.Filter filter).2.items = ((abs m h).Filter filter).2.items := by
  have hnd := h.indexes.nodup
  have hkept := sortByNonce_filter hnd fun tx => !filter tx
  have hrem : (m.Filter filter).1 = m.items.filter filter := by
    simp only [TxSortedMap.Filter]
    split_ifs <;> rfl
  refine ⟨?_, by rw [hrem]; exact ((sortByNonce_perm m.items).filter filter).symm, ?_⟩
  · simp only [TxSortedMap.Filter]
    split_ifs with hpos
    · -- something was removed: the heap is rebuilt from the kept nonces
      refine ⟨⟨hnd.sublist (List.filter_sublist.map _), ?_,
        GoHeap.Init_heap keyedBy_nonceLess _⟩, fun c hc => absurd hc (by simp)⟩
      exact perm_Init _
    · -- nothing was removed: the map is as it was
      have hnil : m.items.filter filter = [] := List.eq_nil_of_length_eq_zero (by omega)
      have hall : m.items.filter (fun tx => !filter tx) = m.items :=
        List.filter_eq_self.2 fun tx htx => by
          simpa using List.filter_eq_nil_iff.1 hnil tx htx
      simp only [hall]
      exact h
  · simp only [TxSortedMap.Filter]
    split_ifs <;> exact hkept

/-- The last of the first `size + 1` sorted transactions is the only one of
its nonce among them. -/
theorem take_succ_delete {S : List Transaction} (hS : NonceSorted S) {size : Nat}
    (hsize : size < S.length) : delete (S.take (size + 1)) S[size].Nonce = S.take size := by
  rw [List.take_add_one, List.getElem?_eq_getElem hsize, Option.toList_some, delete,
    List.filter_append, List.filter_singleton]
  simp only [bne_self_eq_false, cond_false, List.append_nil]
  refine List.filter_eq_self.2 fun t ht => ?_
  obtain ⟨j, hj, rfl⟩ := List.getElem_of_mem ht
  have hjs : j < size := by simp at hj; omega
  have hlt := List.pairwise_iff_getElem.1 hS j size (by omega) hsize hjs
  simp only [List.getElem_take, bne_iff_ne, ne_eq]
  omega

/-- `Cap`'s loop drops the sorted transactions from `size - 1` down to
`threshold`, highest first. -/
theorem capLoop_eq {S : List Transaction} (hS : NonceSorted S) (threshold : Nat) (size : Nat) :
    ∀ (items : List Transaction) (drops : List (Option Transaction)), size ≤ S.length →
      sortByNonce items = S.take size → (items.map (·.Nonce)).Nodup →
      (capLoop (S.map (·.Nonce)).toArray threshold size items drops).1 =
          drops ++ ((S.take size).drop threshold).reverse.map some ∧
        sortByNonce (capLoop (S.map (·.Nonce)).toArray threshold size items drops).2 =
          S.take (min size threshold) ∧
        ((capLoop (S.map (·.Nonce)).toArray threshold size items drops).2.map (·.Nonce)).Nodup := by
  induction size with
  | zero =>
    intro items drops _ hsort hnd
    simp [capLoop, hsort, hnd]
  | succ size ih =>
    intro items drops hsize hsort hnd
    by_cases hk : size + 1 > threshold
    · -- the transaction at `size` is dropped
      have hlt : size < S.length := by omega
      have htake : S.take (size + 1) = S.take size ++ [S[size]] := by
        rw [List.take_add_one, List.getElem?_eq_getElem hlt, Option.toList_some]
      have hmemS : S[size] ∈ sortByNonce items := by
        rw [hsort, htake]
        exact List.mem_append_right _ (List.mem_singleton_self _)
      have hmem : S[size] ∈ items := (sortByNonce_perm items).subset hmemS
      have hidx : (S.map (·.Nonce)).toArray[size]? = some S[size].Nonce := by simp [hlt]
      have hsort' : sortByNonce (delete items S[size].Nonce) = S.take size := by
        rw [delete, sortByNonce_filter hnd, hsort]
        exact take_succ_delete hS hlt
      obtain ⟨h1, h2, h3⟩ := ih (delete items S[size].Nonce) (drops ++ [some S[size]]) (by omega)
        hsort' (nodup_delete hnd _)
      rw [capLoop, if_pos hk, hidx]
      simp only [lookup_of_mem hnd hmem]
      refine ⟨?_, ?_, h3⟩
      · rw [h1, htake, List.drop_append_of_le_length (by simp; omega)]
        simp
      · rw [h2, Nat.min_eq_right (by omega), Nat.min_eq_right (by omega)]
    · -- below the threshold nothing is dropped
      rw [capLoop, if_neg hk]
      have hdrop : (S.take (size + 1)).drop threshold = [] :=
        List.drop_eq_nil_of_le (by simp; omega)
      refine ⟨by simp [hdrop], by rw [hsort, Nat.min_eq_left (by omega)], hnd⟩

/-- Sorting the heap gives the nonces of the sorted transactions. -/
theorem Indexes.mergeSort {items : List Transaction} {index : Array Nat} (h : Indexes items index) :
    index.toList.mergeSort (fun a b => decide (a ≤ b)) = (sortByNonce items).map (·.Nonce) := by
  have hp : (index.toList.mergeSort fun a b => decide (a ≤ b)).Perm
      ((sortByNonce items).map (·.Nonce)) :=
    (List.mergeSort_perm _ _).trans (h.perm.trans ((sortByNonce_perm items).map _).symm)
  have hle : (index.toList.mergeSort fun a b => decide (a ≤ b)).Pairwise
      fun a b => decide (a ≤ b) = true :=
    List.pairwise_mergeSort (fun a b c hab hbc => by simp only [decide_eq_true_eq] at *; omega)
      (fun a b => by simp only [Bool.or_eq_true, decide_eq_true_eq]; omega) index.toList
  have h₁ : (index.toList.mergeSort fun a b => decide (a ≤ b)).Pairwise (· ≤ ·) := by
    simpa using hle
  have h₂ : ((sortByNonce items).map (·.Nonce)).Pairwise (· ≤ ·) :=
    List.pairwise_map.2 ((sortByNonce_sorted h.nodup).imp Nat.le_of_lt)
  exact hp.eq_of_pairwise (fun _ _ _ _ hab hba => Nat.le_antisymm hab hba) h₁ h₂

/-- `Cap` drops and keeps what the model does, and cuts the cache to the
sorted transactions it keeps. -/
theorem Inv.Cap {m : TxSortedMap} (h : m.Inv) (threshold : Nat) :
    (m.Cap threshold).2.Inv ∧
      (m.Cap threshold).1 = ((abs m h).Cap threshold).1.map some ∧
      sortByNonce (m.Cap threshold).2.items = ((abs m h).Cap threshold).2.items := by
  have hlen : (sortByNonce m.items).length = m.items.length := (sortByNonce_perm _).length_eq
  by_cases hle : m.items.length ≤ threshold
  · -- nothing to drop
    have hle' : (sortByNonce m.items).length ≤ threshold := by omega
    simp only [TxSortedMap.Cap, if_pos hle, abs, Core.TxSortedMap.Cap, hle', ↓reduceIte]
    refine ⟨h, ?_, ?_⟩ <;> simp
  · have hgt : ¬(sortByNonce m.items).length ≤ threshold := by omega
    have hall : (sortByNonce m.items).take m.items.length = sortByNonce m.items :=
      List.take_of_length_le (le_of_eq hlen)
    obtain ⟨h1, h2, h3⟩ := capLoop_eq (sortByNonce_sorted h.indexes.nodup) threshold
      m.items.length m.items [] (by omega) hall.symm h.indexes.nodup
    rw [hall, List.nil_append] at h1
    rw [Nat.min_eq_right (by omega)] at h2
    simp only [TxSortedMap.Cap, if_neg hle, abs, Core.TxSortedMap.Cap, hgt, ↓reduceIte,
      h.indexes.mergeSort]
    refine ⟨⟨⟨h3, ?_, GoHeap.Init_heap keyedBy_nonceLess _⟩, fun c hc => ?_⟩, h1, h2⟩
    · -- the new heap holds the nonces of the first `threshold` sorted transactions
      rw [List.extract_toArray, List.extract_eq_take_drop, List.drop_zero, Nat.sub_zero,
        ← List.map_take, ← h2]
      refine (perm_Init _).trans ?_
      exact (sortByNonce_perm _).map _
    · simp only [Option.map_eq_some_iff] at hc
      obtain ⟨c0, hc0, rfl⟩ := hc
      rw [h.cache c0 hc0, h1, h2, List.length_map, List.length_reverse, List.length_drop, hlen,
        Nat.sub_sub_self (by omega)]

end TxSortedMap

/-! ## Runs of operations -/

/-- The calls that change a `txSortedMap`; `Flatten` fills the cache. -/
inductive MapOp where
  | Put (tx : Transaction)
  | Forward (threshold : Nat)
  | Filter (filter : Transaction → Bool)
  | Cap (threshold : Nat)
  | Remove (nonce : Nat)
  | Ready (start : Nat)
  | Flatten

namespace TxSortedMap

/-- The map a call leaves. -/
def apply (m : TxSortedMap) : MapOp → TxSortedMap
  | .Put tx => m.Put tx
  | .Forward threshold => (m.Forward threshold).2
  | .Filter filter => (m.Filter filter).2
  | .Cap threshold => (m.Cap threshold).2
  | .Remove nonce => (m.Remove nonce).2
  | .Ready start => (m.Ready start).2
  | .Flatten => m.Flatten.2

/-- The map a sequence of calls leaves. -/
def run (m : TxSortedMap) (ops : List MapOp) : TxSortedMap := ops.foldl apply m

theorem Inv.apply {m : TxSortedMap} (h : m.Inv) : ∀ op, (m.apply op).Inv
  | .Put tx => (h.Put tx).1
  | .Forward threshold => (h.Forward threshold).1
  | .Filter filter => (h.Filter filter).1
  | .Cap threshold => (h.Cap threshold).1
  | .Remove nonce => (h.Remove nonce).1
  | .Ready start => (h.Ready start).1
  | .Flatten => h.Flatten.2.2

theorem Inv.run {m : TxSortedMap} (h : m.Inv) (ops : List MapOp) : (m.run ops).Inv := by
  induction ops generalizing m with
  | nil => exact h
  | cons op ops ih => exact ih (h.apply op)

/-! ## What the invariant guarantees of each call -/

section Results

variable {m : TxSortedMap} (h : m.Inv)
include h

/-- A cache is the stored transactions in nonce order. -/
theorem Inv.cache_sorted (c : List Transaction) (hc : m.cache = some c) :
    NonceSorted c ∧ c.Perm m.items := by
  rw [h.cache c hc]
  exact ⟨sortByNonce_sorted h.indexes.nodup, sortByNonce_perm _⟩

/-- `Flatten` returns the stored transactions in nonce order. -/
theorem Inv.flatten_sorted : NonceSorted m.Flatten.1 ∧ m.Flatten.1.Perm m.items := by
  rw [h.Flatten.1]
  exact ⟨sortByNonce_sorted h.indexes.nodup, sortByNonce_perm _⟩

/-- `Forward` returns, in nonce order, the stored transactions below the
threshold, and keeps the others. -/
theorem Inv.forward_spec (threshold : Nat) :
    ∃ r, (m.Forward threshold).1 = r.map some ∧ NonceSorted r ∧
      r.Perm (m.items.filter fun tx => decide (tx.Nonce < threshold)) ∧
      (r ++ (m.Forward threshold).2.items).Perm m.items := by
  obtain ⟨-, hout, hitems⟩ := h.Forward threshold
  have hs := sortByNonce_sorted h.indexes.nodup
  refine ⟨_, hout, hs.sublist (List.takeWhile_sublist _), ?_, ?_⟩
  · show ((sortByNonce m.items).takeWhile _).Perm _
    rw [← hs.filter_lt]
    exact (sortByNonce_perm _).filter _
  · -- the kept transactions sort to the model's, the rest of the sorted list
    calc ((abs m h).Forward threshold).1 ++ (m.Forward threshold).2.items
        List.Perm _ (((abs m h).Forward threshold).1 ++ sortByNonce (m.Forward threshold).2.items) :=
          (sortByNonce_perm _).symm.append_left _
        _ = sortByNonce m.items := by
          rw [hitems]
          exact List.takeWhile_append_dropWhile
        List.Perm _ m.items := sortByNonce_perm _

/-- `Cap` returns as many transactions as there are above `threshold`, each of
a higher nonce than every one it keeps. -/
theorem Inv.cap_spec (threshold : Nat) :
    ∃ r, (m.Cap threshold).1 = r.map some ∧ r.length = m.items.length - threshold ∧
      (∀ d ∈ r, ∀ x ∈ (m.Cap threshold).2.items, x.Nonce < d.Nonce) ∧
      (r ++ (m.Cap threshold).2.items).Perm m.items := by
  obtain ⟨-, hout, hitems⟩ := h.Cap threshold
  obtain ⟨h1, h2⟩ := Core.TxSortedMap.Cap_eq (abs m h) threshold
  have hs : NonceSorted (sortByNonce m.items) := sortByNonce_sorted h.indexes.nodup
  -- the kept transactions sort to the first `threshold` of the sorted list
  have hkept : sortByNonce (m.Cap threshold).2.items = (sortByNonce m.items).take threshold := by
    rw [hitems, h2]
    rfl
  refine ⟨((sortByNonce m.items).drop threshold).reverse, by rw [hout, h1]; rfl, ?_, ?_, ?_⟩
  · rw [List.length_reverse, List.length_drop, (sortByNonce_perm _).length_eq]
  · intro d hd x hx
    have hx' : x ∈ (sortByNonce m.items).take threshold := by
      rw [← hkept]
      exact (sortByNonce_perm _).symm.subset hx
    have hsplit : NonceSorted ((sortByNonce m.items).take threshold ++
        (sortByNonce m.items).drop threshold) := by
      rw [List.take_append_drop]
      exact hs
    exact (List.pairwise_append.1 hsplit).2.2 x hx' d (List.mem_reverse.1 hd)
  · calc ((sortByNonce m.items).drop threshold).reverse ++ (m.Cap threshold).2.items
        List.Perm _ ((sortByNonce m.items).drop threshold ++ (sortByNonce m.items).take threshold) :=
          (List.reverse_perm _).append (by rw [← hkept]; exact (sortByNonce_perm _).symm)
        List.Perm _ ((sortByNonce m.items).take threshold ++ (sortByNonce m.items).drop threshold) :=
          List.perm_append_comm
        _ = sortByNonce m.items := List.take_append_drop _ _
        List.Perm _ m.items := sortByNonce_perm _

/-- `Ready` returns the run of consecutive nonces from the least stored one,
up to the first missing nonce, if the least is at most `start`, and nothing
otherwise. -/
theorem Inv.ready_spec (start : Nat) :
    ∃ r, (m.Ready start).1 = r.map some ∧ (r ++ (m.Ready start).2.items).Perm m.items ∧
      ∀ t ∈ m.items, (∀ x ∈ m.items, t.Nonce ≤ x.Nonce) →
        (start < t.Nonce → r = []) ∧
        (t.Nonce ≤ start → r.map (·.Nonce) = List.range' t.Nonce r.length ∧
          t.Nonce + r.length ∉ m.items.map (·.Nonce)) := by
  obtain ⟨-, hout, hitems⟩ := h.Ready start
  refine ⟨_, hout, ?_, fun t ht hleast => ?_⟩
  · calc ((abs m h).Ready start).1 ++ (m.Ready start).2.items
        List.Perm _ (((abs m h).Ready start).1 ++ sortByNonce (m.Ready start).2.items) :=
          (sortByNonce_perm _).symm.append_left _
        _ = sortByNonce m.items := by
          rw [hitems]
          exact Core.TxSortedMap.Ready_append _ _
        List.Perm _ m.items := sortByNonce_perm _
  · -- the least transaction heads the sorted list
    have hS := sortByNonce_of_least h.indexes.nodup ht hleast
    have hs : NonceSorted (sortByNonce m.items) := sortByNonce_sorted h.indexes.nodup
    simp only [abs, Core.TxSortedMap.Ready, hS]
    refine ⟨fun hlt => by simp [hlt], fun hle => ?_⟩
    simp only [gt_iff_lt, Nat.not_lt.2 hle, if_false]
    refine ⟨readyRun_nonces _ _, fun hmem => ?_⟩
    rw [← hS] at hmem
    refine readyRun_maximal hs (fun x hx => hleast x ((sortByNonce_perm _).subset hx)) ?_
    exact ((sortByNonce_perm _).map _).symm.subset hmem

end Results

/-- Over every sequence of calls from a new map, the heap holds each stored
nonce once and is a heap, and a cache is the stored transactions in nonce
order; so `Flatten`, `Forward`, `Cap` and `Ready` return what they are meant
to. -/
theorem every_run_keeps_heap_and_cache (ops : List MapOp) :
    let m : TxSortedMap := newTxSortedMap.run ops
    (m.items.map (·.Nonce)).Nodup ∧ m.index.toList.Perm (m.items.map (·.Nonce)) ∧
      GoHeap.IsHeap id m.index m.index.size ∧
      (∀ c, m.cache = some c → NonceSorted c ∧ c.Perm m.items) ∧
      (NonceSorted m.Flatten.1 ∧ m.Flatten.1.Perm m.items) ∧
      (∀ threshold, ∃ r, (m.Forward threshold).1 = r.map some ∧ NonceSorted r ∧
        r.Perm (m.items.filter fun tx => decide (tx.Nonce < threshold)) ∧
        (r ++ (m.Forward threshold).2.items).Perm m.items) ∧
      (∀ threshold, ∃ r, (m.Cap threshold).1 = r.map some ∧
        r.length = m.items.length - threshold ∧
        (∀ d ∈ r, ∀ x ∈ (m.Cap threshold).2.items, x.Nonce < d.Nonce) ∧
        (r ++ (m.Cap threshold).2.items).Perm m.items) ∧
      ∀ start, ∃ r, (m.Ready start).1 = r.map some ∧
        (r ++ (m.Ready start).2.items).Perm m.items ∧
        ∀ t ∈ m.items, (∀ x ∈ m.items, t.Nonce ≤ x.Nonce) →
          (start < t.Nonce → r = []) ∧
          (t.Nonce ≤ start → r.map (·.Nonce) = List.range' t.Nonce r.length ∧
            t.Nonce + r.length ∉ m.items.map (·.Nonce)) := by
  intro m
  have h : m.Inv := inv_newTxSortedMap.run ops
  exact ⟨h.indexes.nodup, h.indexes.perm, h.indexes.heap, h.cache_sorted, h.flatten_sorted,
    h.forward_spec, h.cap_spec, h.ready_spec⟩

end TxSortedMap

end Btp.Core.Impl
