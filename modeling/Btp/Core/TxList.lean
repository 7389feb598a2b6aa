import Mathlib
import Btp.Common.Types

/-!
# Per-account transaction lists

`core/tx_list.go`: `txSortedMap`, a nonce-indexed map with a heap of its
nonces; `txList`, such a map with the cost and gas caps used to filter it; and
`txPricedList`, a heap of every pooled transaction by gas price together with a
count of stale entries.

The nonce heap and the sorted cache of a `txSortedMap` are two views of the map
in nonce order, so the map is modelled as its list of transactions in
increasing nonce order, one per nonce. The price heap is modelled as the list of
its entries; popping it removes an entry that no other entry is cheaper than.
-/

namespace Btp.Core

/-- The fields of `types.Transaction` that the pool reads. `From` is the
address `types.Sender` recovers from the signature (`none` if it fails) and
`Size` the length of the encoding. A transaction is identified by its hash, a
digest of all its fields, so the model takes the transaction itself as its
hash. -/
structure Transaction where
  From : Option Address
  Nonce : Nat
  GasPrice : Nat
  Gas : Nat
  To : Option Address
  Value : Int
  Data : List UInt8
  Size : Nat
deriving DecidableEq, Repr

/-- `Transaction.Cost`: `gasPrice * gas + value`. -/
def Transaction.Cost (tx : Transaction) : Int := tx.GasPrice * tx.Gas + tx.Value

/-- Transactions in strictly increasing nonce order. -/
def NonceSorted (l : List Transaction) : Prop := l.Pairwise (fun a b => a.Nonce < b.Nonce)

/-! ## The nonce-sorted map -/

/-- Insert `tx` into a nonce-sorted list, overwriting the transaction of the
same nonce. -/
def putSorted (tx : Transaction) : List Transaction → List Transaction
  | [] => [tx]
  | t :: ts =>
    if tx.Nonce < t.Nonce then tx :: t :: ts
    else if tx.Nonce = t.Nonce then tx :: ts
    else t :: putSorted tx ts

/-- The transactions of consecutive nonces from `next` at the front of a sorted
list, and what follows them. -/
def readyRun (next : Nat) : List Transaction → List Transaction × List Transaction
  | [] => ([], [])
  | t :: ts =>
    if t.Nonce = next then
      let r := readyRun (next + 1) ts
      (t :: r.1, r.2)
    else ([], t :: ts)

theorem mem_putSorted {tx x : Transaction} {l : List Transaction} (h : x ∈ putSorted tx l) :
    x = tx ∨ x ∈ l := by
  induction l with
  | nil => simpa [putSorted] using h
  | cons t ts ih =>
    unfold putSorted at h
    split_ifs at h
    · simpa using h
    · rcases List.mem_cons.mp h with rfl | hx
      · exact .inl rfl
      · exact .inr (List.mem_cons_of_mem t hx)
    · rcases List.mem_cons.mp h with rfl | hx
      · exact .inr List.mem_cons_self
      · rcases ih hx with rfl | hx
        · exact .inl rfl
        · exact .inr (List.mem_cons_of_mem t hx)

theorem NonceSorted.putSorted {l : List Transaction} (h : NonceSorted l) (tx : Transaction) :
    NonceSorted (Core.putSorted tx l) := by
  induction l with
  | nil => simp [Core.putSorted, NonceSorted]
  | cons t ts ih =>
    unfold NonceSorted at h ⊢
    rw [List.pairwise_cons] at h
    unfold Core.putSorted
    split_ifs with hlt heq
    · -- `tx` goes in front of `t`
      refine List.Pairwise.cons ?_ (List.pairwise_cons.mpr h)
      intro x hx
      rcases List.mem_cons.mp hx with rfl | hx
      · exact hlt
      · exact hlt.trans (h.1 x hx)
    · -- `tx` overwrites `t`
      refine List.Pairwise.cons ?_ h.2
      intro x hx
      rw [heq]
      exact h.1 x hx
    · refine List.Pairwise.cons ?_ (ih h.2)
      intro x hx
      rcases mem_putSorted hx with rfl | hx
      · omega
      · exact h.1 x hx

theorem readyRun_append (next : Nat) (l : List Transaction) :
    (readyRun next l).1 ++ (readyRun next l).2 = l := by
  induction l generalizing next with
  | nil => rfl
  | cons t ts ih =>
    unfold readyRun
    split_ifs
    · simp [ih]
    · rfl

theorem readyRun_snd_sublist (next : Nat) (l : List Transaction) :
    List.Sublist (readyRun next l).2 l := by
  conv_rhs => rw [← readyRun_append next l]
  exact List.sublist_append_right _ _

/-- `txSortedMap`: the transactions of one account, at most one per nonce, in
nonce order. -/
structure TxSortedMap where
  items : List Transaction
  sorted : NonceSorted items

/-- `newTxSortedMap`. -/
def newTxSortedMap : TxSortedMap := ⟨[], List.Pairwise.nil⟩

namespace TxSortedMap

/-- `txSortedMap.Get`. -/
def Get (m : TxSortedMap) (nonce : Nat) : Option Transaction :=
  m.items.find? fun tx => tx.Nonce == nonce

/-- `txSortedMap.Put`. -/
def Put (m : TxSortedMap) (tx : Transaction) : TxSortedMap :=
  ⟨putSorted tx m.items, m.sorted.putSorted tx⟩

/-- `txSortedMap.Forward`: removes, in nonce order, the transactions below
`threshold`. -/
def Forward (m : TxSortedMap) (threshold : Nat) : List Transaction × TxSortedMap :=
  (m.items.takeWhile (fun tx => decide (tx.Nonce < threshold)),
    ⟨m.items.dropWhile (fun tx => decide (tx.Nonce < threshold)),
      m.sorted.sublist (List.dropWhile_sublist _)⟩)

/-- `txSortedMap.Filter`: removes the transactions satisfying `filter`. -/
def Filter (m : TxSortedMap) (filter : Transaction → Bool) : List Transaction × TxSortedMap :=
  (m.items.filter filter, ⟨m.items.filter (fun tx => !filter tx), m.sorted.filter _⟩)

/-- `txSortedMap.Cap`: keeps the `threshold` lowest nonces and returns the
others, highest nonce first. -/
def Cap (m : TxSortedMap) (threshold : Nat) : List Transaction × TxSortedMap :=
  if m.items.length ≤ threshold then ([], m)
  else ((m.items.drop threshold).reverse,
    ⟨m.items.take threshold, m.sorted.sublist (List.take_sublist _ _)⟩)

/-- `txSortedMap.Remove`: whether a transaction of `nonce` was present, and
the map without it. -/
def Remove (m : TxSortedMap) (nonce : Nat) : Bool × TxSortedMap :=
  match m.Get nonce with
  | none => (false, m)
  | some _ => (true, ⟨m.items.filter (fun tx => tx.Nonce != nonce), m.sorted.filter _⟩)

/-- `txSortedMap.Ready`: if the lowest nonce is at most `start`, removes the
run of consecutive nonces from the lowest one. -/
def Ready (m : TxSortedMap) (start : Nat) : List Transaction × TxSortedMap :=
  match m.items with
  | [] => ([], m)
  | t :: _ =>
    if t.Nonce > start then ([], m)
    else ((readyRun t.Nonce m.items).1,
      ⟨(readyRun t.Nonce m.items).2, m.sorted.sublist (readyRun_snd_sublist _ _)⟩)

/-- `txSortedMap.Len`. -/
def Len (m : TxSortedMap) : Nat := m.items.length

/-- `txSortedMap.Flatten`: the transactions in nonce order. -/
def Flatten (m : TxSortedMap) : List Transaction := m.items

end TxSortedMap

/-! ## The per-account list -/

/-- `txList`: a nonce-sorted map with the highest cost and gas of the
transactions added since the caps were last lowered. `strict` lists are the
pending ones, whose nonces must stay contiguous. -/
structure TxList where
  strict : Bool
  txs : TxSortedMap
  costcap : Int
  gascap : Nat

/-- `newTxList`. -/
def newTxList (strict : Bool) : TxList := ⟨strict, newTxSortedMap, 0, 0⟩

namespace TxList

/-- `txList.Overlaps`. -/
def Overlaps (l : TxList) (tx : Transaction) : Bool := (l.txs.Get tx.Nonce).isSome

/-- The insertion at the end of `txList.Add`: store `tx` and raise the caps. -/
def put (l : TxList) (tx : Transaction) : TxList :=
  { l with
    txs := l.txs.Put tx
    costcap := if l.costcap < tx.Cost then tx.Cost else l.costcap
    gascap := if l.gascap < tx.Gas then tx.Gas else l.gascap }

/-- `txList.Add`: whether `tx` was accepted, and the transaction it replaced.
A replacement must pay strictly more and at least `priceBump` percent more.
The percentage is `100+int64(priceBump)`, an `int64` sum of the `uint64`
`priceBump` read as an `int64`; the threshold is a `big.Int`. -/
def Add (l : TxList) (tx : Transaction) (priceBump : Nat) :
    Bool × Option Transaction × TxList :=
  match l.txs.Get tx.Nonce with
  | some old =>
    let threshold : Int := old.GasPrice * (100 + priceBump.toUInt64.toInt64).toInt / 100
    if old.GasPrice ≥ tx.GasPrice ∨ threshold > tx.GasPrice then (false, none, l)
    else (true, some old, l.put tx)
  | none => (true, none, l.put tx)

/-- `txList.Forward`. -/
def Forward (l : TxList) (threshold : Nat) : List Transaction × TxList :=
  ((l.txs.Forward threshold).1, { l with txs := (l.txs.Forward threshold).2 })

/-- `txList.Filter`: removes the transactions costing more than `costLimit` or
needing more than `gasLimit` gas, and in a strict list every transaction above
the lowest removed nonce, returned as the second list. -/
def Filter (l : TxList) (costLimit : Int) (gasLimit : Nat) :
    List Transaction × List Transaction × TxList :=
  if l.costcap ≤ costLimit ∧ l.gascap ≤ gasLimit then ([], [], l)
  else
    let r := l.txs.Filter fun tx => decide (tx.Cost > costLimit) || decide (tx.Gas > gasLimit)
    let l := { l with txs := r.2, costcap := costLimit, gascap := gasLimit }
    if l.strict && !r.1.isEmpty then
      -- `lowest` starts at `math.MaxUint64`
      let lowest := (r.1.map (·.Nonce)).foldl min (2 ^ 64 - 1)
      let i := l.txs.Filter fun tx => decide (tx.Nonce > lowest)
      (r.1, i.1, { l with txs := i.2 })
    else (r.1, [], l)

/-- `txList.Cap`. -/
def Cap (l : TxList) (threshold : Nat) : List Transaction × TxList :=
  ((l.txs.Cap threshold).1, { l with txs := (l.txs.Cap threshold).2 })

/-- `txList.Remove`: whether `tx`'s nonce was present, and in a strict list the
transactions above it, which are removed too. -/
def Remove (l : TxList) (tx : Transaction) : Bool × List Transaction × TxList :=
  let nonce := tx.Nonce
  let r := l.txs.Remove nonce
  if !r.1 then (false, [], l)
  else if l.strict then
    let i := r.2.Filter fun tx => decide (tx.Nonce > nonce)
    (true, i.1, { l with txs := i.2 })
  else (true, [], { l with txs := r.2 })

/-- `txList.Ready`. -/
def Ready (l : TxList) (start : Nat) : List Transaction × TxList :=
  ((l.txs.Ready start).1, { l with txs := (l.txs.Ready start).2 })

/-- `txList.Len`. -/
def Len (l : TxList) : Nat := l.txs.Len

/-- `txList.Empty`. -/
def Empty (l : TxList) : Bool := l.Len == 0

/-- `txList.Flatten`. -/
def Flatten (l : TxList) : List Transaction := l.txs.Flatten

end TxList

/-! ## Address sets and the lookup of all transactions -/

/-- `accountSet`: addresses in the order they were added, each once. -/
structure AccountSet where
  accounts : List Address
  nodup : accounts.Nodup

/-- `newAccountSet` with no addresses. -/
def newAccountSet : AccountSet := ⟨[], List.nodup_nil⟩

namespace AccountSet

/-- `accountSet.contains`. -/
def contains (as : AccountSet) (addr : Address) : Bool := decide (addr ∈ as.accounts)

/-- `accountSet.containsTx`: false when the sender cannot be recovered. -/
def containsTx (as : AccountSet) (tx : Transaction) : Bool :=
  match tx.From with
  | some addr => as.contains addr
  | none => false

/-- `accountSet.add`. -/
def add (as : AccountSet) (addr : Address) : AccountSet :=
  if h : addr ∈ as.accounts then as
  else ⟨as.accounts ++ [addr], as.nodup.append (List.nodup_singleton addr) (by simpa using h)⟩

/-- `accountSet.addTx`. -/
def addTx (as : AccountSet) (tx : Transaction) : AccountSet :=
  match tx.From with
  | some addr => as.add addr
  | none => as

/-- `accountSet.flatten`. -/
def flatten (as : AccountSet) : List Address := as.accounts

end AccountSet

/-- `txLookup`: every transaction of the pool, each once, keyed by hash. -/
structure TxLookup where
  all : List Transaction
  nodup : all.Nodup

/-- `newTxLookup`. -/
def newTxLookup : TxLookup := ⟨[], List.nodup_nil⟩

namespace TxLookup

/-- `txLookup.Get`. -/
def Get (t : TxLookup) (hash : Transaction) : Option Transaction :=
  if hash ∈ t.all then some hash else none

/-- `txLookup.Count`. -/
def Count (t : TxLookup) : Nat := t.all.length

/-- `txLookup.Add`: a map assignment, so adding a present transaction changes
nothing. -/
def Add (t : TxLookup) (tx : Transaction) : TxLookup :=
  if h : tx ∈ t.all then t
  else ⟨t.all ++ [tx], t.nodup.append (List.nodup_singleton tx) (by simpa using h)⟩

/-- `txLookup.Remove`. -/
def Remove (t : TxLookup) (hash : Transaction) : TxLookup :=
  ⟨t.all.erase hash, t.nodup.erase hash⟩

/-- `txLookup.Range`: the transactions in iteration order. -/
def Range (t : TxLookup) : List Transaction := t.all

end TxLookup

/-! ## The price heap -/

/-- `priceHeap.Less`: cheaper first, and among equal prices the higher nonce. -/
def priceLess (a b : Transaction) : Bool :=
  decide (a.GasPrice < b.GasPrice) || (a.GasPrice == b.GasPrice && decide (a.Nonce > b.Nonce))

/-- `heap.Pop` on the price heap: removes the first entry that no entry is
`Less` than. -/
def popCheapest : List Transaction → Option (Transaction × List Transaction)
  | [] => none
  | t :: ts =>
    match popCheapest ts with
    | some (m, rest) => if priceLess m t then some (m, t :: rest) else some (t, ts)
    | none => some (t, [])

theorem popCheapest_eq_none {l : List Transaction} : popCheapest l = none ↔ l = [] := by
  cases l with
  | nil => simp [popCheapest]
  | cons t ts =>
    simp only [popCheapest, reduceCtorEq, iff_false]
    split
    · split_ifs <;> simp
    · simp

theorem popCheapest_length {l : List Transaction} {m : Transaction} {rest : List Transaction}
    (h : popCheapest l = some (m, rest)) : rest.length + 1 = l.length := by
  induction l generalizing m rest with
  | nil => cases h
  | cons t ts ih =>
    unfold popCheapest at h
    split at h
    · rename_i m' rest' hts
      split_ifs at h
      · cases h
        simp [ih hts]
      · cases h
        rfl
    · rename_i hts
      obtain rfl := popCheapest_eq_none.mp hts
      cases h
      rfl

/-- `txPricedList`: the entries of the price heap, and how many of them are
known to be stale (no longer in the pool). -/
structure TxPricedList where
  items : List Transaction
  stales : Int

/-- `newTxPricedList`. -/
def newTxPricedList : TxPricedList := ⟨[], 0⟩

namespace TxPricedList

/-- `txPricedList.Put`. -/
def Put (l : TxPricedList) (tx : Transaction) : TxPricedList :=
  { l with items := l.items ++ [tx] }

/-- `txPricedList.Removed`: count `count` more stale entries, and rebuild the
heap from `all` once more than a quarter of it is stale. -/
def Removed (l : TxPricedList) (all : TxLookup) (count : Nat) : TxPricedList :=
  let stales := l.stales + count
  if stales ≤ ((l.items.length / 4 : Nat) : Int) then { l with stales }
  else ⟨all.Range, 0⟩

/-- The loop of `txPricedList.Underpriced`: pop stale entries off the top of
the heap. The fuel is the number of entries. -/
def dropStale (all : TxLookup) : Nat → TxPricedList → TxPricedList
  | 0, l => l
  | fuel + 1, l =>
    match popCheapest l.items with
    | some (head, rest) =>
      if all.Get head = none then dropStale all fuel ⟨rest, l.stales - 1⟩ else l
    | none => l

/-- `txPricedList.Underpriced`: whether `tx` is at most as dear as the
cheapest live entry; the stale entries on top are dropped on the way. -/
def Underpriced (l : TxPricedList) (tx : Transaction) (locals : AccountSet) (all : TxLookup) :
    Bool × TxPricedList :=
  if locals.containsTx tx then (false, l)
  else
    let l := dropStale all l.items.length l
    match popCheapest l.items with
    -- "Pricing query for empty pool"
    | none => (false, l)
    | some (cheapest, _) => (decide (cheapest.GasPrice ≥ tx.GasPrice), l)

/-- The loop of `txPricedList.Discard`: pop entries until `count` remote live
ones are dropped, setting aside the local ones. Returns the remaining entries,
the stale count, the drops and the saved entries. The fuel is the number of
entries. -/
def discardLoop (locals : AccountSet) (all : TxLookup) :
    Nat → Nat → List Transaction → Int → List Transaction → List Transaction →
      List Transaction × Int × List Transaction × List Transaction
  | 0, _, items, stales, drop, save => (items, stales, drop, save)
  | _, 0, items, stales, drop, save => (items, stales, drop, save)
  | fuel + 1, count + 1, items, stales, drop, save =>
    match popCheapest items with
    | none => (items, stales, drop, save)
    | some (tx, rest) =>
      if all.Get tx = none then discardLoop locals all fuel (count + 1) rest (stales - 1) drop save
      else if locals.containsTx tx then
        discardLoop locals all fuel (count + 1) rest stales drop (save ++ [tx])
      else discardLoop locals all fuel count rest stales (drop ++ [tx]) save

/-- `txPricedList.Discard`: the `count` cheapest remote transactions, removed
from the heap; local ones popped on the way are pushed back. -/
def Discard (l : TxPricedList) (count : Nat) (locals : AccountSet) (all : TxLookup) :
    List Transaction × TxPricedList :=
  let r := discardLoop locals all l.items.length count l.items l.stales [] []
  (r.2.2.1, ⟨r.1 ++ r.2.2.2, r.2.1⟩)

end TxPricedList

end Btp.Core
