import Btp.Core.TxList
import Btp.Lib.GoHeap

/-!
# The price heap of the pool as the code keeps it

`txPricedList` holds the pool's transactions in a `priceHeap`, a
`container/heap` whose `Less` puts the cheaper transaction first and, among
equal prices, the one of higher nonce. A transaction that leaves the pool
keeps its entry, which is then stale; `Removed` counts stale entries and
rebuilds the heap from the pool once they are more than a quarter of it, and
the loops of `Cap`, `Underpriced` and `Discard` drop the stale entries they
pop.

Here the heap is an array under `GoHeap`, and a value of `TxPricedList`
carries the heap property, which every call keeps. The loops of `Cap` and
`Discard` pop the cheapest entry until they stop, and push back the local
transactions they set aside. What they keep is `Popped`: with what was
dropped, set aside and found stale, the heap makes up the one they started
from. From it, `Discard` drops only live remote transactions, none dearer
than a live remote one left in the heap, and `Cap` drops exactly the live
remote ones below the threshold.
-/

namespace Btp.Core.Impl

/-- The order of `priceHeap.Less`: the price, then the nonce reversed. -/
def priceKey (tx : Transaction) : Lex (Nat × OrderDual Nat) :=
  toLex (tx.GasPrice, OrderDual.toDual tx.Nonce)

theorem keyedBy_priceLess : GoHeap.KeyedBy priceLess priceKey := fun a b => by
  simp only [priceLess, priceKey, Prod.Lex.toLex_lt_toLex, OrderDual.toDual_lt_toDual,
    Bool.or_eq_true, Bool.and_eq_true, decide_eq_true_eq, beq_iff_eq, gt_iff_lt]

/-- `txPricedList`: the `priceHeap`, a heap, and the count of its entries
known to be stale. -/
structure TxPricedList where
  items : Array Transaction
  stales : Int
  heap : GoHeap.IsHeap priceKey items items.size

/-- `newTxPricedList`. -/
def newTxPricedList : TxPricedList := ⟨#[], 0, fun _ hj => absurd hj (by simp)⟩

namespace TxPricedList

/-- `txPricedList.Put`. -/
def Put (l : TxPricedList) (tx : Transaction) : TxPricedList :=
  ⟨GoHeap.Push priceLess l.items tx, l.stales, l.heap.Push keyedBy_priceLess tx⟩

/-- `txPricedList.Removed`: count `count` more stale entries, and rebuild the
heap from `all` once more than a quarter of it is stale. -/
def Removed (l : TxPricedList) (all : TxLookup) (count : Nat) : TxPricedList :=
  if l.stales + count ≤ ((l.items.size / 4 : Nat) : Int) then { l with stales := l.stales + count }
  else ⟨GoHeap.Init priceLess all.Range.toArray, 0, GoHeap.Init_heap keyedBy_priceLess _⟩

/-- The loop of `txPricedList.Cap`: pop entries, dropping the stale ones,
until a live one at or above `threshold` is popped and set aside; below it,
local transactions are set aside and the others dropped. Returns the heap,
the stale count, the drops and the transactions set aside. -/
def capLoop (all : TxLookup) (locals : AccountSet) (threshold : Int) (items : Array Transaction)
    (stales : Int) (drop save : List Transaction) :
    Array Transaction × Int × List Transaction × List Transaction :=
  if h : 0 < items.size then
    if all.Get (GoHeap.Pop priceLess items h).2 = none then
      capLoop all locals threshold (GoHeap.Pop priceLess items h).1 (stales - 1) drop save
    else if ((GoHeap.Pop priceLess items h).2.GasPrice : Int) ≥ threshold then
      ((GoHeap.Pop priceLess items h).1, stales, drop, save ++ [(GoHeap.Pop priceLess items h).2])
    else if locals.containsTx (GoHeap.Pop priceLess items h).2 then
      capLoop all locals threshold (GoHeap.Pop priceLess items h).1 stales drop
        (save ++ [(GoHeap.Pop priceLess items h).2])
    else
      capLoop all locals threshold (GoHeap.Pop priceLess items h).1 stales
        (drop ++ [(GoHeap.Pop priceLess items h).2]) save
  else (items, stales, drop, save)
termination_by items.size
decreasing_by all_goals simp; omega

/-- The loop of `txPricedList.Discard`: pop entries while there are any and
fewer than `count` have been dropped, dropping the stale ones and the remote
transactions and setting aside the local ones. -/
def discardLoop (all : TxLookup) (locals : AccountSet) (items : Array Transaction) (count : Nat)
    (stales : Int) (drop save : List Transaction) :
    Array Transaction × Int × List Transaction × List Transaction :=
  if h : 0 < items.size ∧ 0 < count then
    if all.Get (GoHeap.Pop priceLess items h.1).2 = none then
      discardLoop all locals (GoHeap.Pop priceLess items h.1).1 count (stales - 1) drop save
    else if locals.containsTx (GoHeap.Pop priceLess items h.1).2 then
      discardLoop all locals (GoHeap.Pop priceLess items h.1).1 count stales drop
        (save ++ [(GoHeap.Pop priceLess items h.1).2])
    else
      discardLoop all locals (GoHeap.Pop priceLess items h.1).1 (count - 1) stales
        (drop ++ [(GoHeap.Pop priceLess items h.1).2]) save
  else (items, stales, drop, save)
termination_by items.size
decreasing_by all_goals simp; omega

/-- The loop of `txPricedList.Underpriced`: pop stale entries off the top. -/
def dropStale (all : TxLookup) (items : Array Transaction) (stales : Int) :
    Array Transaction × Int :=
  if h : 0 < items.size then
    if all.Get items[0] = none then dropStale all (GoHeap.Pop priceLess items h).1 (stales - 1)
    else (items, stales)
  else (items, stales)
termination_by items.size
decreasing_by simp; omega

/-! ## What the loops keep -/

/-- The price order read off the key: a key no greater has a price no
greater. -/
theorem price_le_of_priceKey_le {a b : Transaction} (h : priceKey a ≤ priceKey b) :
    a.GasPrice ≤ b.GasPrice := by
  simp only [priceKey, Prod.Lex.toLex_le_toLex] at h
  omega

/-- Popping `x` off a heap `items` whose entries, with `A`, `B` and `C`, are
`start`: the rest of the heap, with `x` added to them, still are. -/
theorem perm_after_pop {rest items start A B C A' B' C' : List Transaction} {x : Transaction}
    (hpop : (rest ++ [x]).Perm items) (h : (items ++ A ++ B ++ C).Perm start)
    (hx : (A' ++ B' ++ C').Perm (A ++ B ++ C ++ [x])) : (rest ++ A' ++ B' ++ C').Perm start := by
  have h1 : (rest ++ A' ++ B' ++ C').Perm (rest ++ (A ++ B ++ C ++ [x])) := by
    simpa only [List.append_assoc] using hx.append_left rest
  refine h1.trans (List.Perm.trans (List.perm_iff_count.2 fun a => ?_) h)
  have hcount := List.perm_iff_count.1 hpop a
  simp only [List.count_append] at hcount ⊢
  omega

/-- What a loop of `Cap` or `Discard` keeps: the heap is a heap, and with the
transactions dropped and set aside and the stale entries popped it makes up
the heap the loop started from; `stales` went down once per stale entry. -/
structure Popped (all : TxLookup) (start : Array Transaction) (stales₀ : Int)
    (items : Array Transaction) (stales : Int) (drop save : List Transaction) : Prop where
  heap : GoHeap.IsHeap priceKey items items.size
  perm : ∃ stale : List Transaction, (items.toList ++ drop ++ save ++ stale).Perm start.toList ∧
    (∀ s ∈ stale, all.Get s = none) ∧ stales = stales₀ - stale.length

section Popped

variable {all : TxLookup} {start items : Array Transaction} {stales₀ stales : Int}
  {drop save : List Transaction}

theorem Popped.init (h : GoHeap.IsHeap priceKey start start.size) (all : TxLookup)
    (stales₀ : Int) : Popped all start stales₀ start stales₀ [] [] :=
  ⟨h, [], by simp, by simp, by simp⟩

/-- Popping a stale entry. -/
theorem Popped.pop_stale (h : Popped all start stales₀ items stales drop save)
    (h0 : 0 < items.size) (hs : all.Get (GoHeap.Pop priceLess items h0).2 = none) :
    Popped all start stales₀ (GoHeap.Pop priceLess items h0).1 (stales - 1) drop save := by
  obtain ⟨-, hheap, hpop⟩ := h.heap.Pop keyedBy_priceLess h0
  obtain ⟨stale, hperm, hstale, hcount⟩ := h.perm
  refine ⟨hheap, stale ++ [(GoHeap.Pop priceLess items h0).2],
    perm_after_pop hpop hperm (List.Perm.of_eq (by simp)), fun s hs' => ?_, by simp; omega⟩
  rcases List.mem_append.1 hs' with hs' | hs'
  · exact hstale s hs'
  · rw [List.mem_singleton.1 hs']
    exact hs

/-- Popping an entry and dropping it. -/
theorem Popped.pop_drop (h : Popped all start stales₀ items stales drop save)
    (h0 : 0 < items.size) :
    Popped all start stales₀ (GoHeap.Pop priceLess items h0).1 stales
      (drop ++ [(GoHeap.Pop priceLess items h0).2]) save := by
  obtain ⟨-, hheap, hpop⟩ := h.heap.Pop keyedBy_priceLess h0
  obtain ⟨stale, hperm, hstale, hcount⟩ := h.perm
  refine ⟨hheap, stale, perm_after_pop hpop hperm
    (List.perm_iff_count.2 fun a => by simp only [List.count_append]; omega), hstale, hcount⟩

/-- Popping an entry and setting it aside. -/
theorem Popped.pop_save (h : Popped all start stales₀ items stales drop save)
    (h0 : 0 < items.size) :
    Popped all start stales₀ (GoHeap.Pop priceLess items h0).1 stales drop
      (save ++ [(GoHeap.Pop priceLess items h0).2]) := by
  obtain ⟨-, hheap, hpop⟩ := h.heap.Pop keyedBy_priceLess h0
  obtain ⟨stale, hperm, hstale, hcount⟩ := h.perm
  refine ⟨hheap, stale, perm_after_pop hpop hperm
    (List.perm_iff_count.2 fun a => by simp only [List.count_append]; omega), hstale, hcount⟩

/-- Pushing back what was set aside: the heap, with the drops and the stale
entries popped, makes up the heap the loop started from. -/
theorem Popped.push_saved (h : Popped all start stales₀ items stales drop save) :
    ∃ stale : List Transaction,
      ((save.foldl (GoHeap.Push priceLess) items).toList ++ drop ++ stale).Perm start.toList ∧
      (∀ s ∈ stale, all.Get s = none) ∧ stales = stales₀ - stale.length := by
  obtain ⟨stale, hperm, hstale, hcount⟩ := h.perm
  refine ⟨stale, List.Perm.trans (List.perm_iff_count.2 fun a => ?_) hperm, hstale, hcount⟩
  have hpush : (save.foldl (GoHeap.Push priceLess) items).toList.Perm (items.toList ++ save) :=
    GoHeap.foldl_Push_perm items save
  have hcount := List.perm_iff_count.1 hpush a
  simp only [List.count_append] at hcount ⊢
  omega

end Popped

/-- What `Cap` drops: live remote transactions below the threshold. -/
def capDropped (all : TxLookup) (locals : AccountSet) (threshold : Int) (tx : Transaction) : Bool :=
  (all.Get tx).isSome && !locals.containsTx tx && decide ((tx.GasPrice : Int) < threshold)

/-- `Cap`'s loop drops what `capDropped` selects and sets aside the rest it
pops; when it stops, nothing left in the heap is selected, since it stops at
the end or at a live entry at or above the threshold, below every remaining
one. -/
theorem capLoop_spec (all : TxLookup) (locals : AccountSet) (threshold : Int)
    {start : Array Transaction} {stales₀ : Int} (items : Array Transaction) (stales : Int)
    (drop save : List Transaction) (h : Popped all start stales₀ items stales drop save)
    (hdrop : ∀ d ∈ drop, capDropped all locals threshold d = true)
    (hsave : ∀ s ∈ save, capDropped all locals threshold s = false) :
    let r := capLoop all locals threshold items stales drop save
    Popped all start stales₀ r.1 r.2.1 r.2.2.1 r.2.2.2 ∧
      (∀ d ∈ r.2.2.1, capDropped all locals threshold d = true) ∧
      (∀ s ∈ r.2.2.2, capDropped all locals threshold s = false) ∧
      ∀ x ∈ r.1, capDropped all locals threshold x = false := by
  induction items, stales, drop, save using capLoop.induct all locals threshold with
  | case1 items stales drop save h0 hstale ih =>
    rw [capLoop, dif_pos h0, if_pos hstale]
    exact ih (h.pop_stale h0 hstale) hdrop hsave
  | case2 items stales drop save h0 hlive hge =>
    rw [capLoop, dif_pos h0, if_neg hlive, if_pos hge]
    -- the entry popped is at or above the threshold, and so is every one left
    refine ⟨h.pop_save h0, hdrop, fun s hs => ?_, fun x hx => ?_⟩
    · rcases List.mem_append.1 hs with hs | hs
      · exact hsave s hs
      · rw [List.mem_singleton.1 hs]
        simp only [capDropped, Bool.and_eq_false_iff, decide_eq_false_iff_not, not_lt]
        exact .inr hge
    · have hle := price_le_of_priceKey_le (h.heap.Pop_le keyedBy_priceLess h0 x hx)
      simp only [capDropped, Bool.and_eq_false_iff, decide_eq_false_iff_not, not_lt]
      exact .inr (le_trans hge (by exact_mod_cast hle))
  | case3 items stales drop save h0 hlive hlt hlocal ih =>
    rw [capLoop, dif_pos h0, if_neg hlive, if_neg hlt, if_pos hlocal]
    refine ih (h.pop_save h0) hdrop fun s hs => ?_
    rcases List.mem_append.1 hs with hs | hs
    · exact hsave s hs
    · rw [List.mem_singleton.1 hs]
      simp [capDropped, hlocal]
  | case4 items stales drop save h0 hlive hlt hlocal ih =>
    rw [capLoop, dif_pos h0, if_neg hlive, if_neg hlt, if_neg hlocal]
    refine ih (h.pop_drop h0) (fun d hd => ?_) hsave
    rcases List.mem_append.1 hd with hd | hd
    · exact hdrop d hd
    · rw [List.mem_singleton.1 hd]
      simp only [capDropped, Bool.and_eq_true, Bool.not_eq_true', decide_eq_true_eq]
      refine ⟨⟨Option.isSome_iff_ne_none.2 hlive, by simpa using hlocal⟩, by omega⟩
  | case5 items stales drop save h0 =>
    rw [capLoop, dif_neg h0]
    refine ⟨h, hdrop, hsave, fun x hx => absurd (Array.size_pos_of_mem hx) h0⟩

/-- What remains after a pop was in the heap before. -/
theorem Popped.mem_pop {all : TxLookup} {start items : Array Transaction} {stales₀ stales : Int}
    {drop save : List Transaction} (h : Popped all start stales₀ items stales drop save)
    (h0 : 0 < items.size) {x : Transaction} (hx : x ∈ (GoHeap.Pop priceLess items h0).1) :
    x ∈ items := by
  obtain ⟨-, -, hpop⟩ := h.heap.Pop keyedBy_priceLess h0
  exact Array.mem_toList_iff.1 (hpop.subset (List.mem_append_left _ (Array.mem_toList_iff.2 hx)))

/-- `Discard`'s loop drops at most `count` live remote transactions, each no
dearer than what is left in the heap, and sets aside local ones. -/
theorem discardLoop_spec (all : TxLookup) (locals : AccountSet) {start : Array Transaction}
    {stales₀ : Int} (items : Array Transaction) (count : Nat) (stales : Int)
    (drop save : List Transaction) (h : Popped all start stales₀ items stales drop save)
    (hdrop : ∀ d ∈ drop, all.Get d ≠ none ∧ locals.containsTx d = false)
    (hsave : ∀ s ∈ save, locals.containsTx s = true)
    (hcheap : ∀ d ∈ drop, ∀ x ∈ items, priceKey d ≤ priceKey x) :
    let r := discardLoop all locals items count stales drop save
    Popped all start stales₀ r.1 r.2.1 r.2.2.1 r.2.2.2 ∧ r.2.2.1.length ≤ drop.length + count ∧
      (∀ d ∈ r.2.2.1, all.Get d ≠ none ∧ locals.containsTx d = false) ∧
      (∀ s ∈ r.2.2.2, locals.containsTx s = true) ∧
      ∀ d ∈ r.2.2.1, ∀ x ∈ r.1, priceKey d ≤ priceKey x := by
  induction items, count, stales, drop, save using discardLoop.induct all locals with
  | case1 items count stales drop save h0 hstale ih =>
    rw [discardLoop, dif_pos h0, if_pos hstale]
    exact ih (h.pop_stale h0.1 hstale) hdrop hsave fun d hd x hx => hcheap d hd x (h.mem_pop h0.1 hx)
  | case2 items count stales drop save h0 hlive hlocal ih =>
    rw [discardLoop, dif_pos h0, if_neg hlive, if_pos hlocal]
    refine ih (h.pop_save h0.1) hdrop (fun s hs => ?_) fun d hd x hx => hcheap d hd x (h.mem_pop h0.1 hx)
    rcases List.mem_append.1 hs with hs | hs
    · exact hsave s hs
    · rw [List.mem_singleton.1 hs]
      exact hlocal
  | case3 items count stales drop save h0 hlive hlocal ih =>
    rw [discardLoop, dif_pos h0, if_neg hlive, if_neg hlocal]
    have hdrop' : ∀ d ∈ drop ++ [(GoHeap.Pop priceLess items h0.1).2],
        all.Get d ≠ none ∧ locals.containsTx d = false := by
      intro d hd
      rcases List.mem_append.1 hd with hd | hd
      · exact hdrop d hd
      · rw [List.mem_singleton.1 hd]
        exact ⟨hlive, by simpa using hlocal⟩
    -- the entry dropped is the cheapest: no dearer than any that remain
    have hcheap' : ∀ d ∈ drop ++ [(GoHeap.Pop priceLess items h0.1).2],
        ∀ x ∈ (GoHeap.Pop priceLess items h0.1).1, priceKey d ≤ priceKey x := by
      intro d hd x hx
      rcases List.mem_append.1 hd with hd | hd
      · exact hcheap d hd x (h.mem_pop h0.1 hx)
      · rw [List.mem_singleton.1 hd]
        exact h.heap.Pop_le keyedBy_priceLess h0.1 x hx
    obtain ⟨hp, hlen, hd', hs', hc'⟩ := ih (h.pop_drop h0.1) hdrop' hsave hcheap'
    refine ⟨hp, ?_, hd', hs', hc'⟩
    simp only [List.length_append, List.length_singleton] at hlen
    omega
  | case4 items count stales drop save h0 =>
    rw [discardLoop, dif_neg h0]
    exact ⟨h, Nat.le_add_right _ _, hdrop, hsave, hcheap⟩

/-- `Underpriced`'s loop drops stale entries off the top: what it pops is
stale, and the top it stops at, if any, is live. -/
theorem dropStale_spec (all : TxLookup) {start : Array Transaction} {stales₀ : Int}
    (items : Array Transaction) (stales : Int) (h : Popped all start stales₀ items stales [] []) :
    Popped all start stales₀ (dropStale all items stales).1 (dropStale all items stales).2 [] [] ∧
      ∀ (h0 : 0 < (dropStale all items stales).1.size),
        all.Get (dropStale all items stales).1[0] ≠ none := by
  induction items, stales using dropStale.induct all with
  | case1 items stales h0 hstale ih =>
    rw [dropStale, dif_pos h0, if_pos hstale]
    have hroot := (h.heap.Pop keyedBy_priceLess h0).1
    exact ih (h.pop_stale h0 (by rw [hroot]; exact hstale))
  | case2 items stales h0 hlive =>
    rw [dropStale, dif_pos h0, if_neg hlive]
    exact ⟨h, fun _ => hlive⟩
  | case3 items stales h0 =>
    rw [dropStale, dif_neg h0]
    exact ⟨h, fun h0' => absurd h0' h0⟩

/-! ## The calls that pop -/

/-- `txPricedList.Cap`: the live remote transactions below `threshold`,
removed from the heap; local ones popped on the way, and the first live one
at or above the threshold, are pushed back. -/
def Cap (l : TxPricedList) (threshold : Int) (locals : AccountSet) (all : TxLookup) :
    List Transaction × TxPricedList :=
  let r := capLoop all locals threshold l.items l.stales [] []
  (r.2.2.1, ⟨r.2.2.2.foldl (GoHeap.Push priceLess) r.1, r.2.1,
    ((capLoop_spec all locals threshold l.items l.stales [] [] (Popped.init l.heap all l.stales)
      (by simp) (by simp)).1.heap.foldl_Push keyedBy_priceLess _)⟩)

/-- `txPricedList.Underpriced`: whether `tx` is at most as dear as the
cheapest live entry; the stale entries on top are dropped on the way. -/
def Underpriced (l : TxPricedList) (tx : Transaction) (locals : AccountSet) (all : TxLookup) :
    Bool × TxPricedList :=
  if locals.containsTx tx then (false, l)
  else
    let r := dropStale all l.items l.stales
    let l' : TxPricedList := ⟨r.1, r.2,
      (dropStale_spec all l.items l.stales (Popped.init l.heap all l.stales)).1.heap⟩
    -- "Pricing query for empty pool"
    if h : 0 < r.1.size then (decide (r.1[0].GasPrice ≥ tx.GasPrice), l') else (false, l')

/-- `txPricedList.Discard`: the `count` cheapest live remote transactions,
removed from the heap; local ones popped on the way are pushed back. -/
def Discard (l : TxPricedList) (count : Nat) (locals : AccountSet) (all : TxLookup) :
    List Transaction × TxPricedList :=
  let r := discardLoop all locals l.items count l.stales [] []
  (r.2.2.1, ⟨r.2.2.2.foldl (GoHeap.Push priceLess) r.1, r.2.1,
    ((discardLoop_spec all locals l.items count l.stales [] [] (Popped.init l.heap all l.stales)
      (by simp) (by simp) (by simp)).1.heap.foldl_Push keyedBy_priceLess _)⟩)

/-! ## What `Discard` and `Cap` return -/

/-- `Discard` returns at most `count` live remote transactions, none dearer
than a live remote transaction left in the heap; the heap keeps every other
entry but the stale ones popped, and `stales` counts those off. -/
theorem Discard_spec (l : TxPricedList) (count : Nat) (locals : AccountSet) (all : TxLookup) :
    (l.Discard count locals all).1.length ≤ count ∧
      (∀ d ∈ (l.Discard count locals all).1, all.Get d ≠ none ∧ locals.containsTx d = false) ∧
      (∀ d ∈ (l.Discard count locals all).1, ∀ x ∈ (l.Discard count locals all).2.items,
        all.Get x ≠ none → locals.containsTx x = false → priceLess x d = false) ∧
      ∃ stale : List Transaction,
        ((l.Discard count locals all).2.items.toList ++ (l.Discard count locals all).1 ++ stale).Perm
          l.items.toList ∧
        (∀ s ∈ stale, all.Get s = none) ∧
        (l.Discard count locals all).2.stales = l.stales - stale.length := by
  obtain ⟨hp, hlen, hdrop, hsave, hcheap⟩ := discardLoop_spec all locals l.items count l.stales
    [] [] (Popped.init l.heap all l.stales) (by simp) (by simp) (by simp)
  have hlen' : (discardLoop all locals l.items count l.stales [] []).2.2.1.length ≤ count := by
    simpa using hlen
  refine ⟨hlen', hdrop, fun d hd x hx _ hremote => ?_, hp.push_saved⟩
  -- an entry of the heap was left by the loop or set aside, and what is set
  -- aside is local
  have hpush : ((discardLoop all locals l.items count l.stales [] []).2.2.2.foldl
      (GoHeap.Push priceLess) (discardLoop all locals l.items count l.stales [] []).1).toList.Perm
      ((discardLoop all locals l.items count l.stales [] []).1.toList ++
        (discardLoop all locals l.items count l.stales [] []).2.2.2) :=
    GoHeap.foldl_Push_perm _ _
  rcases List.mem_append.1 (hpush.subset (Array.mem_toList_iff.2 hx)) with hx' | hx'
  · exact keyedBy_priceLess.eq_false_iff.2 (hcheap d hd x (Array.mem_toList_iff.1 hx'))
  · exact absurd (hsave x hx') (by simp [hremote])

/-- `Cap` returns exactly the live remote transactions below `threshold`, as
many times as they stand in the heap; the heap keeps every other entry but
the stale ones popped, and `stales` counts those off. -/
theorem Cap_spec (l : TxPricedList) (threshold : Int) (locals : AccountSet) (all : TxLookup) :
    (l.Cap threshold locals all).1.Perm (l.items.toList.filter (capDropped all locals threshold)) ∧
      ∃ stale : List Transaction,
        ((l.Cap threshold locals all).2.items.toList ++ (l.Cap threshold locals all).1 ++ stale).Perm
          l.items.toList ∧
        (∀ s ∈ stale, all.Get s = none) ∧
        (l.Cap threshold locals all).2.stales = l.stales - stale.length := by
  obtain ⟨hp, hdrop, hsave, hrest⟩ := capLoop_spec all locals threshold l.items l.stales [] []
    (Popped.init l.heap all l.stales) (by simp) (by simp)
  refine ⟨?_, hp.push_saved⟩
  obtain ⟨stale, hperm, hstale, -⟩ := hp.perm
  -- of the entries the loop started from, only its drops are selected
  have hleft : (capLoop all locals threshold l.items l.stales [] []).1.toList.filter
      (capDropped all locals threshold) = [] :=
    List.filter_eq_nil_iff.2 fun x hx => by simpa using hrest x (Array.mem_toList_iff.1 hx)
  have hsaved : (capLoop all locals threshold l.items l.stales [] []).2.2.2.filter
      (capDropped all locals threshold) = [] :=
    List.filter_eq_nil_iff.2 fun s hs => by simpa using hsave s hs
  have hstale' : stale.filter (capDropped all locals threshold) = [] :=
    List.filter_eq_nil_iff.2 fun s hs => by simp [capDropped, hstale s hs]
  have hdropped := (hperm.filter (capDropped all locals threshold)).symm
  rw [List.filter_append, List.filter_append, List.filter_append, hleft, hsaved, hstale',
    List.filter_eq_self.2 hdrop] at hdropped
  simp only [List.nil_append, List.append_nil] at hdropped
  exact hdropped.symm

end TxPricedList

/-- Over every state of the price heap, `Discard` returns at most `count`
live remote transactions, none dearer than a live remote one left in the
heap, and `Cap` exactly the live remote ones below the threshold; both put
back every live entry they do not return and count off the stale entries
they pop. -/
theorem eviction_is_cheapest_first_and_spares_locals (l : TxPricedList) (locals : AccountSet)
    (all : TxLookup) :
    (∀ count, let r : List Transaction × TxPricedList := l.Discard count locals all
      r.1.length ≤ count ∧ (∀ d ∈ r.1, all.Get d ≠ none ∧ locals.containsTx d = false) ∧
      (∀ d ∈ r.1, ∀ x ∈ r.2.items,
        all.Get x ≠ none → locals.containsTx x = false → priceLess x d = false) ∧
      ∃ stale : List Transaction, (r.2.items.toList ++ r.1 ++ stale).Perm l.items.toList ∧
        (∀ s ∈ stale, all.Get s = none) ∧ r.2.stales = l.stales - stale.length) ∧
    ∀ threshold : Int, let r : List Transaction × TxPricedList := l.Cap threshold locals all
      r.1.Perm (l.items.toList.filter fun tx =>
        (all.Get tx).isSome && !locals.containsTx tx && decide ((tx.GasPrice : Int) < threshold)) ∧
      ∃ stale : List Transaction, (r.2.items.toList ++ r.1 ++ stale).Perm l.items.toList ∧
        (∀ s ∈ stale, all.Get s = none) ∧ r.2.stales = l.stales - stale.length :=
  ⟨fun count => l.Discard_spec count locals all, fun threshold => l.Cap_spec threshold locals all⟩

end Btp.Core.Impl
