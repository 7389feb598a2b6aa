import Mathlib
import Btp.Core.TxPoolReorg
import Btp.Core.TxSortedMap
import Btp.Lib.ExceptRun

/-!
# The pool keeps every transaction once

`validateTxPoolInternals` of `core/tx_pool_test.go` checks that the pool's
lookup `all` holds exactly the transactions of the pending lists and the
queues. This module proves it of every pool that a sequence of operations
builds (`Reachable.consistent`): a transaction of `all` lies in the pending
list or the queue of its sender, in one of them and once, and those lists
hold nothing else; moreover no two transactions of an account, pending or
queued, share a nonce.

The proof reads the pool account by account (`TxPool.held`): every
operation changes the lists of one account, and what it does to them and to
`all` is one of three things, proved once of the abstract accounting
(`Accounted`): transactions leave both (`Consistent.remove`, which with
nothing removed is a move between the two lists), or a new transaction takes
the place of its nonce's (`Consistent.put`). The nonces matter because the
lists are keyed by nonce: `removeTx` finds a queued transaction by a search
of the pending list that must fail, and the transactions that `demoteUnexecutables`
and `removeTx` move to the queue must not replace anything there.
-/

namespace Btp.Core

/-! ## The lists of a map, account by account -/

/-- The transactions of `addr`'s list in `m`; none without a list. -/
def listOf (m : GoMap Address TxList) (addr : Address) : List Transaction :=
  ((m.lookup addr).map TxList.Flatten).getD []

theorem listOf_insert (m : GoMap Address TxList) (a : Address) (l : TxList) (b : Address) :
    listOf (m.insert a l) b = if b = a then l.Flatten else listOf m b := by
  by_cases hb : b = a
  · subst hb
    simp [listOf, AList.lookup_insert]
  · simp [listOf, AList.lookup_insert_ne hb, hb]

theorem listOf_erase (m : GoMap Address TxList) (a b : Address) :
    listOf (m.erase a) b = if b = a then [] else listOf m b := by
  by_cases hb : b = a
  · subst hb
    simp [listOf, AList.lookup_erase]
  · simp [listOf, AList.lookup_erase_ne hb, hb]

@[simp] theorem listOf_empty (b : Address) : listOf (∅ : GoMap Address TxList) b = [] := by
  simp [listOf, AList.lookup_empty]

theorem listOf_of_lookup {m : GoMap Address TxList} {a : Address} {l : TxList}
    (h : m.lookup a = some l) : listOf m a = l.Flatten := by
  simp [listOf, h]

theorem listOf_of_mem {m : GoMap Address TxList} {e : Σ _ : Address, TxList} (he : e ∈ m.entries) :
    listOf m e.1 = e.2.Flatten :=
  listOf_of_lookup (AList.mem_lookup_iff.2 he)

/-- The transactions of all the lists of a map, in the order of its entries. -/
def flatOf (m : GoMap Address TxList) : List Transaction :=
  m.entries.flatMap fun e => e.2.Flatten

theorem countTxs_eq_length (m : GoMap Address TxList) : countTxs m = (flatOf m).length := by
  simp [countTxs, flatOf, List.length_flatMap, TxList.Len, TxSortedMap.Len, TxList.Flatten,
    TxSortedMap.Flatten]

theorem mem_flatOf {m : GoMap Address TxList} {x : Transaction} : x ∈ flatOf m ↔ ∃ a, x ∈ listOf m a := by
  rw [flatOf, List.mem_flatMap]
  constructor
  · rintro ⟨e, he, hx⟩
    exact ⟨e.1, by rwa [listOf_of_mem he]⟩
  · rintro ⟨a, hx⟩
    cases hl : m.lookup a with
    | none => simp [listOf, hl] at hx
    | some l => exact ⟨⟨a, l⟩, AList.mem_lookup_iff.1 hl, by rwa [listOf_of_lookup hl] at hx⟩

/-- Lists that hold their own account's transactions, each once, flatten to a
list that holds each once. -/
theorem nodup_flatOf {m : GoMap Address TxList} (hnd : ∀ a, (listOf m a).Nodup)
    (hs : ∀ a, ∀ x ∈ listOf m a, x.From = some a) : (flatOf m).Nodup := by
  refine List.nodup_flatMap.2 ⟨fun e he => listOf_of_mem he ▸ hnd e.1, ?_⟩
  have hkeys : (m.entries.map Sigma.fst).Nodup := m.nodupKeys
  refine (List.pairwise_map.1 hkeys).imp_of_mem fun {e e'} he he' hne x hx hx' => hne ?_
  have h₁ : x ∈ listOf m e.1 := by rw [listOf_of_mem he]; exact hx
  have h₂ : x ∈ listOf m e'.1 := by rw [listOf_of_mem he']; exact hx'
  exact Option.some.inj ((hs _ x h₁).symm.trans (hs _ x h₂))

/-! ## Accounting for a set of transactions by account -/

/-- `all` is made of the lists `H` of the accounts: each transaction lies in
the list of its sender, and no two transactions of one account share a
nonce. -/
structure Accounted (H : Address → List Transaction) (all : List Transaction) : Prop where
  sender : ∀ a, ∀ tx ∈ H a, tx.From = some a
  nonces : ∀ a, ((H a).map (·.Nonce)).Nodup
  mem_all : ∀ tx, tx ∈ all ↔ ∃ a, tx ∈ H a

namespace Accounted

variable {H H' : Address → List Transaction} {all all' : List Transaction}

theorem nodup (h : Accounted H all) (a : Address) : (H a).Nodup :=
  (h.nonces a).of_map _

/-- A transaction of `all` lies in its sender's list. -/
theorem mem_iff (h : Accounted H all) {tx : Transaction} {a : Address} (hs : tx.From = some a) :
    tx ∈ all ↔ tx ∈ H a := by
  rw [h.mem_all]
  constructor
  · rintro ⟨b, hb⟩
    have hab : some b = some a := (h.sender b tx hb).symm.trans hs
    rwa [Option.some.inj hab] at hb
  · exact fun hm => ⟨a, hm⟩

/-- Within an account the nonce names the transaction. -/
theorem eq_of_nonce (h : Accounted H all) {a : Address} {x y : Transaction} (hx : x ∈ H a)
    (hy : y ∈ H a) (hn : x.Nonce = y.Nonce) : x = y :=
  List.inj_on_of_nodup_map (h.nonces a) hx hy hn

/-- Two accounted views whose `all` differ by `hash` alone differ by `hash`
in every account. -/
theorem perm_erase (h : Accounted H all) (h' : Accounted H' all') {hash : Transaction}
    (hall : ∀ x, x ∈ all' ↔ x ∈ all ∧ x ≠ hash) (a : Address) : (H' a).Perm ((H a).erase hash) := by
  refine (List.perm_ext_iff_of_nodup (h'.nodup a) ((h.nodup a).erase hash)).2 fun x => ?_
  rw [(h.nodup a).mem_erase_iff]
  constructor
  · intro hx
    have hs := h'.sender a x hx
    obtain ⟨hm, hne⟩ := (hall x).1 ((h'.mem_iff hs).2 hx)
    exact ⟨hne, (h.mem_iff hs).1 hm⟩
  · rintro ⟨hne, hx⟩
    have hs := h.sender a x hx
    exact (h'.mem_iff hs).1 ((hall x).2 ⟨(h.mem_iff hs).2 hx, hne⟩)

/-- One account's list replaced: the new list keeps the senders and the
nonces apart, and `all` changes exactly by that account's transactions. -/
theorem update (h : Accounted H all) (a : Address) {L : List Transaction}
    (hsender : ∀ tx ∈ L, tx.From = some a) (hnd : (L.map (·.Nonce)).Nodup)
    (hall : ∀ tx, tx ∈ all' ↔ tx ∈ L ∨ (tx ∈ all ∧ tx.From ≠ some a)) :
    Accounted (Function.update H a L) all' := by
  refine ⟨fun b tx htx => ?_, fun b => ?_, fun tx => ?_⟩
  · by_cases hb : b = a
    · subst hb
      rw [Function.update_self] at htx
      exact hsender tx htx
    · rw [Function.update_of_ne hb] at htx
      exact h.sender b tx htx
  · by_cases hb : b = a
    · subst hb
      rwa [Function.update_self]
    · rw [Function.update_of_ne hb]
      exact h.nonces b
  · rw [hall]
    constructor
    · rintro (hL | ⟨hmem, hne⟩)
      · exact ⟨a, by rwa [Function.update_self]⟩
      · -- a transaction of another account stays in that account's list
        obtain ⟨b, hb⟩ := (h.mem_all tx).1 hmem
        have hba : b ≠ a := fun hba => hne (hba ▸ h.sender b tx hb)
        exact ⟨b, by rwa [Function.update_of_ne hba]⟩
    · rintro ⟨b, hb⟩
      by_cases hba : b = a
      · subst hba
        rw [Function.update_self] at hb
        exact .inl hb
      · rw [Function.update_of_ne hba] at hb
        refine .inr ⟨(h.mem_all tx).2 ⟨b, hb⟩, fun hs => hba ?_⟩
        exact Option.some.inj ((h.sender b tx hb).symm.trans hs)

/-- Only the order of the lists matters. -/
theorem congr (h : Accounted H all) (hp : ∀ a, (H' a).Perm (H a)) (hall : ∀ tx, tx ∈ all' ↔ tx ∈ all) :
    Accounted H' all' := by
  refine ⟨fun a tx htx => h.sender a tx ((hp a).subset htx), fun a => ((hp a).map _).nodup_iff.2 (h.nonces a),
    fun tx => ?_⟩
  rw [hall, h.mem_all]
  exact exists_congr fun a => (hp a).mem_iff.symm

end Accounted

/-! ## What the list operations keep and hand back -/

namespace TxList

@[simp] theorem strict_put (l : TxList) (tx : Transaction) : (l.put tx).strict = l.strict := rfl

/-- `put` stores `tx` in place of its nonce's transaction. -/
theorem Flatten_put (l : TxList) (tx : Transaction) :
    (l.put tx).Flatten.Perm (tx :: l.Flatten.filter (·.Nonce != tx.Nonce)) :=
  Impl.TxSortedMap.putSorted_perm l.txs.sorted tx

/-- A list without `tx`'s nonce takes `tx`. -/
theorem Add_of_fresh {l : TxList} {tx : Transaction} (hfresh : ∀ t ∈ l.Flatten, t.Nonce ≠ tx.Nonce)
    (priceBump : Nat) : l.Add tx priceBump = (true, none, l.put tx) := by
  have hget : l.txs.Get tx.Nonce = none := by
    rw [TxSortedMap.Get, List.find?_eq_none]
    intro t ht
    simpa using hfresh t ht
  simp [Add, hget]

/-- `Add` refuses and leaves the list, or stores `tx`, in place of `old` if
that is what it returns. -/
theorem Add_cases (l : TxList) (tx : Transaction) (priceBump : Nat) :
    l.Add tx priceBump = (false, none, l) ∨
      ((l.Add tx priceBump).1 = true ∧ (l.Add tx priceBump).2.2 = l.put tx ∧
        ∀ old, (l.Add tx priceBump).2.1 = some old → l.txs.Get tx.Nonce = some old) := by
  unfold Add
  split
  · rename_i old hold
    dsimp only
    split_ifs
    · exact .inl rfl
    · exact .inr ⟨rfl, rfl, fun o ho => by simpa [hold] using ho⟩
  · exact .inr ⟨rfl, rfl, fun o ho => by simp at ho⟩

theorem Flatten_Forward (l : TxList) (threshold : Nat) :
    l.Flatten = (l.Forward threshold).1 ++ (l.Forward threshold).2.Flatten :=
  List.takeWhile_append_dropWhile.symm

theorem Filter_perm (l : TxList) (costLimit : Int) (gasLimit : Nat) :
    l.Flatten.Perm ((l.Filter costLimit gasLimit).1 ++ (l.Filter costLimit gasLimit).2.1 ++
      (l.Filter costLimit gasLimit).2.2.Flatten) := by
  unfold Filter
  dsimp only
  split_ifs
  · exact List.Perm.refl _
  · -- the drops, then the rest split by the lowest dropped nonce
    rw [List.append_assoc]
    exact (List.filter_append_perm _ l.Flatten).symm.trans
      (List.Perm.append_left _ (List.filter_append_perm _ _).symm)
  · rw [List.append_nil]
    exact (List.filter_append_perm _ l.Flatten).symm

theorem Filter_loose {l : TxList} (hl : l.strict = false) (costLimit : Int) (gasLimit : Nat) :
    (l.Filter costLimit gasLimit).2.1 = [] := by
  unfold Filter
  dsimp only
  split_ifs with h₁ h₂
  · rfl
  · simp [hl] at h₂
  · rfl

theorem Cap_perm (l : TxList) (threshold : Nat) :
    l.Flatten.Perm ((l.Cap threshold).1 ++ (l.Cap threshold).2.Flatten) := by
  obtain ⟨h₁, h₂⟩ := TxSortedMap.Cap_eq l.txs threshold
  change l.txs.items.Perm ((l.txs.Cap threshold).1 ++ (l.txs.Cap threshold).2.items)
  rw [h₁, h₂]
  -- the kept prefix and the returned rest, reversed, are the whole list
  have hsplit := List.take_append_drop threshold l.txs.items
  conv_lhs => rw [← hsplit]
  exact List.perm_append_comm.trans ((List.reverse_perm _).symm.append_right _)

theorem Flatten_Ready (l : TxList) (start : Nat) :
    l.Flatten = (l.Ready start).1 ++ (l.Ready start).2.Flatten :=
  (TxSortedMap.Ready_append l.txs start).symm

theorem Remove_of_fresh {l : TxList} {tx : Transaction} (hfresh : ∀ t ∈ l.Flatten, t.Nonce ≠ tx.Nonce) :
    l.Remove tx = (false, [], l) := by
  have hget : l.txs.Get tx.Nonce = none := by
    rw [TxSortedMap.Get, List.find?_eq_none]
    intro t ht
    simpa using hfresh t ht
  simp [Remove, TxSortedMap.Remove, hget]

/-- `Remove` of a nonce the list holds, as `t`'s: `t` goes, and the rest is
what it hands back and what it keeps. -/
theorem Remove_of_mem {l : TxList} {tx t : Transaction} (ht : t ∈ l.Flatten) (hn : t.Nonce = tx.Nonce) :
    (l.Remove tx).1 = true ∧
      l.Flatten.Perm (t :: ((l.Remove tx).2.1 ++ (l.Remove tx).2.2.Flatten)) := by
  have hr : (l.txs.Remove tx.Nonce).1 = true := by
    rw [TxSortedMap.Remove_fst]
    exact List.find?_isSome.2 ⟨t, ht, by simp [hn]⟩
  have hrest : (l.txs.Remove tx.Nonce).2.items = Impl.TxSortedMap.delete l.txs.items t.Nonce := by
    rw [TxSortedMap.Remove_items, hn]
    rfl
  have hp := Impl.TxSortedMap.perm_delete (NonceSorted.nodup l.txs.sorted) ht
  rw [← hrest] at hp
  unfold Remove
  simp only [hr, Bool.not_true, Bool.false_eq_true, if_false]
  split_ifs
  · -- a strict list hands back the nonces above
    exact ⟨rfl, hp.trans (List.Perm.cons t (List.filter_append_perm _ _).symm)⟩
  · exact ⟨rfl, hp⟩

theorem Remove_loose {l : TxList} (hl : l.strict = false) (tx : Transaction) :
    (l.Remove tx).2.1 = [] := by
  unfold Remove
  dsimp only
  split_ifs <;> simp_all

theorem strict_Remove (l : TxList) (tx : Transaction) : (l.Remove tx).2.2.strict = l.strict := by
  unfold Remove
  dsimp only
  split_ifs <;> rfl

@[simp] theorem strict_Forward (l : TxList) (threshold : Nat) :
    (l.Forward threshold).2.strict = l.strict := rfl

@[simp] theorem strict_Ready (l : TxList) (start : Nat) : (l.Ready start).2.strict = l.strict := rfl

@[simp] theorem strict_Cap (l : TxList) (threshold : Nat) : (l.Cap threshold).2.strict = l.strict := rfl

@[simp] theorem strict_Filter (l : TxList) (costLimit : Int) (gasLimit : Nat) :
    (l.Filter costLimit gasLimit).2.2.strict = l.strict := by
  unfold Filter
  dsimp only
  split_ifs <;> rfl

theorem Empty_iff {l : TxList} : l.Empty = true ↔ l.Flatten = [] := by
  simp [Empty, Len, TxSortedMap.Len, Flatten, TxSortedMap.Flatten]

/-- The nonce names the transaction of a list. -/
theorem Get_eq_some_iff {l : TxList} {n : Nat} {x : Transaction} :
    l.txs.Get n = some x ↔ x ∈ l.Flatten ∧ x.Nonce = n := by
  refine ⟨TxSortedMap.Get_eq_some, fun ⟨hx, hn⟩ => ?_⟩
  cases hg : l.txs.Get n with
  | none => exact absurd hn (TxSortedMap.Get_eq_none hg x hx)
  | some y =>
    obtain ⟨hy, hyn⟩ := TxSortedMap.Get_eq_some hg
    rw [List.inj_on_of_nodup_map (NonceSorted.nodup l.txs.sorted) hy hx (hyn.trans hn.symm)]

/-- An accepted `Add` replaces the transaction of `tx`'s nonce, if any. -/
theorem Add_accepted {l : TxList} {tx : Transaction} {priceBump : Nat} (h : (l.Add tx priceBump).1 = true) :
    (l.Add tx priceBump).2.1 = l.txs.Get tx.Nonce ∧ (l.Add tx priceBump).2.2 = l.put tx := by
  cases hg : l.txs.Get tx.Nonce with
  | none => simp [Add, hg]
  | some old =>
    rw [Add_of_Get priceBump hg] at h ⊢
    -- a refusal contradicts `h`
    split_ifs at h ⊢
    exact ⟨rfl, rfl⟩

theorem Remove_fst_iff {l : TxList} {tx : Transaction} :
    (l.Remove tx).1 = true ↔ ∃ t ∈ l.Flatten, t.Nonce = tx.Nonce := by
  constructor
  · intro h
    by_contra hn
    simp only [not_exists, not_and] at hn
    rw [Remove_of_fresh hn] at h
    cases h
  · rintro ⟨t, ht, hn⟩
    exact (Remove_of_mem ht hn).1

end TxList

namespace TxLookup

theorem mem_Remove {t : TxLookup} {hash x : Transaction} :
    x ∈ (t.Remove hash).all ↔ x ∈ t.all ∧ x ≠ hash :=
  t.nodup.mem_erase_iff.trans and_comm

theorem mem_Add {t : TxLookup} {tx x : Transaction} : x ∈ (t.Add tx).all ↔ x ∈ t.all ∨ x = tx := by
  unfold Add
  split_ifs with h
  · exact ⟨.inl, fun hx => hx.elim id fun e => e ▸ h⟩
  · simp

theorem Get_eq_none {t : TxLookup} {hash : Transaction} : t.Get hash = none ↔ hash ∉ t.all := by
  simp [Get]

theorem Get_eq_some {t : TxLookup} {hash tx : Transaction} : t.Get hash = some tx ↔ hash ∈ t.all ∧ hash = tx := by
  simp [Get]

theorem mem_foldl_Remove (t : TxLookup) (txs : List Transaction) (x : Transaction) :
    x ∈ (txs.foldl Remove t).all ↔ x ∈ t.all ∧ x ∉ txs := by
  induction txs generalizing t with
  | nil => simp
  | cons tx txs ih =>
    rw [List.foldl_cons, ih, mem_Remove, List.mem_cons, not_or, and_assoc]

end TxLookup

namespace TxPool

theorem mem_removeAll {pool : TxPool} {txs : List Transaction} {x : Transaction} :
    x ∈ (pool.removeAll txs).all.all ↔ x ∈ pool.all.all ∧ x ∉ txs :=
  TxLookup.mem_foldl_Remove _ _ _

end TxPool

namespace TxPool

/-- The transactions the pool keeps for `addr`: its pending list, then its
queue. -/
def held (pool : TxPool) (addr : Address) : List Transaction :=
  listOf pool.pending addr ++ listOf pool.queue addr

/-- The pool is consistent: `all` holds the transactions of the pending lists
and the queues, each in a list of its sender, with no nonce twice in an
account; and no queue is strict. -/
structure Consistent (pool : TxPool) : Prop where
  accounted : Accounted pool.held pool.all.all
  loose : ∀ a l, pool.queue.lookup a = some l → l.strict = false

section Consistent

variable {pool pool' : TxPool}

/-- Consistency reads only the lists and `all`. -/
theorem Consistent.of_eq (h : pool.Consistent) (hp : pool'.pending = pool.pending)
    (hq : pool'.queue = pool.queue) (ha : pool'.all = pool.all) : pool'.Consistent := by
  have hheld : pool'.held = pool.held := by
    funext b
    rw [held, held, hp, hq]
  exact ⟨by rw [hheld, ha]; exact h.accounted, by rw [hq]; exact h.loose⟩

/-- A pool that differs from a consistent one in the lists of account `a`,
now `L` up to order, and in `all` by `a`'s transactions only, is
consistent. -/
theorem Consistent.of_account (h : pool.Consistent) (a : Address) {L : List Transaction}
    (hother : ∀ b, b ≠ a → pool'.held b = pool.held b) (hp : (pool'.held a).Perm L)
    (hsender : ∀ tx ∈ L, tx.From = some a) (hnd : (L.map (·.Nonce)).Nodup)
    (hall : ∀ tx, tx ∈ pool'.all.all ↔ tx ∈ L ∨ (tx ∈ pool.all.all ∧ tx.From ≠ some a))
    (hloose : ∀ b l, pool'.queue.lookup b = some l → l.strict = false) : pool'.Consistent := by
  refine ⟨(h.accounted.update a hsender hnd hall).congr (fun b => ?_) fun _ => Iff.rfl, hloose⟩
  by_cases hb : b = a
  · subst hb
    rwa [Function.update_self]
  · rw [Function.update_of_ne hb, hother b hb]

/-- Transactions `X` of account `a` leave its lists and `all`; with `X`
empty, the account's transactions only move between its two lists. -/
theorem Consistent.remove (h : pool.Consistent) (a : Address) (X : List Transaction)
    (hother : ∀ b, b ≠ a → pool'.held b = pool.held b) (hp : (pool.held a).Perm (X ++ pool'.held a))
    (hall : ∀ tx, tx ∈ pool'.all.all ↔ tx ∈ pool.all.all ∧ tx ∉ X)
    (hloose : ∀ b l, pool'.queue.lookup b = some l → l.strict = false) : pool'.Consistent := by
  have hsub : ∀ tx ∈ pool'.held a, tx ∈ pool.held a := fun tx htx =>
    hp.symm.subset (List.mem_append_right X htx)
  have hnd₀ := (hp.map (·.Nonce)).nodup_iff.1 (h.accounted.nonces a)
  have hnd := hnd₀
  rw [List.map_append] at hnd
  refine h.of_account a hother (List.Perm.refl _) (fun tx htx => h.accounted.sender a tx (hsub tx htx))
    (List.nodup_append.1 hnd).2.1 (fun tx => ?_) hloose
  rw [hall]
  by_cases hs : tx.From = some a
  · -- `a`'s transactions: those of `all` are its lists, `X` and the rest apart
    have hdisj : tx ∈ pool'.held a → tx ∉ X := fun hm hx =>
      (List.nodup_append.1 (hnd₀.of_map _)).2.2 tx hx tx hm rfl
    rw [h.accounted.mem_iff hs, hp.mem_iff, List.mem_append]
    constructor
    · rintro ⟨hx | hm, hnx⟩
      · exact absurd hx hnx
      · exact .inl hm
    · rintro (hm | ⟨-, hne⟩)
      · exact ⟨.inr hm, hdisj hm⟩
      · exact absurd hs hne
  · -- other transactions are in no list of `a`
    have hnx : tx ∉ X := fun hx =>
      hs (h.accounted.sender a tx (hp.symm.subset (List.mem_append_left _ hx)))
    have hnm : tx ∉ pool'.held a := fun hm => hs (h.accounted.sender a tx (hsub tx hm))
    simp [hnx, hnm, hs]

/-- A new transaction of `a` takes the place of the transaction of its nonce,
if the account has one. -/
theorem Consistent.put (h : pool.Consistent) {tx : Transaction} {a : Address}
    (hfrom : tx.From = some a) (hnew : tx ∉ pool.all.all)
    (hother : ∀ b, b ≠ a → pool'.held b = pool.held b)
    (hp : (pool'.held a).Perm (tx :: (pool.held a).filter (·.Nonce != tx.Nonce)))
    (hall : ∀ x, x ∈ pool'.all.all ↔ x = tx ∨ (x ∈ pool.all.all ∧ ¬ (x ∈ pool.held a ∧ x.Nonce = tx.Nonce)))
    (hloose : ∀ b l, pool'.queue.lookup b = some l → l.strict = false) : pool'.Consistent := by
  have hrest : ∀ x ∈ (pool.held a).filter (·.Nonce != tx.Nonce), x ∈ pool.held a ∧ x.Nonce ≠ tx.Nonce :=
    fun x hx => by simpa using List.mem_filter.1 hx
  refine h.of_account a hother hp (fun x hx => ?_) ?_ (fun x => ?_) hloose
  · rcases List.mem_cons.1 hx with rfl | hx
    · exact hfrom
    · exact h.accounted.sender a x (hrest x hx).1
  · rw [List.map_cons, List.nodup_cons]
    refine ⟨fun hn => ?_, ((h.accounted.nonces a).sublist ((List.filter_sublist).map _))⟩
    obtain ⟨x, hx, hxn⟩ := List.mem_map.1 hn
    exact (hrest x hx).2 hxn
  · rw [hall, List.mem_cons, List.mem_filter]
    by_cases hs : x.From = some a
    · rw [h.accounted.mem_iff hs]
      by_cases hn : x.Nonce = tx.Nonce
      · simp [hn, hs]
      · simp [hn, hs]
    · have hx : x ≠ tx := fun hx => hs (hx ▸ hfrom)
      have hnm : x ∉ pool.held a := fun hm => hs (h.accounted.sender a x hm)
      simp [hx, hnm, hs]

/-- A new transaction of `a` takes the place of `old`, the account's
transaction of its nonce if there is one: `old` leaves `all`, `tx` enters. -/
theorem Consistent.replace (h : pool.Consistent) {tx : Transaction} {a : Address}
    {old : Option Transaction} (hfrom : tx.From = some a) (hnew : tx ∉ pool.all.all)
    (hold : ∀ x, x ∈ pool.held a ∧ x.Nonce = tx.Nonce ↔ old = some x)
    (hother : ∀ b, b ≠ a → pool'.held b = pool.held b)
    (hp : (pool'.held a).Perm (tx :: (pool.held a).filter (·.Nonce != tx.Nonce)))
    (hall : pool'.all = (old.elim pool.all pool.all.Remove).Add tx)
    (hloose : ∀ b l, pool'.queue.lookup b = some l → l.strict = false) : pool'.Consistent := by
  refine h.put hfrom hnew hother hp (fun x => ?_) hloose
  rw [hall, TxLookup.mem_Add, hold]
  cases old with
  | none => simp [or_comm]
  | some o =>
    rw [Option.elim_some, TxLookup.mem_Remove, Option.some.injEq]
    exact ⟨fun hx => hx.elim (fun hx => .inr ⟨hx.1, fun e => hx.2 e.symm⟩) .inl,
      fun hx => hx.elim .inr fun hx => .inl ⟨hx.1, fun e => hx.2 e.symm⟩⟩

/-- The queue of `a` cut into pieces: `X` leaves the pool, `R` joins the
pending list and what stays is queued. -/
theorem Consistent.requeue (h : pool.Consistent) (a : Address) {X R : List Transaction}
    (hq : (listOf pool.queue a).Perm (X ++ (R ++ listOf pool'.queue a)))
    (hpend : (listOf pool'.pending a).Perm (listOf pool.pending a ++ R))
    (hother : ∀ b, b ≠ a → pool'.held b = pool.held b)
    (hall : ∀ x, x ∈ pool'.all.all ↔ x ∈ pool.all.all ∧ x ∉ X)
    (hloose : ∀ b l, pool'.queue.lookup b = some l → l.strict = false) : pool'.Consistent := by
  refine h.remove a X hother ?_ hall hloose
  calc List.Perm (pool.held a) (listOf pool.pending a ++ (X ++ (R ++ listOf pool'.queue a))) :=
        hq.append_left _
    List.Perm _ (X ++ ((listOf pool.pending a ++ R) ++ listOf pool'.queue a)) := by
        rw [List.append_assoc]
        exact List.perm_append_comm_assoc _ _ _
    List.Perm _ (X ++ pool'.held a) := (hpend.symm.append_right _).append_left _

/-- The count check of `validateTxPoolInternals`: `all` holds as many
transactions as the pending lists and the queues together. -/
theorem Consistent.Count_eq (h : pool.Consistent) :
    pool.all.Count = countTxs pool.pending + countTxs pool.queue := by
  have hP : ∀ a, ∀ x ∈ listOf pool.pending a, x.From = some a := fun a x hx =>
    h.accounted.sender a x (List.mem_append_left _ hx)
  have hQ : ∀ a, ∀ x ∈ listOf pool.queue a, x.From = some a := fun a x hx =>
    h.accounted.sender a x (List.mem_append_right _ hx)
  have hndP : ∀ a, (listOf pool.pending a).Nodup := fun a =>
    (h.accounted.nodup a).sublist (List.sublist_append_left _ _)
  have hndQ : ∀ a, (listOf pool.queue a).Nodup := fun a =>
    (h.accounted.nodup a).sublist (List.sublist_append_right _ _)
  -- a transaction is pending or queued, not both
  have hnd : (flatOf pool.pending ++ flatOf pool.queue).Nodup := by
    refine (nodup_flatOf hndP hP).append (nodup_flatOf hndQ hQ) fun x hxp hxq => ?_
    obtain ⟨a, ha⟩ := mem_flatOf.1 hxp
    obtain ⟨b, hb⟩ := mem_flatOf.1 hxq
    obtain rfl : b = a := Option.some.inj ((hQ b x hb).symm.trans (hP a x ha))
    exact (List.nodup_append.1 (h.accounted.nodup b)).2.2 x ha x hb rfl
  rw [TxLookup.Count, countTxs_eq_length, countTxs_eq_length, ← List.length_append]
  refine ((List.perm_ext_iff_of_nodup pool.all.nodup hnd).2 fun x => ?_).length_eq
  rw [h.accounted.mem_all, List.mem_append, mem_flatOf, mem_flatOf]
  simp only [held, List.mem_append, exists_or]

end Consistent

/-! ## Moving transactions to the queue -/

/-- The queue of `addr` as `enqueueTx` takes it: a new list if there is none. -/
def queueList (pool : TxPool) (addr : Address) : TxList :=
  (pool.queue.lookup addr).getD (newTxList false)

theorem Flatten_queueList (pool : TxPool) (addr : Address) :
    (pool.queueList addr).Flatten = listOf pool.queue addr := by
  cases hq : pool.queue.lookup addr <;>
    simp [queueList, listOf, hq, newTxList, TxList.Flatten, TxSortedMap.Flatten, newTxSortedMap]

/-- A transaction already in `all`, of a nonce its sender's queue does not
hold, enters the queue and replaces nothing. -/
theorem enqueueTx_of_fresh {pool : TxPool} {tx : Transaction} (hall : tx ∈ pool.all.all)
    (hfresh : ∀ t ∈ listOf pool.queue (tx.From.getD 0), t.Nonce ≠ tx.Nonce) :
    pool.enqueueTx tx = (.ok false,
      { pool with queue := pool.queue.insert (tx.From.getD 0) ((pool.queueList (tx.From.getD 0)).put tx) }) := by
  rw [← Flatten_queueList] at hfresh
  have hget : pool.all.Get tx = some tx := by simp [TxLookup.Get, hall]
  have hadd := TxList.Add_of_fresh hfresh pool.config.PriceBump
  simp only [queueList] at hadd
  simp only [enqueueTx, hadd]
  simp [hget, queueList]

/-- Transactions of `s` already in `all`, of nonces apart from each other and
from its queue, enter the queue one by one; nothing else changes. -/
theorem enqueueAll_moving {s : Address} :
    ∀ {pool : TxPool} {txs : List Transaction}, (∀ tx ∈ txs, tx.From = some s ∧ tx ∈ pool.all.all) →
      ((txs ++ listOf pool.queue s).map (·.Nonce)).Nodup →
      ∃ queue, pool.enqueueAll txs = { pool with queue } ∧
        (listOf queue s).Perm (txs ++ listOf pool.queue s) ∧
        (∀ b, b ≠ s → listOf queue b = listOf pool.queue b) ∧
        ((∀ b l, pool.queue.lookup b = some l → l.strict = false) →
          ∀ b l, queue.lookup b = some l → l.strict = false)
  | pool, [], _, _ => ⟨pool.queue, rfl, List.Perm.refl _, fun _ _ => rfl, id⟩
  | pool, tx :: txs, htxs, hnd => by
    obtain ⟨hfrom, hall⟩ := htxs tx List.mem_cons_self
    have hs : tx.From.getD 0 = s := by rw [hfrom]; rfl
    rw [List.cons_append, List.map_cons, List.nodup_cons, List.map_append, List.mem_append] at hnd
    -- the first one takes a nonce the queue does not hold
    have hfresh : ∀ t ∈ listOf pool.queue (tx.From.getD 0), t.Nonce ≠ tx.Nonce := fun t ht hn =>
      hnd.1 (.inr (List.mem_map.2 ⟨t, hs ▸ ht, hn⟩))
    set q := pool.queueList s
    have hq : listOf pool.queue s = q.Flatten := (Flatten_queueList pool s).symm
    set pool₁ : TxPool := { pool with queue := pool.queue.insert s (q.put tx) }
    have hq₁ : (listOf pool₁.queue s).Perm (tx :: listOf pool.queue s) := by
      have hkeep : q.Flatten.filter (·.Nonce != tx.Nonce) = q.Flatten :=
        List.filter_eq_self.2 fun t ht => by simpa using hfresh t (hs ▸ hq ▸ ht)
      have hput := TxList.Flatten_put q tx
      rw [hkeep] at hput
      rwa [listOf_insert, if_pos rfl, hq]
    have hnd₁ : ((txs ++ listOf pool₁.queue s).map (·.Nonce)).Nodup := by
      refine ((((List.Perm.refl txs).append hq₁).trans List.perm_middle).map _).nodup_iff.2 ?_
      rw [List.map_cons, List.nodup_cons, List.map_append, List.mem_append]
      exact hnd
    obtain ⟨queue, heq, hperm, hother, hloose⟩ :=
      @enqueueAll_moving s pool₁ txs (fun t ht => htxs t (List.mem_cons_of_mem tx ht)) hnd₁
    refine ⟨queue, ?_, ?_, fun b hb => ?_, fun h b l hl => ?_⟩
    · rw [TxPool.enqueueAll, List.foldl_cons, enqueueTx_of_fresh hall hfresh, hs]
      exact heq
    · exact hperm.trans (((List.Perm.refl txs).append hq₁).trans List.perm_middle)
    · rw [hother b hb, listOf_insert, if_neg hb]
    · refine hloose (fun b l hl => ?_) b l hl
      by_cases hb : b = s
      · subst hb
        rw [AList.lookup_insert] at hl
        cases hl
        cases hl' : pool.queue.lookup b with
        | none => simp [q, queueList, hl', newTxList]
        | some l' => simpa [q, queueList, hl'] using h b l' hl'
      · rw [AList.lookup_insert_ne hb] at hl
        exact h b l hl

/-! ## `removeTx` -/

section Remove

variable {pool pool₁ : TxPool} {a : Address} {tx : Transaction}

/-- The queue branch of `removeTx`, on a pool `pool₁` that is `pool` with `tx`
gone from `all`, where `tx` is queued. -/
theorem Consistent.removeQueued (h : pool.Consistent) (hq : tx ∈ listOf pool.queue a)
    (hp₁ : pool₁.pending = pool.pending) (hq₁ : pool₁.queue = pool.queue)
    (ha₁ : ∀ x, x ∈ pool₁.all.all ↔ x ∈ pool.all.all ∧ x ≠ tx) : (pool₁.removeQueued a tx).Consistent := by
  obtain ⟨q, hlq⟩ : ∃ q, pool.queue.lookup a = some q := by
    cases hl : pool.queue.lookup a with
    | none => simp [listOf, hl] at hq
    | some q => exact ⟨q, rfl⟩
  have hloose := h.loose a q hlq
  rw [listOf_of_lookup hlq] at hq
  obtain ⟨-, hp⟩ := TxList.Remove_of_mem hq rfl
  rw [TxList.Remove_loose hloose, List.nil_append] at hp
  have hstrict : (q.Remove tx).2.2.strict = false := by rw [TxList.strict_Remove, hloose]
  -- the queue keeps the rest, stored or, if empty, dropped
  have hother : ∀ pool' : TxPool, pool'.pending = pool.pending → pool'.all = pool₁.all →
      (∀ b, listOf pool'.queue b = if b = a then (q.Remove tx).2.2.Flatten else listOf pool.queue b) →
      (∀ b l, pool'.queue.lookup b = some l → l.strict = false) → pool'.Consistent := by
    intro pool' hp' ha' hq' hl'
    refine h.remove a [tx] (fun b hb => ?_) ?_ (fun x => ?_) hl'
    · rw [held, held, hp', hq', if_neg hb]
    · rw [held, held, hp', hq', if_pos rfl, listOf_of_lookup hlq, List.singleton_append]
      exact (List.Perm.append_left _ hp).trans List.perm_middle
    · rw [ha', ha₁, List.mem_singleton]
  unfold TxPool.removeQueued
  rw [hq₁, hlq]
  dsimp only
  split_ifs with hempty
  · refine hother _ hp₁ rfl (fun b => ?_) fun b l hl => ?_
    · rw [listOf_erase, TxList.Empty_iff.1 hempty]
    · by_cases hb : b = a
      · subst hb
        simp [AList.lookup_erase] at hl
      · rw [AList.lookup_erase_ne hb] at hl
        exact h.loose b l hl
  · refine hother _ hp₁ rfl (fun b => listOf_insert _ _ _ _) fun b l hl => ?_
    by_cases hb : b = a
    · subst hb
      rw [AList.lookup_insert] at hl
      cases hl
      exact hstrict
    · rw [AList.lookup_insert_ne hb] at hl
      exact h.loose b l hl

/-- The pending branch of `removeTx`: `tx` leaves the pending list `p` of `a`,
which keeps what `Remove` leaves, and the transactions that became
unexecutable are queued. -/
theorem Consistent.removePending (h : pool.Consistent) {p : TxList}
    (hlp : pool.pending.lookup a = some p) (hp : tx ∈ p.Flatten)
    (hp₁ : pool₁.pending = pool.pending) (hq₁ : pool₁.queue = pool.queue)
    (ha₁ : ∀ x, x ∈ pool₁.all.all ↔ x ∈ pool.all.all ∧ x ≠ tx) :
    (pool₁.removePending a tx (p.Remove tx).2.1 (p.Remove tx).2.2).Consistent ∧
      (pool₁.removePending a tx (p.Remove tx).2.1 (p.Remove tx).2.2).all = pool₁.all := by
  obtain ⟨-, hperm⟩ := TxList.Remove_of_mem hp rfl
  set inv := (p.Remove tx).2.1
  set rest := (p.Remove tx).2.2
  have hheld : (pool.held a).Perm (tx :: (inv ++ rest.Flatten ++ listOf pool.queue a)) := by
    rw [held, listOf_of_lookup hlp]
    exact hperm.append_right _
  have hnd := List.nodup_cons.1 ((hheld.map (·.Nonce)).nodup_iff.1 (h.accounted.nonces a))
  have hnd' := List.nodup_cons.1 (hheld.nodup_iff.1 (h.accounted.nodup a))
  -- the invalidated transactions are `a`'s, still in `all` after `tx` left it
  have hinv : ∀ t ∈ inv, t.From = some a ∧ t ∈ pool₁.all.all := by
    intro t ht
    have hmem : t ∈ pool.held a := hheld.symm.subset (List.mem_cons_of_mem _ (by simp [ht]))
    refine ⟨h.accounted.sender a t hmem, (ha₁ t).2 ⟨(h.accounted.mem_all t).2 ⟨a, hmem⟩, ?_⟩⟩
    rintro rfl
    exact hnd'.1 (by simp [ht])
  have hndq : ((inv ++ listOf pool.queue a).map (·.Nonce)).Nodup :=
    hnd.2.sublist (((List.sublist_append_left _ _).append (List.Sublist.refl _)).map _)
  -- the list stored for `a`, whichever way, then the queued invalids
  -- the final pool differs from the queueing's result in the virtual nonce only
  have key : ∀ pool₂ : TxPool, pool₂.queue = pool.queue → pool₂.all = pool₁.all →
      (∀ b, listOf pool₂.pending b = if b = a then rest.Flatten else listOf pool.pending b) →
      ∀ pool₃ : TxPool, pool₃.pending = (pool₂.enqueueAll inv).pending →
        pool₃.queue = (pool₂.enqueueAll inv).queue → pool₃.all = (pool₂.enqueueAll inv).all →
        pool₃.Consistent ∧ pool₃.all = pool₁.all := by
    intro pool₂ hq₂ ha₂ hpend pool₃ hp₃ hq₃ ha₃
    obtain ⟨queue, heq, hqa, hqb, hloose⟩ :=
      @enqueueAll_moving a pool₂ inv (by rwa [ha₂]) (by rwa [hq₂])
    rw [heq] at hp₃ hq₃ ha₃
    refine ⟨Consistent.of_eq ?_ hp₃ hq₃ ha₃, ha₃.trans ha₂⟩
    refine h.remove a [tx] (fun b hb => ?_) ?_ (fun x => ?_) (hloose (by rw [hq₂]; exact h.loose))
    · rw [held, held, hpend, if_neg hb, hqb b hb, hq₂]
    · show (pool.held a).Perm ([tx] ++ (listOf pool₂.pending a ++ listOf queue a))
      rw [hpend, if_pos rfl, List.singleton_append]
      refine hheld.trans (List.Perm.cons _ ?_)
      refine (List.perm_append_comm.append_right _).trans ?_
      rw [List.append_assoc]
      exact List.Perm.append_left _ (by rw [hq₂] at hqa; exact hqa.symm)
    · show x ∈ pool₂.all.all ↔ _
      rw [ha₂, ha₁, List.mem_singleton]
  unfold TxPool.removePending
  dsimp only
  split_ifs with hempty
  -- the stored pool is read off the goal, so the facts about it wait
  all_goals
    exact key _ (by exact hq₁) (by rfl) (fun b => by
      first
        | rw [listOf_erase, hp₁, TxList.Empty_iff.1 hempty]
        | rw [listOf_insert, hp₁]) _ rfl rfl rfl

theorem removeQueued_all (pool : TxPool) (a : Address) (tx : Transaction) :
    (pool.removeQueued a tx).all = pool.all := by
  unfold TxPool.removeQueued
  split
  · rfl
  · dsimp only
    split_ifs <;> rfl

/-- Removing a transaction keeps the pool consistent, whichever list holds it,
and takes exactly that transaction out of `all`. -/
theorem Consistent.removeTx (h : pool.Consistent) (hash : Transaction) (outofbound : Bool) :
    (pool.removeTx hash outofbound).Consistent ∧
      ∀ x, x ∈ (pool.removeTx hash outofbound).all.all ↔ x ∈ pool.all.all ∧ x ≠ hash := by
  unfold TxPool.removeTx
  cases hget : pool.all.Get hash with
  | none =>
    have hout := TxLookup.Get_eq_none.1 hget
    exact ⟨h, fun x => ⟨fun hx => ⟨hx, fun e => hout (e ▸ hx)⟩, And.left⟩⟩
  | some tx =>
  obtain ⟨hmem, rfl⟩ := TxLookup.Get_eq_some.1 hget
  obtain ⟨a, ha⟩ := (h.accounted.mem_all hash).1 hmem
  have haddr : hash.From.getD 0 = a := by rw [h.accounted.sender a hash ha]; rfl
  have hall₁ : ∀ x, x ∈ (pool.all.Remove hash).all ↔ x ∈ pool.all.all ∧ x ≠ hash :=
    fun x => TxLookup.mem_Remove
  -- a transaction of `a` whose nonce is not in the pending list is queued
  have hqueued : ∀ p, pool.pending.lookup a = some p → (p.Remove hash).1 = false →
      hash ∈ listOf pool.queue a := by
    intro p hlp hr
    rcases List.mem_append.1 ha with hpend | hq
    · rw [listOf_of_lookup hlp] at hpend
      have := TxList.Remove_fst_iff.2 ⟨hash, hpend, rfl⟩
      rw [hr] at this
      cases this
    · exact hq
  -- the two branches, on the pool with `hash` gone from `all`
  have leafQ : ∀ pool₁ : TxPool, pool₁.pending = pool.pending → pool₁.queue = pool.queue →
      pool₁.all = pool.all.Remove hash → hash ∈ listOf pool.queue a →
      (pool₁.removeQueued a hash).Consistent ∧
        ∀ x, x ∈ (pool₁.removeQueued a hash).all.all ↔ x ∈ pool.all.all ∧ x ≠ hash := by
    intro pool₁ hp₁ hq₁ ha₁ hq
    refine ⟨h.removeQueued hq hp₁ hq₁ fun x => ?_, fun x => ?_⟩
    · rw [ha₁]
      exact hall₁ x
    · rw [removeQueued_all, ha₁]
      exact hall₁ x
  have leafP : ∀ pool₁ : TxPool, pool₁.pending = pool.pending → pool₁.queue = pool.queue →
      pool₁.all = pool.all.Remove hash → ∀ p, pool.pending.lookup a = some p → hash ∈ p.Flatten →
      (pool₁.removePending a hash (p.Remove hash).2.1 (p.Remove hash).2.2).Consistent ∧
        ∀ x, x ∈ (pool₁.removePending a hash (p.Remove hash).2.1 (p.Remove hash).2.2).all.all ↔
          x ∈ pool.all.all ∧ x ≠ hash := by
    intro pool₁ hp₁ hq₁ ha₁ p hlp hp
    obtain ⟨hc, hall⟩ := h.removePending hlp hp hp₁ hq₁ fun x => by rw [ha₁]; exact hall₁ x
    exact ⟨hc, fun x => by rw [hall, ha₁]; exact hall₁ x⟩
  dsimp only
  rw [haddr]
  -- the pool of each leaf is read off the goal, so the facts about it wait
  cases outofbound <;> simp only [Bool.false_eq_true, if_false, if_true] <;>
    cases hlp : pool.pending.lookup a with
    | none =>
      rcases List.mem_append.1 ha with hpend | hq
      · simp [listOf, hlp] at hpend
      · exact leafQ _ (by rfl) (by rfl) (by rfl) hq
    | some p =>
      dsimp only
      split_ifs with hr
      · obtain ⟨t, ht, hn⟩ := TxList.Remove_fst_iff.1 hr
        -- the pending transaction of that nonce is `hash` itself
        have htm : t ∈ pool.held a := List.mem_append_left _ (by rw [listOf_of_lookup hlp]; exact ht)
        rw [h.accounted.eq_of_nonce htm ha hn] at ht
        exact leafP _ (by rfl) (by rfl) (by rfl) p hlp ht
      · exact leafQ _ (by rfl) (by rfl) (by rfl) (hqueued p hlp (by simpa using hr))

end Remove

/-! ## Promotion -/

/-- The pending list of `addr` as `promoteTx` takes it: a new strict list if
there is none. -/
def pendingList (pool : TxPool) (addr : Address) : TxList :=
  (pool.pending.lookup addr).getD (newTxList true)

theorem Flatten_pendingList (pool : TxPool) (addr : Address) :
    (pool.pendingList addr).Flatten = listOf pool.pending addr := by
  cases hp : pool.pending.lookup addr <;>
    simp [pendingList, listOf, hp, newTxList, TxList.Flatten, TxSortedMap.Flatten, newTxSortedMap]

/-- A transaction already in `all`, of a nonce the pending list of `addr`
does not hold, is promoted and replaces nothing. -/
theorem promoteTx_of_fresh {pool : TxPool} {now : Nat} {addr : Address} {tx : Transaction}
    (hall : tx ∈ pool.all.all) (hfresh : ∀ t ∈ listOf pool.pending addr, t.Nonce ≠ tx.Nonce) :
    pool.promoteTx now addr tx = (true,
      { pool with
        pending := pool.pending.insert addr ((pool.pendingList addr).put tx)
        beats := pool.beats.insert addr now
        pendingNonces := pool.pendingNonces.set addr (tx.Nonce + 1) }) := by
  rw [← Flatten_pendingList] at hfresh
  have hget : pool.all.Get tx = some tx := by simp [TxLookup.Get, hall]
  have hadd := TxList.Add_of_fresh hfresh pool.config.PriceBump
  simp only [pendingList] at hadd
  simp only [promoteTx, hadd]
  simp [hget, pendingList]

/-- `put` of a fresh nonce adds the transaction to the list. -/
theorem Flatten_put_fresh {l : TxList} {tx : Transaction} (hfresh : ∀ t ∈ l.Flatten, t.Nonce ≠ tx.Nonce) :
    (l.put tx).Flatten.Perm (tx :: l.Flatten) := by
  have hkeep : l.Flatten.filter (·.Nonce != tx.Nonce) = l.Flatten :=
    List.filter_eq_self.2 fun t ht => by simpa using hfresh t ht
  have hput := TxList.Flatten_put l tx
  rwa [hkeep] at hput

/-- Transactions in `all`, of nonces apart from each other and from the
pending list of `addr`, are all promoted; only the pending list of `addr`,
its heartbeat and its virtual nonce change. -/
theorem promoteReadies_fresh {now : Nat} {addr : Address} :
    ∀ {pool : TxPool} {txs : List Transaction}, (∀ tx ∈ txs, tx ∈ pool.all.all) →
      ((listOf pool.pending addr ++ txs).map (·.Nonce)).Nodup →
      ∃ pending beats pendingNonces, promoteReadies now addr pool txs =
          (txs, { pool with pending, beats, pendingNonces }) ∧
        (listOf pending addr).Perm (listOf pool.pending addr ++ txs) ∧
        ∀ b, b ≠ addr → listOf pending b = listOf pool.pending b
  | pool, [], _, _ => ⟨pool.pending, pool.beats, pool.pendingNonces, rfl, by simp, fun _ _ => rfl⟩
  | pool, tx :: txs, htxs, hnd => by
    have hnd' := (List.perm_middle.map Transaction.Nonce).nodup_iff.1 hnd
    rw [List.map_cons, List.nodup_cons, List.map_append, List.mem_append] at hnd'
    -- the first one takes a nonce the pending list does not hold
    have hfresh : ∀ t ∈ listOf pool.pending addr, t.Nonce ≠ tx.Nonce := fun t ht hn =>
      hnd'.1 (.inl (List.mem_map.2 ⟨t, ht, hn⟩))
    set pool₁ : TxPool :=
      { pool with
        pending := pool.pending.insert addr ((pool.pendingList addr).put tx)
        beats := pool.beats.insert addr now
        pendingNonces := pool.pendingNonces.set addr (tx.Nonce + 1) }
    have hp₁ : (listOf pool₁.pending addr).Perm (tx :: listOf pool.pending addr) := by
      rw [listOf_insert, if_pos rfl, ← Flatten_pendingList]
      exact Flatten_put_fresh (by rwa [Flatten_pendingList])
    have hnd₁ : ((listOf pool₁.pending addr ++ txs).map (·.Nonce)).Nodup := by
      refine ((hp₁.append_right txs).map _).nodup_iff.2 ?_
      rw [List.cons_append, List.map_cons, List.nodup_cons, List.map_append, List.mem_append]
      exact hnd'
    obtain ⟨pending, beats, pendingNonces, heq, hperm, hother⟩ :=
      @promoteReadies_fresh now addr pool₁ txs (fun t ht => htxs t (List.mem_cons_of_mem tx ht)) hnd₁
    refine ⟨pending, beats, pendingNonces, ?_, ?_, fun b hb => ?_⟩
    · rw [promoteReadies, promoteTx_of_fresh (htxs tx List.mem_cons_self) hfresh]
      simp only [if_true]
      rw [heq]
    · exact hperm.trans ((hp₁.append_right txs).trans List.perm_middle.symm)
    · rw [hother b hb, listOf_insert, if_neg hb]

theorem Consistent.promoteAccount {pool : TxPool} (h : pool.Consistent) (now : Nat) (addr : Address) :
    (pool.promoteAccount now addr).2.Consistent := by
  unfold TxPool.promoteAccount
  cases hq : pool.queue.lookup addr with
  | none => exact h
  | some list =>
  have hloose := h.loose addr list hq
  dsimp only [TxPool.removeAll]
  -- the queue is cut into the stale nonces `F.1`, the unpayable `D.1`, the
  -- ready run `R.1`, and the rest of `R.2`, capped below
  generalize hF : list.Forward (pool.currentState.GetNonce addr) = F
  generalize hD : F.2.Filter (↑(pool.currentState.GetBalance addr)) pool.currentMaxGas = D
  generalize hR : D.2.2.Ready (pool.pendingNonces.get addr) = R
  have hRs : R.2.strict = false := by
    rw [← hR, TxList.strict_Ready, ← hD, TxList.strict_Filter, ← hF, TxList.strict_Forward, hloose]
  have hQR : (listOf pool.queue addr).Perm (F.1 ++ (D.1 ++ (R.1 ++ R.2.Flatten))) := by
    have hD₁ : D.2.1 = [] := by
      rw [← hD]
      exact TxList.Filter_loose (by rw [← hF, TxList.strict_Forward, hloose]) _ _
    have h₁ := TxList.Flatten_Forward list (pool.currentState.GetNonce addr)
    have h₂ := TxList.Filter_perm F.2 (pool.currentState.GetBalance addr) pool.currentMaxGas
    have h₃ := TxList.Flatten_Ready D.2.2 (pool.pendingNonces.get addr)
    rw [hF] at h₁
    rw [hD, hD₁, List.append_nil] at h₂
    rw [hR] at h₃
    rw [listOf_of_lookup hq, h₁, ← h₃]
    exact h₂.append_left _
  have hnd := hQR.nodup_iff.1 ((h.accounted.nodup addr).sublist (List.sublist_append_right _ _))
  have hRsub : R.1.Sublist (F.1 ++ (D.1 ++ (R.1 ++ R.2.Flatten))) :=
    ((List.sublist_append_left _ _).trans (List.sublist_append_right _ _)).trans
      (List.sublist_append_right _ _)
  -- the ready run is still in `all` and new to the pending list
  have hRall : ∀ tx ∈ R.1,
      tx ∈ (List.foldl TxLookup.Remove (List.foldl TxLookup.Remove pool.all F.1) D.1).all := by
    intro tx htx
    rw [TxLookup.mem_foldl_Remove, TxLookup.mem_foldl_Remove]
    have hmem : tx ∈ listOf pool.queue addr := hQR.symm.subset (hRsub.subset htx)
    obtain ⟨-, hnd₂, hF₁⟩ := List.nodup_append.1 hnd
    obtain ⟨-, -, hD₁⟩ := List.nodup_append.1 hnd₂
    refine ⟨⟨(h.accounted.mem_all tx).2 ⟨addr, List.mem_append_right _ hmem⟩, fun hf => ?_⟩, fun hd => ?_⟩
    · exact hF₁ tx hf tx (List.mem_append_right _ (List.mem_append_left _ htx)) rfl
    · exact hD₁ tx hd tx (List.mem_append_left _ htx) rfl
  have hRnd : ((listOf pool.pending addr ++ R.1).map (·.Nonce)).Nodup := by
    have hall := ((((List.Perm.refl _).append hQR).map (·.Nonce)).nodup_iff.1 (h.accounted.nonces addr))
    exact hall.sublist ((hRsub.append_left _).map _)
  obtain ⟨pending, beats, pendingNonces, hpr, hpend, hother⟩ :=
    @promoteReadies_fresh now addr
      { pool with all := List.foldl TxLookup.Remove (List.foldl TxLookup.Remove pool.all F.1) D.1 }
      R.1 hRall hRnd
  rw [hpr]
  dsimp only
  generalize hC : (if pool.locals.contains addr = true then ([], R.2)
    else R.2.Cap pool.config.AccountQueue) = C
  obtain ⟨hCp, hCs⟩ : R.2.Flatten.Perm (C.1 ++ C.2.Flatten) ∧ C.2.strict = false := by
    rw [← hC]
    split
    · exact ⟨List.Perm.refl _, hRs⟩
    · exact ⟨TxList.Cap_perm _ _, by rw [TxList.strict_Cap, hRs]⟩
  -- `F.1`, `D.1` and `C.1` leave, `R.1` is promoted and `C.2` stays queued
  have hQ : (listOf pool.queue addr).Perm ((F.1 ++ D.1 ++ C.1) ++ (R.1 ++ C.2.Flatten)) := by
    refine hQR.trans ((((hCp.append_left _).append_left _).append_left _).trans ?_)
    exact List.perm_iff_count.2 fun x => by simp only [List.count_append]; omega
  have key : ∀ pool' : TxPool, pool'.pending = pending →
      pool'.all = List.foldl TxLookup.Remove
        (List.foldl TxLookup.Remove (List.foldl TxLookup.Remove pool.all F.1) D.1) C.1 →
      (∀ b, listOf pool'.queue b = if b = addr then C.2.Flatten else listOf pool.queue b) →
      (∀ b l, pool'.queue.lookup b = some l → l.strict = false) → pool'.Consistent := by
    intro pool' hp' ha' hq' hl'
    refine h.requeue addr (X := F.1 ++ D.1 ++ C.1) (R := R.1) ?_ ?_ (fun b hb => ?_) (fun x => ?_) hl'
    · rwa [hq', if_pos rfl]
    · rw [hp']
      exact hpend
    · rw [held, held, hp', hq', if_neg hb, hother b hb]
    · rw [ha', TxLookup.mem_foldl_Remove, TxLookup.mem_foldl_Remove, TxLookup.mem_foldl_Remove]
      simp only [List.mem_append, not_or, and_assoc]
  split_ifs with hempty
  · refine key _ rfl rfl (fun b => ?_) fun b l hl => ?_
    · rw [listOf_erase, TxList.Empty_iff.1 hempty]
    · by_cases hb : b = addr
      · subst hb
        simp [AList.lookup_erase] at hl
      · rw [AList.lookup_erase_ne hb] at hl
        exact h.loose b l hl
  · refine key _ rfl rfl (fun b => listOf_insert _ _ _ _) fun b l hl => ?_
    by_cases hb : b = addr
    · subst hb
      rw [AList.lookup_insert] at hl
      cases hl
      exact hCs
    · rw [AList.lookup_insert_ne hb] at hl
      exact h.loose b l hl

theorem Consistent.promoteExecutables (now : Nat) :
    ∀ {pool : TxPool} (accounts : List Address), pool.Consistent →
      (pool.promoteExecutables now accounts).2.Consistent
  | _, [], h => h
  | _, addr :: accounts, h => Consistent.promoteExecutables now accounts (h.promoteAccount now addr)

/-! ## Demotion -/

theorem Consistent.demoteAccount {pool : TxPool} (h : pool.Consistent) {addr : Address} {list : TxList}
    (hp : pool.pending.lookup addr = some list) : (pool.demoteAccount addr list).Consistent := by
  unfold TxPool.demoteAccount
  dsimp only [TxPool.removeAll]
  generalize hO : list.Forward (pool.currentState.GetNonce addr) = O
  generalize hD : O.2.Filter (↑(pool.currentState.GetBalance addr)) pool.currentMaxGas = D
  generalize hG : (if D.2.2.Len > 0 ∧ (D.2.2.txs.Get (pool.currentState.GetNonce addr)).isNone = true
    then D.2.2.Cap 0 else ([], D.2.2)) = G
  generalize hall₃ : List.foldl TxLookup.Remove (List.foldl TxLookup.Remove pool.all O.1) D.1 = all₃
  -- the pending list is cut into the stale nonces `O.1`, the unpayable
  -- `D.1`, the invalidated `D.2.1`, the gapped `G.1` and the rest `G.2`
  have hH : (pool.held addr).Perm
      ((O.1 ++ D.1) ++ (G.2.Flatten ++ (G.1 ++ (D.2.1 ++ listOf pool.queue addr)))) := by
    have h₁ := TxList.Flatten_Forward list (pool.currentState.GetNonce addr)
    have h₂ := TxList.Filter_perm O.2 (pool.currentState.GetBalance addr) pool.currentMaxGas
    have h₃ : D.2.2.Flatten.Perm (G.1 ++ G.2.Flatten) := by
      rw [← hG]
      split
      · exact TxList.Cap_perm _ _
      · exact List.Perm.refl _
    rw [hO] at h₁
    rw [hD] at h₂
    rw [held, listOf_of_lookup hp, h₁]
    refine (((h₂.trans (h₃.append_left _)).append_left _).append_right _).trans ?_
    exact List.perm_iff_count.2 fun x => by simp only [List.count_append]; omega
  have hnd := hH.nodup_iff.1 (h.accounted.nodup addr)
  have hnonce := (hH.map (·.Nonce)).nodup_iff.1 (h.accounted.nonces addr)
  -- what goes to the queue is the account's and still in `all`
  have hkeep : ∀ tx ∈ G.1 ++ (D.2.1 ++ listOf pool.queue addr), tx.From = some addr ∧ tx ∈ all₃.all := by
    intro tx htx
    have hr : tx ∈ G.2.Flatten ++ (G.1 ++ (D.2.1 ++ listOf pool.queue addr)) :=
      List.mem_append_right _ htx
    have hmem : tx ∈ pool.held addr := hH.symm.subset (List.mem_append_right _ hr)
    have hX : tx ∉ O.1 ++ D.1 := fun hx => (List.nodup_append.1 hnd).2.2 tx hx tx hr rfl
    rw [List.mem_append, not_or] at hX
    refine ⟨h.accounted.sender addr tx hmem, ?_⟩
    rw [← hall₃, TxLookup.mem_foldl_Remove, TxLookup.mem_foldl_Remove]
    exact ⟨⟨(h.accounted.mem_all tx).2 ⟨addr, hmem⟩, hX.1⟩, hX.2⟩
  obtain ⟨q₁, heq₁, hq₁a, hq₁b, hl₁⟩ := @enqueueAll_moving addr
    { pool with all := all₃, priced := pool.priced.Removed all₃ (O.1.length + D.1.length) } D.2.1
    (fun tx htx => hkeep tx (List.mem_append_right _ (List.mem_append_left _ htx)))
    (hnonce.sublist ((((List.sublist_append_right _ _).trans (List.sublist_append_right _ _)).trans
      (List.sublist_append_right _ _)).map _))
  rw [heq₁]
  dsimp only
  obtain ⟨q₂, heq₂, hq₂a, hq₂b, hl₂⟩ := @enqueueAll_moving addr
    { pool with all := all₃, priced := pool.priced.Removed all₃ (O.1.length + D.1.length), queue := q₁ } G.1
    (fun tx htx => hkeep tx (List.mem_append_left _ htx))
    (((hq₁a.append_left _).map _).nodup_iff.2 (hnonce.sublist
      (((List.sublist_append_right _ _).trans (List.sublist_append_right _ _)).map _)))
  rw [heq₂]
  dsimp only
  -- the rest stays pending, stored or, if empty, dropped
  have key : ∀ pool' : TxPool, pool'.queue = q₂ → pool'.all = all₃ →
      (∀ b, listOf pool'.pending b = if b = addr then G.2.Flatten else listOf pool.pending b) →
      pool'.Consistent := by
    intro pool' hq' ha' hp'
    refine h.remove addr (O.1 ++ D.1) (fun b hb => ?_) ?_ (fun x => ?_) ?_
    · rw [held, held, hp', if_neg hb, hq', hq₂b b hb, hq₁b b hb]
    · show (pool.held addr).Perm (O.1 ++ D.1 ++ (listOf pool'.pending addr ++ listOf pool'.queue addr))
      rw [hp', if_pos rfl, hq']
      exact hH.trans ((((hq₂a.trans (hq₁a.append_left _)).symm).append_left _).append_left _)
    · rw [ha', ← hall₃, TxLookup.mem_foldl_Remove, TxLookup.mem_foldl_Remove, List.mem_append, not_or,
        and_assoc]
    · rw [hq']
      exact hl₂ (hl₁ h.loose)
  split_ifs with hempty
  · exact key _ rfl rfl fun b => by rw [listOf_erase, TxList.Empty_iff.1 hempty]
  · exact key _ rfl rfl fun b => listOf_insert _ _ _ _

/-- Queueing leaves the pending lists. -/
theorem enqueueTx_pending (pool : TxPool) (tx : Transaction) :
    (pool.enqueueTx tx).2.pending = pool.pending := by
  unfold TxPool.enqueueTx TxPool.forget TxPool.track
  dsimp only
  -- the replaced transaction and the failsafe insertion touch `all` only
  split_ifs <;> (try split) <;> rfl

theorem enqueueAll_pending (txs : List Transaction) :
    ∀ pool : TxPool, (pool.enqueueAll txs).pending = pool.pending := by
  induction txs with
  | nil => intro pool; rfl
  | cons tx txs ih =>
    intro pool
    rw [enqueueAll, List.foldl_cons, ← enqueueAll, ih, enqueueTx_pending]

/-- Demoting one account leaves the other pending lists. -/
theorem demoteAccount_lookup_ne (pool : TxPool) {addr b : Address} (list : TxList) (hb : b ≠ addr) :
    (pool.demoteAccount addr list).pending.lookup b = pool.pending.lookup b := by
  unfold TxPool.demoteAccount TxPool.removeAll
  dsimp only
  split_ifs <;> simp only [AList.lookup_erase_ne hb, AList.lookup_insert_ne hb, enqueueAll_pending]

/-- The demotion loop runs over the pending map as it was at the start; each
account finds its list there, since the others leave it. -/
theorem Consistent.demoteAll :
    ∀ (es : List (Σ _ : Address, TxList)) {pool : TxPool}, pool.Consistent →
      (∀ e ∈ es, pool.pending.lookup e.1 = some e.2) → es.NodupKeys →
      (es.foldl (fun pool e => pool.demoteAccount e.1 e.2) pool).Consistent
  | [], _, h, _, _ => h
  | e :: es, pool, h, hl, hnd => by
    rw [List.nodupKeys_cons] at hnd
    refine Consistent.demoteAll es (h.demoteAccount (hl e List.mem_cons_self)) (fun e' he' => ?_) hnd.2
    have hne : e'.1 ≠ e.1 := fun heq => hnd.1 (heq ▸ List.mem_keys_of_mem he')
    rw [demoteAccount_lookup_ne _ _ hne]
    exact hl e' (List.mem_cons_of_mem _ he')

theorem Consistent.demoteUnexecutables {pool : TxPool} (h : pool.Consistent) :
    pool.demoteUnexecutables.Consistent :=
  Consistent.demoteAll _ h (fun _ he => AList.mem_lookup_iff.2 he) pool.pending.nodupKeys

/-! ## Truncation -/

/-- A loop whose body removes its transaction from `all` and touches neither
the pending lists nor the queues. -/
theorem foldl_removing {f : TxPool → Transaction → TxPool}
    (hf : ∀ p tx, (f p tx).pending = p.pending ∧ (f p tx).queue = p.queue ∧ (f p tx).all = p.all.Remove tx) :
    ∀ (txs : List Transaction) (pool : TxPool), (txs.foldl f pool).pending = pool.pending ∧
      (txs.foldl f pool).queue = pool.queue ∧ (txs.foldl f pool).all = txs.foldl TxLookup.Remove pool.all
  | [], _ => ⟨rfl, rfl, rfl⟩
  | tx :: txs, pool => by
    obtain ⟨hp, hq, ha⟩ := hf pool tx
    obtain ⟨hp', hq', ha'⟩ := foldl_removing hf txs (f pool tx)
    exact ⟨hp'.trans hp, hq'.trans hq, by rw [List.foldl_cons, List.foldl_cons, ha', ha]⟩

/-- What `capPending` does to the lists and to `all`: the pending list of
`addr` is capped one below its length and the dropped transactions leave
`all`. -/
theorem capPending_spec {pool pool' : TxPool} {addr : Address} (hc : pool.capPending addr = some pool') :
    ∃ list, pool.pending.lookup addr = some list ∧
      pool'.pending = pool.pending.insert addr (list.Cap (list.Len - 1)).2 ∧ pool'.queue = pool.queue ∧
      pool'.all = (list.Cap (list.Len - 1)).1.foldl TxLookup.Remove pool.all := by
  unfold TxPool.capPending at hc
  cases hl : pool.pending.lookup addr with
  | none => simp [hl] at hc
  | some list =>
  rw [hl] at hc
  dsimp only at hc
  split_ifs at hc
  cases hc
  refine ⟨list, rfl, foldl_removing ?_ _ _⟩
  -- the loop body lowers the virtual nonce besides the removal
  intro p tx
  split_ifs <;> exact ⟨rfl, rfl, rfl⟩

/-- Dropping the highest pending nonce of `addr` keeps the pool consistent. -/
theorem Consistent.capPending {pool pool' : TxPool} (h : pool.Consistent) {addr : Address}
    (hc : pool.capPending addr = some pool') : pool'.Consistent := by
  obtain ⟨list, hl, hp, hq, ha⟩ := capPending_spec hc
  refine h.remove addr (list.Cap (list.Len - 1)).1 (fun b hb => ?_) ?_ (fun x => ?_) ?_
  · rw [held, held, hp, hq, listOf_insert, if_neg hb]
  · rw [held, held, hp, hq, listOf_insert, if_pos rfl, listOf_of_lookup hl, ← List.append_assoc]
    exact (TxList.Cap_perm list _).append_right _
  · rw [ha, TxLookup.mem_foldl_Remove]
  · rw [hq]
    exact h.loose

theorem Consistent.capEach : ∀ {pool pool' : TxPool} (addrs : List Address), pool.Consistent →
    pool.capEach addrs = some pool' → pool'.Consistent
  | _, _, [], h, hc => by
    cases hc
    exact h
  | _, _, addr :: addrs, h, hc => by
    rw [TxPool.capEach, Option.bind_eq_some_iff] at hc
    obtain ⟨p, hp, hc⟩ := hc
    exact Consistent.capEach addrs (h.capPending hp) hc

theorem Consistent.equalize {pool pool' : TxPool} {offenders : List Address} {threshold pending n : Nat}
    (h : pool.Consistent) (he : pool.equalize offenders threshold pending = some (n, pool')) :
    pool'.Consistent := by
  fun_induction TxPool.equalize pool offenders threshold pending with
  | case1 | case2 => cases he
  | case3 _ _ _ _ _ _ _ hcap ih => exact ih (h.capEach _ hcap) he
  | case4 | case5 =>
    cases he
    exact h

theorem Consistent.reduceOffenders {pool pool' : TxPool} {offenders : List Address} {pending n : Nat}
    (h : pool.Consistent) (hr : pool.reduceOffenders offenders pending = some (n, pool')) :
    pool'.Consistent := by
  fun_induction TxPool.reduceOffenders pool offenders pending with
  | case1 | case2 => cases hr
  | case3 _ _ _ _ _ _ _ hcap ih => exact ih (h.capEach _ hcap) hr
  | case4 | case5 =>
    cases hr
    exact h

theorem Consistent.dropOffenders {pool pool' : TxPool} {pending n : Nat}
    {offenders offenders' spammers : List Address} (h : pool.Consistent)
    (hd : pool.dropOffenders pending offenders spammers = some (n, offenders', pool')) : pool'.Consistent := by
  fun_induction TxPool.dropOffenders pool pending offenders spammers with
  | case1 | case6 =>
    cases hd
    exact h
  | case2 | case3 => cases hd
  | case4 =>
    -- the earlier offenders were cut down to the new one's size
    rename_i heq ih
    exact ih (h.equalize heq) hd
  | case5 =>
    rename_i ih
    exact ih h hd

theorem Consistent.truncatePending {pool pool' : TxPool} (h : pool.Consistent)
    (ht : pool.truncatePending = some pool') : pool'.Consistent := by
  unfold TxPool.truncatePending at ht
  dsimp only at ht
  split_ifs at ht
  · cases ht
    exact h
  · split at ht
    · cases ht
    · rename_i hd
      have h' := h.dropOffenders hd
      split_ifs at ht
      · obtain ⟨⟨m, p⟩, hr, heq⟩ := Option.map_eq_some_iff.1 ht
        cases heq
        exact h'.reduceOffenders hr
      · cases ht
        exact h'

/-- A loop of removals keeps the pool consistent and only shrinks `all`. -/
theorem Consistent.foldl_removeTx (outofbound : Bool) :
    ∀ (txs : List Transaction) {pool : TxPool}, pool.Consistent →
      (txs.foldl (fun pool tx => pool.removeTx tx outofbound) pool).Consistent ∧
        ∀ x, x ∈ (txs.foldl (fun pool tx => pool.removeTx tx outofbound) pool).all.all → x ∈ pool.all.all
  | [], _, h => ⟨h, fun _ hx => hx⟩
  | tx :: txs, _, h =>
    let ⟨hc, hall⟩ := h.removeTx tx outofbound
    let ⟨hc', hall'⟩ := Consistent.foldl_removeTx outofbound txs hc
    ⟨hc', fun x hx => ((hall x).1 (hall' x hx)).1⟩

theorem Consistent.dropQueued {pool pool' : TxPool} {drop : Nat} {addrs : List Address}
    (h : pool.Consistent) (hd : pool.dropQueued drop addrs = some pool') : pool'.Consistent := by
  fun_induction TxPool.dropQueued pool drop addrs with
  | case1 | case2 =>
    cases hd
    exact h
  | case3 => cases hd
  | case4 =>
    -- a whole queue goes, and the loop goes on
    rename_i ih
    exact ih (h.foldl_removeTx true _).1 hd
  | case5 =>
    cases hd
    exact (h.foldl_removeTx true _).1

theorem Consistent.truncateQueue {pool pool' : TxPool} (h : pool.Consistent)
    (ht : pool.truncateQueue = some pool') : pool'.Consistent := by
  unfold TxPool.truncateQueue at ht
  dsimp only at ht
  split_ifs at ht
  · cases ht
    exact h
  · exact h.dropQueued ht

/-! ## Admission -/

theorem Consistent.enqueueTx_new {pool : TxPool} (h : pool.Consistent) {tx : Transaction} {a : Address}
    (hfrom : tx.From = some a) (hnew : tx ∉ pool.all.all)
    (hpend : ∀ t ∈ listOf pool.pending a, t.Nonce ≠ tx.Nonce) : (pool.enqueueTx tx).2.Consistent := by
  have hs : tx.From.getD 0 = a := by rw [hfrom]; rfl
  unfold TxPool.enqueueTx TxPool.forget TxPool.track
  dsimp only
  rw [hs, show (pool.queue.lookup a).getD (newTxList false) = pool.queueList a from rfl]
  generalize hr : (pool.queueList a).Add tx pool.config.PriceBump = r
  have hq := Flatten_queueList pool a
  have hqs : (pool.queueList a).strict = false := by
    cases hl : pool.queue.lookup a with
    | none => simp [queueList, hl, newTxList]
    | some l => simpa [queueList, hl] using h.loose a l hl
  -- every queue but `a`'s is kept, and `a`'s is loose
  have hloose : ∀ l, l.strict = false → ∀ b l', (pool.queue.insert a l).lookup b = some l' →
      l'.strict = false := by
    intro l hl b l' hb
    by_cases hba : b = a
    · subst hba
      rw [AList.lookup_insert] at hb
      cases hb
      exact hl
    · rw [AList.lookup_insert_ne hba] at hb
      exact h.loose b l' hb
  obtain ⟨ok, old, l'⟩ := r
  cases ok
  · -- refused: the queue list is stored back as it was
    have hl' : l' = pool.queueList a := by
      rcases TxList.Add_cases (pool.queueList a) tx pool.config.PriceBump with he | ⟨he, -⟩ <;>
        rw [hr] at he
      · cases he
        rfl
      · cases he
    subst hl'
    simp only [Bool.not_false, if_true]
    refine h.remove a [] (fun b hb => ?_) ?_ (fun x => ?_) (hloose _ hqs)
    · rw [held, held, listOf_insert, if_neg hb]
    · rw [held, held, listOf_insert, if_pos rfl, hq, List.nil_append]
    · simp
  · obtain ⟨hold, hput⟩ := @TxList.Add_accepted (pool.queueList a) tx pool.config.PriceBump (by rw [hr])
    rw [hr] at hold hput
    dsimp only at hold hput
    subst hput
    simp only [Bool.not_true, Bool.false_eq_true, if_false]
    -- the pending list has no transaction of `tx`'s nonce; the queue's, if any, is `old`
    have hheld : ∀ x, x ∈ pool.held a ∧ x.Nonce = tx.Nonce ↔ old = some x := by
      intro x
      rw [hold, TxList.Get_eq_some_iff, hq, held, List.mem_append]
      exact ⟨fun ⟨hx, hn⟩ => ⟨hx.resolve_left fun hp => hpend x hp hn, hn⟩, fun ⟨hx, hn⟩ => ⟨.inr hx, hn⟩⟩
    have key : ∀ pool' : TxPool, pool'.pending = pool.pending →
        pool'.queue = pool.queue.insert a ((pool.queueList a).put tx) →
        pool'.all = (old.elim pool.all pool.all.Remove).Add tx → pool'.Consistent := by
      intro pool' hp' hq' ha'
      refine h.replace hfrom hnew hheld (fun b hb => ?_) ?_ ha' (by rw [hq']; exact hloose _ hqs)
      · rw [held, held, hp', hq', listOf_insert, if_neg hb]
      · show (listOf pool'.pending a ++ listOf pool'.queue a).Perm _
        rw [hp', hq', listOf_insert, if_pos rfl, held, List.filter_append]
        have hkeep : (listOf pool.pending a).filter (·.Nonce != tx.Nonce) = listOf pool.pending a :=
          List.filter_eq_self.2 fun t ht => by simpa using hpend t ht
        rw [hkeep, ← hq]
        exact ((TxList.Flatten_put _ tx).append_left _).trans List.perm_middle
    have hout : ∀ t : TxLookup, (∀ x ∈ t.all, x ∈ pool.all.all) → (t.Get tx).isNone = true :=
      fun t ht => Option.isNone_iff_eq_none.2 (TxLookup.Get_eq_none.2 fun hm => hnew (ht tx hm))
    cases old with
    | none =>
      rw [if_pos (hout _ fun x hx => hx)]
      exact key _ rfl rfl rfl
    | some o =>
      rw [if_pos (hout _ fun x hx => (TxLookup.mem_Remove.1 hx).1)]
      exact key _ rfl rfl rfl

/-- Making room evicts whole transactions: the pool stays consistent and
`all` only shrinks. -/
theorem Consistent.makeRoom {pool : TxPool} (h : pool.Consistent) (tx : Transaction) (isLocal : Bool) :
    (pool.makeRoom tx isLocal).2.Consistent ∧
      ∀ x, x ∈ (pool.makeRoom tx isLocal).2.all.all → x ∈ pool.all.all := by
  unfold TxPool.makeRoom
  dsimp only
  -- a branch either only updates the heap or evicts with `removeTx`
  split_ifs <;> first
    | exact ⟨h, fun _ hx => hx⟩
    | exact ⟨h.of_eq rfl rfl rfl, fun _ hx => hx⟩
    | exact Consistent.foldl_removeTx false _ (h.of_eq rfl rfl rfl)

theorem Consistent.addQueued {pool : TxPool} (h : pool.Consistent) {tx : Transaction} {a : Address}
    (hfrom : tx.From = some a) (hnew : tx ∉ pool.all.all)
    (hpend : ∀ t ∈ listOf pool.pending a, t.Nonce ≠ tx.Nonce) (isLocal : Bool) :
    (pool.addQueued tx isLocal).2.Consistent := by
  have he := h.enqueueTx_new hfrom hnew hpend
  unfold TxPool.addQueued
  split
  · rename_i heq
    rw [heq] at he
    exact he
  · rename_i heq
    rw [heq] at he
    dsimp only
    split_ifs
    · exact he.of_eq rfl rfl rfl
    · exact he

theorem Consistent.addValid {pool : TxPool} (h : pool.Consistent) {tx : Transaction} {a : Address}
    (hfrom : tx.From = some a) (hnew : tx ∉ pool.all.all) (isLocal : Bool) :
    (pool.addValid tx isLocal).2.Consistent := by
  have hs : tx.From.getD 0 = a := by rw [hfrom]; rfl
  unfold TxPool.addValid
  dsimp only
  rw [hs]
  cases hlp : pool.pending.lookup a with
  | none => exact h.addQueued hfrom hnew (by simp [listOf, hlp]) isLocal
  | some list =>
  dsimp only
  split_ifs with hover hok
  · exact h
  · -- `tx` replaces the pending transaction `o` of its nonce
    obtain ⟨o, ho⟩ := Option.isSome_iff_exists.1 hover
    have hacc := @TxList.Add_accepted list tx pool.config.PriceBump (by simpa using hok)
    rw [ho] at hacc
    rw [hacc.1, hacc.2]
    dsimp only [TxPool.forget, TxPool.track]
    obtain ⟨hoP, hon⟩ := TxList.Get_eq_some_iff.1 ho
    rw [← listOf_of_lookup hlp] at hoP
    have hoH : o ∈ pool.held a := List.mem_append_left _ hoP
    have hheld : ∀ x, x ∈ pool.held a ∧ x.Nonce = tx.Nonce ↔ some o = some x := fun x =>
      ⟨fun ⟨hx, hn⟩ => by rw [h.accounted.eq_of_nonce hoH hx (hon.trans hn.symm)],
        fun hx => Option.some.inj hx ▸ ⟨hoH, hon⟩⟩
    -- the queue holds no transaction of that nonce
    have hkeep : (listOf pool.queue a).filter (·.Nonce != tx.Nonce) = listOf pool.queue a := by
      refine List.filter_eq_self.2 fun t ht => ?_
      have hne : t.Nonce ≠ tx.Nonce := fun hn => by
        have hto := h.accounted.eq_of_nonce (List.mem_append_right _ ht) hoH (hn.trans hon.symm)
        subst hto
        exact (List.nodup_append.1 (h.accounted.nodup a)).2.2 t hoP t ht rfl
      simpa using hne
    refine h.replace hfrom hnew hheld (fun b hb => ?_) ?_ rfl h.loose
    · show listOf (pool.pending.insert a (list.put tx)) b ++ listOf pool.queue b = pool.held b
      rw [listOf_insert, if_neg hb]
      rfl
    · show (listOf (pool.pending.insert a (list.put tx)) a ++ listOf pool.queue a).Perm _
      rw [listOf_insert, if_pos rfl, held, List.filter_append, hkeep, listOf_of_lookup hlp]
      exact (TxList.Flatten_put list tx).append_right _
  · -- no pending transaction of that nonce: the queue takes it
    refine h.addQueued hfrom hnew (fun t ht hn => ?_) isLocal
    rw [listOf_of_lookup hlp] at ht
    have := TxList.Get_eq_some_iff.2 ⟨ht, hn⟩
    simp [TxList.Overlaps, this] at hover

/-- A transaction that passes validation has a sender. -/
theorem validateTx_From {gp : GasParams} {pool : TxPool} {tx : Transaction} {isLocal : Bool}
    (hv : pool.validateTx gp tx isLocal = .ok ()) : ∃ a, tx.From = some a := by
  cases hf : tx.From with
  | some a => exact ⟨a, rfl⟩
  | none =>
    exfalso
    -- each check before the sender's throws when it fails, and then the sender's does
    by_cases h1 : tx.Size > 32 * 1024
    · simp only [validateTx, h1, if_true] at hv
      obtain ⟨_, hx, -⟩ := ExceptRun.bind_eq_ok.1 hv
      exact ExceptRun.throw_ne_ok hx
    by_cases h2 : tx.Value < 0
    · simp only [validateTx, h1, h2, if_true, if_false] at hv
      obtain ⟨_, hx, -⟩ := ExceptRun.bind_eq_ok.1 hv
      exact ExceptRun.throw_ne_ok hx
    by_cases h3 : pool.currentMaxGas < tx.Gas
    · simp only [validateTx, h1, h2, h3, if_true, if_false] at hv
      obtain ⟨_, hx, -⟩ := ExceptRun.bind_eq_ok.1 hv
      exact ExceptRun.throw_ne_ok hx
    · simp only [validateTx, h1, h2, h3, hf, if_false] at hv
      obtain ⟨_, hx, -⟩ := ExceptRun.bind_eq_ok.1 hv
      exact ExceptRun.throw_ne_ok hx

section Admission

variable (gp : GasParams)

theorem Consistent.add {pool : TxPool} (h : pool.Consistent) (tx : Transaction) (isLocal : Bool) :
    (pool.add gp tx isLocal).2.Consistent := by
  unfold TxPool.add
  split_ifs with hknown
  · exact h
  · split
    · exact h
    · rename_i hv
      obtain ⟨a, hfrom⟩ := validateTx_From hv
      have hnew : tx ∉ pool.all.all := fun hm => hknown (by simp [TxLookup.Get, hm])
      obtain ⟨hc, hsub⟩ := h.makeRoom tx isLocal
      split
      · rename_i heq
        rw [heq] at hc
        exact hc
      · rename_i heq
        rw [heq] at hc hsub
        exact hc.addValid hfrom (fun hm => hnew (hsub tx hm)) isLocal

theorem Consistent.addTxsLoop (isLocal : Bool) :
    ∀ (txs : List Transaction) (dirty : AccountSet) {pool : TxPool}, pool.Consistent →
      (addTxsLoop gp isLocal txs dirty pool).2.2.Consistent
  | [], _, _, h => h
  | tx :: txs, dirty, pool, h => by
    have ha := h.add gp tx isLocal
    unfold TxPool.addTxsLoop
    split <;> rename_i heq <;> rw [heq] at ha
    · exact Consistent.addTxsLoop isLocal txs _ ha
    · exact Consistent.addTxsLoop isLocal txs _ ha

theorem Consistent.reset {pool : TxPool} (h : pool.Consistent) (newHead : Option ChainHead) :
    (pool.reset gp newHead).Consistent := by
  unfold TxPool.reset
  split
  · exact h
  · exact Consistent.addTxsLoop gp false _ _ (h.of_eq rfl rfl rfl)

end Admission

/-- What every successful step of a fold in `Option` keeps holds of its
result. -/
theorem foldlM_some_inv {σ α : Type} {f : σ → α → Option σ} (P : σ → Prop)
    (hstep : ∀ s x s', f s x = some s' → P s → P s') :
    ∀ (l : List α) (s s' : σ), l.foldlM f s = some s' → P s → P s'
  | [], s, s', h, hs => by
    cases h
    exact hs
  | x :: l, s, s', h, hs => by
    rw [List.foldlM_cons, Option.bind_eq_bind, Option.bind_eq_some_iff] at h
    obtain ⟨t, ht, h⟩ := h
    exact foldlM_some_inv P hstep l t s' h (hstep s x t ht hs)

theorem Consistent.setPendingNonces {pool pool' : TxPool} (h : pool.Consistent)
    (hs : pool.setPendingNonces = some pool') : pool'.Consistent := by
  refine foldlM_some_inv Consistent (fun p e p' hp hc => ?_) _ _ _ hs h
  -- a step only sets a virtual nonce
  split at hp
  · cases hp
  · cases hp
    exact hc.of_eq rfl rfl rfl

/-! ## Every reachable pool is consistent -/

section Reachable

variable (gp : GasParams)

theorem Consistent.runReorg {pool pool' : TxPool} (h : pool.Consistent) {now : Nat}
    {reset : Option TxpoolResetRequest} {dirtyAccounts : Option AccountSet}
    (hr : pool.runReorg gp now reset dirtyAccounts = some pool') : pool'.Consistent := by
  unfold TxPool.runReorg at hr
  -- the pool that reaches the truncations
  obtain ⟨pool₁, h₁, hr⟩ : ∃ pool₁ : TxPool, pool₁.Consistent ∧
      (do let pool ← pool₁.truncatePending; let pool ← pool.truncateQueue; pool.setPendingNonces) =
        some pool' := by
    cases reset with
    | none =>
      exact ⟨_, h.promoteExecutables now _, hr⟩
    | some req =>
      exact ⟨_, ((h.reset gp req.newHead).promoteExecutables now _).demoteUnexecutables, hr⟩
  simp only [Option.bind_eq_bind, Option.bind_eq_some_iff] at hr
  obtain ⟨pool₂, h₂, pool₃, h₃, h₄⟩ := hr
  exact ((h₁.truncatePending h₂).truncateQueue h₃).setPendingNonces h₄

theorem Consistent.step {pool pool' : TxPool} (h : pool.Consistent) {op : PoolOp}
    (hs : pool.step gp op = some pool') : pool'.Consistent := by
  cases op with
  | addTxsLocked txs isLocal =>
    cases hs
    exact h.addTxsLoop gp isLocal txs _
  | removeTx hash outofbound =>
    cases hs
    exact (h.removeTx hash outofbound).1
  | promoteExecutables now accounts =>
    cases hs
    exact h.promoteExecutables now accounts
  | demoteUnexecutables =>
    cases hs
    exact h.demoteUnexecutables
  | truncatePending => exact h.truncatePending hs
  | truncateQueue => exact h.truncateQueue hs
  | reset newHead =>
    cases hs
    exact h.reset gp newHead
  | runReorg now reset dirtyAccounts => exact h.runReorg gp hs

/-- A new pool holds nothing. -/
theorem consistent_NewTxPool (config : TxPoolConfig) (head : HeadState) (gasLimit : Nat) :
    (NewTxPool config head gasLimit).Consistent := by
  refine ⟨⟨fun a tx htx => ?_, fun a => ?_, fun tx => ?_⟩, fun b l hl => ?_⟩
  · simp [NewTxPool, held] at htx
  · simp [NewTxPool, held]
  · simp [NewTxPool, held, newTxLookup]
  · simp [NewTxPool] at hl

theorem Reachable.consistent {pool : TxPool} (h : Reachable gp pool) : pool.Consistent := by
  induction h with
  | newTxPool config head gasLimit => exact consistent_NewTxPool config head gasLimit
  | step op _ hs ih => exact ih.step gp hs

/-- Every pool built by the pool's operations from a new pool keeps each of
its transactions exactly once: `all` holds the transactions of the pending
lists and the queues, each lies in the lists of its own sender, and no
account holds two transactions of one nonce. -/
theorem Reachable.txs_accounted {pool : TxPool} (h : Reachable gp pool) :
    (∀ tx, tx ∈ pool.all.all ↔ ∃ a, tx ∈ listOf pool.pending a ++ listOf pool.queue a) ∧
      (∀ a, ∀ tx ∈ listOf pool.pending a ++ listOf pool.queue a, tx.From = some a) ∧
      ∀ a, ((listOf pool.pending a ++ listOf pool.queue a).map (·.Nonce)).Nodup := by
  obtain ⟨⟨hsender, hnonces, hall⟩, -⟩ := h.consistent
  exact ⟨hall, hsender, hnonces⟩

/-- The pool left by the reorganisation of `runReorg_leaves_pending_gap`. -/
theorem reorgedPool_reachable : Reachable reorgParams reorgedPool :=
  .step (.runReorg 2 (some ⟨some reorgHead⟩) none) pendingPool_reachable rfl

/-- That pool accounts for its transactions. -/
theorem reorgedPool_txs_accounted :
    (∀ tx, tx ∈ reorgedPool.all.all ↔ ∃ a, tx ∈ listOf reorgedPool.pending a ++ listOf reorgedPool.queue a) ∧
      (∀ a, ∀ tx ∈ listOf reorgedPool.pending a ++ listOf reorgedPool.queue a, tx.From = some a) ∧
      ∀ a, ((listOf reorgedPool.pending a ++ listOf reorgedPool.queue a).map (·.Nonce)).Nodup :=
  Reachable.txs_accounted reorgParams reorgedPool_reachable

/-- The count check of `validateTxPoolInternals` holds of every pool built
from a new one: `all` holds as many transactions as the pending lists and the
queues together. -/
theorem Reachable.all_Count {pool : TxPool} (h : Reachable gp pool) :
    pool.all.Count = countTxs pool.pending + countTxs pool.queue :=
  h.consistent.Count_eq

theorem reorgedPool_all_Count :
    reorgedPool.all.Count = countTxs reorgedPool.pending + countTxs reorgedPool.queue :=
  Reachable.all_Count reorgParams reorgedPool_reachable

/-- `removeTx` on such a pool takes exactly `hash` out of `all` and out of its
sender's lists: the pending transactions it invalidates move to the queue,
and nothing else is lost or doubled. -/
theorem Reachable.removeTx_held {pool : TxPool} (h : Reachable gp pool) (hash : Transaction)
    (outofbound : Bool) :
    (∀ x, x ∈ (pool.removeTx hash outofbound).all.all ↔ x ∈ pool.all.all ∧ x ≠ hash) ∧
      ∀ a, (listOf (pool.removeTx hash outofbound).pending a ++
        listOf (pool.removeTx hash outofbound).queue a).Perm
          ((listOf pool.pending a ++ listOf pool.queue a).erase hash) := by
  have hc := h.consistent
  obtain ⟨hc', hall⟩ := hc.removeTx hash outofbound
  exact ⟨hall, hc.accounted.perm_erase hc'.accounted hall⟩

/-- Removing the pending transaction of nonce 5 from the pool with nonces 5
and 6 pending moves nonce 6 to the queue. -/
theorem pendingPool_removeTx_held :
    (∀ x, x ∈ (pendingPool.removeTx (gapTx 5 0) true).all.all ↔
        x ∈ pendingPool.all.all ∧ x ≠ gapTx 5 0) ∧
      ∀ a, (listOf (pendingPool.removeTx (gapTx 5 0) true).pending a ++
        listOf (pendingPool.removeTx (gapTx 5 0) true).queue a).Perm
          ((listOf pendingPool.pending a ++ listOf pendingPool.queue a).erase (gapTx 5 0)) :=
  Reachable.removeTx_held reorgParams pendingPool_reachable (gapTx 5 0) true

end Reachable

end TxPool

end Btp.Core
