import Btp.Core.TxList
import Btp.Lib.WordCast

/-!
# What a `txList` guarantees

The replacement rule of `txList.Add`, and the two invariants the pool relies
on when it filters an account's list: the caps bound every stored
transaction, and a strict list keeps its nonces gapless through `Filter` and
`Remove`.
-/

namespace Btp.Core

/-! ## The nonce-sorted map -/

/-- The ready run from `next` holds the nonces `next`, `next + 1`, and so on. -/
theorem readyRun_nonces (next : Nat) (l : List Transaction) :
    (readyRun next l).1.map (·.Nonce) = List.range' next (readyRun next l).1.length := by
  induction l generalizing next with
  | nil => rfl
  | cons t ts ih =>
    unfold readyRun
    split_ifs with ht
    · simp only [List.map_cons, List.length_cons, List.range'_succ, ht, ih (next + 1)]
    · rfl

/-- In nonce order and from at most the least nonce, the run stops at a gap:
no transaction has the nonce that would continue it. -/
theorem readyRun_maximal {l : List Transaction} (hs : NonceSorted l) {next : Nat}
    (hle : ∀ x ∈ l, next ≤ x.Nonce) : next + (readyRun next l).1.length ∉ l.map (·.Nonce) := by
  induction l generalizing next with
  | nil => simp
  | cons t ts ih =>
    unfold NonceSorted at hs
    rw [List.pairwise_cons] at hs
    unfold readyRun
    split_ifs with ht
    · -- `t` continues the run; the rest lies above it
      have hrest : next + 1 + (readyRun (next + 1) ts).1.length ∉ ts.map (·.Nonce) :=
        ih hs.2 fun x hx => by
          have := hs.1 x hx
          omega
      simp only [List.length_cons, List.map_cons, List.mem_cons, not_or]
      refine ⟨by omega, ?_⟩
      rwa [show next + ((readyRun (next + 1) ts).1.length + 1) =
        next + 1 + (readyRun (next + 1) ts).1.length by omega]
    · -- the run is empty, and every nonce lies above `next`
      have htn : next < t.Nonce := lt_of_le_of_ne (hle t List.mem_cons_self) (Ne.symm ht)
      simp only [List.length_nil, Nat.add_zero, List.map_cons, List.mem_cons, not_or, List.mem_map,
        not_exists, not_and]
      refine ⟨by omega, fun x hx hxn => ?_⟩
      have := hs.1 x hx
      omega

namespace TxSortedMap

theorem Get_eq_some {m : TxSortedMap} {nonce : Nat} {t : Transaction}
    (h : m.Get nonce = some t) : t ∈ m.items ∧ t.Nonce = nonce := by
  refine ⟨List.mem_of_find?_eq_some h, ?_⟩
  simpa using List.find?_some h

theorem Get_eq_none {m : TxSortedMap} {nonce : Nat} (h : m.Get nonce = none) :
    ∀ t ∈ m.items, t.Nonce ≠ nonce := by
  intro t ht hn
  have := List.find?_eq_none.1 h t ht
  simp [hn] at this

theorem Remove_fst (m : TxSortedMap) (nonce : Nat) : (m.Remove nonce).1 = (m.Get nonce).isSome := by
  unfold Remove
  split <;> rename_i h <;> simp [h]

/-- `Remove` drops the transaction of `nonce`, if any. -/
theorem Remove_items (m : TxSortedMap) (nonce : Nat) :
    (m.Remove nonce).2.items = m.items.filter fun tx => tx.Nonce != nonce := by
  unfold Remove
  split
  · rename_i h
    refine (List.filter_eq_self.2 fun t ht => ?_).symm
    simpa using Get_eq_none h t ht
  · rfl

theorem Cap_sublist (m : TxSortedMap) (threshold : Nat) :
    (m.Cap threshold).2.items.Sublist m.items := by
  unfold Cap
  split_ifs
  · exact List.Sublist.refl _
  · exact List.take_sublist _ _

/-- `Cap` returns what lies past the first `threshold` transactions, highest
nonce first, and keeps the first `threshold`. -/
theorem Cap_eq (m : TxSortedMap) (threshold : Nat) :
    (m.Cap threshold).1 = (m.items.drop threshold).reverse ∧
      (m.Cap threshold).2.items = m.items.take threshold := by
  unfold Cap
  split_ifs with hle
  · simp [List.drop_eq_nil_of_le hle, List.take_of_length_le hle]
  · exact ⟨rfl, rfl⟩

/-- `Ready` splits the transactions into the run it returns and what it keeps. -/
theorem Ready_append (m : TxSortedMap) (start : Nat) :
    (m.Ready start).1 ++ (m.Ready start).2.items = m.items := by
  unfold Ready
  split
  · exact List.nil_append _
  · split_ifs
    · exact List.nil_append _
    · exact readyRun_append _ _

theorem Ready_sublist (m : TxSortedMap) (start : Nat) :
    (m.Ready start).2.items.Sublist m.items := by
  unfold Ready
  split
  · exact List.Sublist.refl _
  · split_ifs
    · exact List.Sublist.refl _
    · exact readyRun_snd_sublist _ _

end TxSortedMap

/-- One transaction per nonce. -/
theorem NonceSorted.eq_of_nonce_eq {l : List Transaction} (hs : NonceSorted l) {t u : Transaction}
    (ht : t ∈ l) (hu : u ∈ l) (h : t.Nonce = u.Nonce) : t = u :=
  List.inj_on_of_nodup_map (List.pairwise_map.2 (hs.imp Nat.ne_of_lt)) ht hu h

/-- Over a nonce already present, `putSorted` overwrites that transaction in
place. -/
theorem putSorted_of_mem {tx t : Transaction} {l : List Transaction} (hs : NonceSorted l)
    (ht : t ∈ l) (hn : t.Nonce = tx.Nonce) :
    putSorted tx l = l.map fun x => if x.Nonce = tx.Nonce then tx else x := by
  induction l with
  | nil => exact absurd ht List.not_mem_nil
  | cons y ys ih =>
    unfold NonceSorted at hs
    rw [List.pairwise_cons] at hs
    have hmem : t = y ∨ t ∈ ys := List.mem_cons.mp ht
    unfold putSorted
    split_ifs with hlt heq
    · -- every nonce of the list is at least `y`'s, above `tx`'s
      rcases hmem with rfl | hmem
      · omega
      · have := hs.1 t hmem
        omega
    · -- `tx` overwrites `y`, and no later nonce equals it
      have hrest : ys.map (fun x => if x.Nonce = tx.Nonce then tx else x) = ys := by
        refine (List.map_congr_left fun x hx => ?_).trans (List.map_id ys)
        have := hs.1 x hx
        rw [if_neg (by omega), id]
      rw [List.map_cons, if_pos heq.symm, hrest]
    · have hmem : t ∈ ys := by
        rcases hmem with rfl | hmem
        · exact absurd hn.symm heq
        · exact hmem
      rw [List.map_cons, if_neg (Ne.symm heq), ih hs.2 hmem]

/-! ## The replacement rule -/

namespace TxList

/-- Below `2^63` the percentage `100+int64(priceBump)` is the number
`100 + priceBump`. -/
theorem bump_toInt {priceBump : Nat} (h : 100 + priceBump < 2 ^ 63) :
    ((100 : Int64) + priceBump.toUInt64.toInt64).toInt = 100 + priceBump := by
  have hp : priceBump.toUInt64.toInt64.toInt = priceBump :=
    WordCast.toInt_toInt64_toUInt64 (by omega)
  rw [WordCast.toInt_add_of_nonneg (by decide) (by rw [hp]; omega)
    (by rw [hp, show (100 : Int64).toInt = 100 from rfl]; omega), hp]
  rfl

/-- `Add` over a nonce that is present: the decision, and what each answer
leaves. -/
theorem Add_of_Get {l : TxList} {tx old : Transaction} (priceBump : Nat)
    (hold : l.txs.Get tx.Nonce = some old) :
    l.Add tx priceBump =
      if old.GasPrice ≥ tx.GasPrice ∨
          (old.GasPrice * ((100 : Int64) + priceBump.toUInt64.toInt64).toInt / 100 : Int) >
            tx.GasPrice
      then (false, none, l) else (true, some old, l.put tx) := by
  rw [Add, hold]

/-- The threshold `old * (100 + priceBump) / 100` of `big.Int`s, for a bump
that does not wrap, is the quotient of the numbers. -/
theorem threshold_le_iff {oldPrice price priceBump : Nat} (h : 100 + priceBump < 2 ^ 63) :
    (oldPrice * ((100 : Int64) + priceBump.toUInt64.toInt64).toInt / 100 : Int) ≤ price ↔
      oldPrice * (100 + priceBump) / 100 ≤ price := by
  rw [bump_toInt h]
  norm_cast

/-- A replacement is accepted if and only if it pays more than the old
transaction and at least `priceBump` percent more; a rejection leaves the list
as it was, and an acceptance returns the old transaction and puts the new one
in its place. -/
theorem Add_replacement_rule (l : TxList) (tx old : Transaction) (priceBump : Nat)
    (hold : l.txs.Get tx.Nonce = some old) (hbump : 100 + priceBump < 2 ^ 63) :
    let r : Bool × Option Transaction × TxList := l.Add tx priceBump
    (r.1 = true ↔
        old.GasPrice < tx.GasPrice ∧ old.GasPrice * (100 + priceBump) / 100 ≤ tx.GasPrice) ∧
      (r.1 = false → r = (false, none, l)) ∧
      (r.1 = true → r.2.1 = some old ∧
        r.2.2.Flatten = l.Flatten.map fun t => if t.Nonce = tx.Nonce then tx else t) := by
  intro r
  obtain ⟨hmem, hn⟩ := TxSortedMap.Get_eq_some hold
  have hr : r = _ := Add_of_Get priceBump hold
  split_ifs at hr with hrej
  · -- rejected: either not more, or below the bumped threshold
    rw [hr]
    refine ⟨?_, fun _ => rfl, fun h => Bool.noConfusion h⟩
    simp only [Bool.false_eq_true, false_iff, not_and, not_le]
    intro hlt
    rcases hrej with hge | hgt
    · omega
    · rw [gt_iff_lt, ← not_le, threshold_le_iff hbump] at hgt
      omega
  · -- accepted: the old transaction is returned and overwritten
    rw [hr]
    simp only [not_or, ge_iff_le, gt_iff_lt, not_le, not_lt] at hrej
    refine ⟨iff_of_true rfl ⟨hrej.1, (threshold_le_iff hbump).1 hrej.2⟩,
      fun h => Bool.noConfusion h, fun _ => ⟨rfl, ?_⟩⟩
    exact putSorted_of_mem l.txs.sorted hmem hn

/-- Account 1's transfer of nonce `n` at gas price `price`. -/
def bumpTx (n price : Nat) : Transaction := ⟨some 1, n, price, 21000, some 2, 0, [], 0⟩

/-- A list holding account 1's nonces 0 and 1 at price 100. -/
def twoTxList : TxList := ((newTxList true).put (bumpTx 0 100)).put (bumpTx 1 100)

/-- Under a 10% bump, replacing nonce 1 of `twoTxList` at price 109 leaves the
list as it was, and at 110 takes the old transaction's place. -/
theorem Add_replacement_rule_at_ten_percent :
    twoTxList.txs.Get 1 = some (bumpTx 1 100) ∧
      twoTxList.Add (bumpTx 1 109) 10 = (false, none, twoTxList) ∧
      (twoTxList.Add (bumpTx 1 110) 10).2.1 = some (bumpTx 1 100) := by
  have hget : twoTxList.txs.Get 1 = some (bumpTx 1 100) := by decide
  have h109 := Add_replacement_rule twoTxList (bumpTx 1 109) (bumpTx 1 100) 10 hget (by decide)
  have h110 := Add_replacement_rule twoTxList (bumpTx 1 110) (bumpTx 1 100) 10 hget (by decide)
  -- 109 is below the bumped threshold 100 * 110 / 100, and 110 meets it
  have hrej : (twoTxList.Add (bumpTx 1 109) 10).1 = false :=
    Bool.eq_false_iff.2 fun h => absurd (h109.1.1 h).2 (by decide)
  exact ⟨hget, h109.2.1 hrej, (h110.2.2 (h110.1.2 ⟨by decide, by decide⟩)).1⟩

/-- `sanitize` lets any `PriceBump` of at least one through, and
`100+int64(priceBump)` wraps above `2^63 - 101`: with a bump of `2^63` the
percentage is negative, and a replacement paying one wei more than the old
transaction is accepted, far below the bumped price. -/
theorem Add_accepts_below_bump_when_percentage_wraps :
    let old : Transaction := ⟨none, 0, 1, 0, none, 0, [], 0⟩
    let tx : Transaction := ⟨none, 0, 2, 0, none, 0, [], 0⟩
    let l : TxList := (newTxList true).put old
    l.txs.Get tx.Nonce = some old ∧ (l.Add tx (2 ^ 63)).1 = true ∧
      ¬old.GasPrice * (100 + 2 ^ 63) / 100 ≤ tx.GasPrice := by
  decide

end TxList

/-! ## The caps -/

/-- The calls that change a `txList`, with their arguments. -/
inductive TxListOp where
  | Add (tx : Transaction) (priceBump : Nat)
  | Forward (threshold : Nat)
  | Filter (costLimit : Int) (gasLimit : Nat)
  | Cap (threshold : Nat)
  | Remove (tx : Transaction)
  | Ready (start : Nat)

namespace TxList

/-- The list a call leaves. -/
def apply (l : TxList) : TxListOp → TxList
  | .Add tx priceBump => (l.Add tx priceBump).2.2
  | .Forward threshold => (l.Forward threshold).2
  | .Filter costLimit gasLimit => (l.Filter costLimit gasLimit).2.2
  | .Cap threshold => (l.Cap threshold).2
  | .Remove tx => (l.Remove tx).2.2
  | .Ready start => (l.Ready start).2

/-- The list a sequence of calls leaves. -/
def run (l : TxList) (ops : List TxListOp) : TxList := ops.foldl apply l

/-- The closure `txList.Filter` hands to the map: the cost or the gas is above
its limit. -/
def overLimits (costLimit : Int) (gasLimit : Nat) (tx : Transaction) : Bool :=
  decide (tx.Cost > costLimit) || decide (tx.Gas > gasLimit)

/-- Every stored transaction costs at most `costcap` and needs at most
`gascap` gas. -/
def WithinCaps (l : TxList) : Prop := ∀ tx ∈ l.Flatten, tx.Cost ≤ l.costcap ∧ tx.Gas ≤ l.gascap

/-- The three outcomes of `Filter`: the caps are within the limits and nothing
happens; or the over-limit transactions are dropped, the caps lowered to the
limits and, in a strict list with drops, every nonce above the lowest dropped
one invalidated. -/
theorem Filter_cases (l : TxList) (costLimit : Int) (gasLimit : Nat) :
    let r := l.Filter costLimit gasLimit
    let drops := l.Flatten.filter (overLimits costLimit gasLimit)
    let rest := l.Flatten.filter fun tx => !overLimits costLimit gasLimit tx
    let lowest := (drops.map (·.Nonce)).foldl min (2 ^ 64 - 1)
    r = ([], [], l) ∧ l.costcap ≤ costLimit ∧ l.gascap ≤ gasLimit ∨
      r.1 = drops ∧ r.2.2.costcap = costLimit ∧ r.2.2.gascap = gasLimit ∧
        (l.strict = true ∧ drops ≠ [] ∧ r.2.1 = rest.filter (fun tx => decide (tx.Nonce > lowest)) ∧
            r.2.2.Flatten = rest.filter (fun tx => !decide (tx.Nonce > lowest)) ∨
          (l.strict = false ∨ drops = []) ∧ r.2.1 = [] ∧ r.2.2.Flatten = rest) := by
  intro r drops rest lowest
  simp only [r, TxList.Filter]
  split_ifs with hw hs
  · exact .inl ⟨rfl, hw⟩
  · simp only [Bool.and_eq_true, Bool.not_eq_true', List.isEmpty_eq_false_iff] at hs
    exact .inr ⟨rfl, rfl, rfl, .inl ⟨hs.1, hs.2, rfl, rfl⟩⟩
  · simp only [Bool.and_eq_true, Bool.not_eq_true', List.isEmpty_eq_false_iff, not_and,
      not_not] at hs
    refine .inr ⟨rfl, rfl, rfl, .inr ⟨?_, rfl, rfl⟩⟩
    by_cases hst : l.strict = true
    · exact .inr (hs hst)
    · exact .inl (by simpa using hst)

theorem WithinCaps.of_sublist {l l' : TxList} (h : l.WithinCaps) (hc : l'.costcap = l.costcap)
    (hg : l'.gascap = l.gascap) (hs : l'.Flatten.Sublist l.Flatten) : l'.WithinCaps := by
  intro tx htx
  rw [hc, hg]
  exact h tx (hs.subset htx)

/-- Storing a transaction raises the caps to cover it. -/
theorem WithinCaps.put {l : TxList} (h : l.WithinCaps) (tx : Transaction) :
    (l.put tx).WithinCaps := by
  have hc : l.costcap ≤ (l.put tx).costcap ∧ tx.Cost ≤ (l.put tx).costcap := by
    simp only [TxList.put]
    split_ifs <;> omega
  have hg : l.gascap ≤ (l.put tx).gascap ∧ tx.Gas ≤ (l.put tx).gascap := by
    simp only [TxList.put]
    split_ifs <;> omega
  intro x hx
  rcases mem_putSorted hx with rfl | hx
  · exact ⟨hc.2, hg.2⟩
  · exact ⟨(h x hx).1.trans hc.1, (h x hx).2.trans hg.1⟩

/-- After a `Filter` the caps are the limits, which every kept transaction is
within. -/
theorem WithinCaps.Filter {l : TxList} (h : l.WithinCaps) (costLimit : Int) (gasLimit : Nat) :
    (l.Filter costLimit gasLimit).2.2.WithinCaps := by
  have hkept : ∀ tx ∈ l.Flatten.filter (fun tx => !overLimits costLimit gasLimit tx),
      tx.Cost ≤ costLimit ∧ tx.Gas ≤ gasLimit := by
    intro tx htx
    simp only [overLimits, List.mem_filter, Bool.not_or, Bool.and_eq_true, Bool.not_eq_true',
      decide_eq_false_iff_not, not_lt] at htx
    exact htx.2
  rcases Filter_cases l costLimit gasLimit with ⟨hr, -⟩ | ⟨-, hc, hg, ⟨-, -, -, hf⟩ | ⟨-, -, hf⟩⟩
  · rw [hr]
    exact h
  · intro tx htx
    rw [hf] at htx
    rw [hc, hg]
    exact hkept tx (List.mem_of_mem_filter htx)
  · intro tx htx
    rw [hf] at htx
    rw [hc, hg]
    exact hkept tx htx

theorem WithinCaps.Remove {l : TxList} (h : l.WithinCaps) (tx : Transaction) :
    (l.Remove tx).2.2.WithinCaps := by
  have hsub : ((l.txs.Remove tx.Nonce).2.items).Sublist l.txs.items := by
    rw [TxSortedMap.Remove_items]
    exact List.filter_sublist
  simp only [TxList.Remove]
  split_ifs
  · exact h
  · exact h.of_sublist rfl rfl (List.filter_sublist.trans hsub)
  · exact h.of_sublist rfl rfl hsub

/-- One call keeps every stored transaction within the caps. -/
theorem WithinCaps.apply {l : TxList} (h : l.WithinCaps) : ∀ op, (l.apply op).WithinCaps
  | .Add tx priceBump => by
    simp only [TxList.apply, TxList.Add]
    split
    · split_ifs
      · exact h
      · exact h.put tx
    · exact h.put tx
  | .Forward _ => h.of_sublist rfl rfl (List.dropWhile_sublist _)
  | .Filter costLimit gasLimit => h.Filter costLimit gasLimit
  | .Cap threshold => h.of_sublist rfl rfl (l.txs.Cap_sublist threshold)
  | .Remove tx => h.Remove tx
  | .Ready start => h.of_sublist rfl rfl (l.txs.Ready_sublist start)

theorem WithinCaps.run {l : TxList} (h : l.WithinCaps) (ops : List TxListOp) :
    (l.run ops).WithinCaps := by
  induction ops generalizing l with
  | nil => exact h
  | cons op ops ih => exact ih (h.apply op)

theorem withinCaps_newTxList (strict : Bool) : (newTxList strict).WithinCaps :=
  fun _ h => absurd h List.not_mem_nil

/-- Within the caps, the short cut of `Filter` hides nothing: it returns
exactly the transactions over a limit. -/
theorem WithinCaps.Filter_fst {l : TxList} (h : l.WithinCaps) (costLimit : Int) (gasLimit : Nat) :
    (l.Filter costLimit gasLimit).1 = l.Flatten.filter (overLimits costLimit gasLimit) := by
  rcases Filter_cases l costLimit gasLimit with ⟨hr, hc, hg⟩ | ⟨h1, -⟩
  · rw [hr]
    refine (List.filter_eq_nil_iff.2 fun tx htx => ?_).symm
    have := h tx htx
    simp only [overLimits, Bool.or_eq_true, decide_eq_true_eq, not_or, not_lt]
    omega
  · exact h1

end TxList

/-! ## Strict lists stay gapless -/

/-- Nonces without gaps: each transaction's nonce is one above the one
before. -/
def Contiguous (txs : List Transaction) : Prop := txs.IsChain fun a b => b.Nonce = a.Nonce + 1

instance : DecidablePred Contiguous := fun txs =>
  inferInstanceAs (Decidable (txs.IsChain fun a b => b.Nonce = a.Nonce + 1))

/-- In nonce order, the transactions below a nonce are a prefix. -/
theorem NonceSorted.filter_lt {l : List Transaction} (h : NonceSorted l) (k : Nat) :
    l.filter (fun tx => decide (tx.Nonce < k)) = l.takeWhile fun tx => decide (tx.Nonce < k) := by
  induction l with
  | nil => rfl
  | cons t ts ih =>
    unfold NonceSorted at h
    rw [List.pairwise_cons] at h
    by_cases ht : t.Nonce < k
    · rw [List.filter_cons_of_pos (by simpa using ht), List.takeWhile_cons_of_pos (by simpa using ht),
        ih h.2]
    · rw [List.filter_cons_of_neg (by simpa using ht), List.takeWhile_cons_of_neg (by simpa using ht)]
      refine List.filter_eq_nil_iff.2 fun x hx => ?_
      have := h.1 x hx
      simp only [decide_eq_true_eq]
      omega

theorem Contiguous.filter_lt {l : List Transaction} (hs : NonceSorted l) (hc : Contiguous l)
    (k : Nat) : Contiguous (l.filter fun tx => decide (tx.Nonce < k)) := by
  rw [hs.filter_lt k]
  exact List.IsChain.prefix hc (List.takeWhile_prefix _)

/-- `lowest` starts at `math.MaxUint64`; over nonces that fit a `uint64` it
ends at the least of them. -/
theorem foldl_min_eq_of_min? {xs : List Nat} {m : Nat} (h : xs.min? = some m)
    (hfit : ∀ x ∈ xs, x < 2 ^ 64) : xs.foldl min (2 ^ 64 - 1) = m := by
  rw [List.foldl_min, h, Option.getD_some]
  have := hfit m (List.min?_mem h)
  omega

/-- What is neither selected by `p` nor above the least selected nonce `m` is
what lies below `m`. -/
theorem NonceSorted.filter_below_least {l : List Transaction} (hs : NonceSorted l)
    {p : Transaction → Bool} {m : Nat}
    (hmin : m ∈ (l.filter p).map (·.Nonce) ∧ ∀ b ∈ (l.filter p).map (·.Nonce), m ≤ b) :
    (l.filter fun tx => !p tx).filter (fun tx => !decide (tx.Nonce > m)) =
      l.filter fun tx => decide (tx.Nonce < m) := by
  obtain ⟨d, hd, hdm⟩ := List.mem_map.1 hmin.1
  rw [List.filter_filter]
  refine List.filter_congr fun t ht => ?_
  rcases Nat.lt_trichotomy t.Nonce m with hlt | heq | hgt
  · -- below the least selected nonce, `t` is not selected
    have hp : p t = false := by
      by_contra hp
      have := hmin.2 t.Nonce (List.mem_map_of_mem (List.mem_filter.2 ⟨ht, by simpa using hp⟩))
      omega
    simp [hp, hlt, Nat.not_lt_of_gt hlt]
  · -- at it, `t` is the selected transaction of that nonce
    have htd : t = d := hs.eq_of_nonce_eq ht (List.mem_of_mem_filter hd) (heq.trans hdm.symm)
    have hp : p t = true := by
      rw [htd]
      exact (List.mem_filter.1 hd).2
    simp [hp, heq]
  · simp [hgt, Nat.not_lt_of_gt hgt]

namespace TxList

/-- `Filter` on a strict gapless list: what is kept is gapless and below the
lowest dropped nonce, and what is dropped or invalidated is at or above it. -/
theorem Filter_strict {l : TxList} (hstrict : l.strict = true) (hc : Contiguous l.Flatten)
    (hfit : ∀ tx ∈ l.Flatten, tx.Nonce < 2 ^ 64) (costLimit : Int) (gasLimit : Nat) :
    let r := l.Filter costLimit gasLimit
    Contiguous r.2.2.Flatten ∧ ∀ m, (r.1.map (·.Nonce)).min? = some m →
      (∀ k ∈ r.2.2.Flatten, k.Nonce < m) ∧ ∀ tx ∈ r.1 ++ r.2.1, m ≤ tx.Nonce := by
  intro r
  have hsorted : NonceSorted l.Flatten := l.txs.sorted
  rcases Filter_cases l costLimit gasLimit with ⟨hr, -⟩ | ⟨h1, -, -, ⟨-, hne, h2, hf⟩ | ⟨hns, h2, hf⟩⟩
  · -- the short cut removes nothing
    simp only [r, hr, List.map_nil, List.min?_nil, reduceCtorEq, false_implies, implies_true,
      and_true]
    exact hc
  · -- something was dropped: `lowest` is the least dropped nonce
    set drops := l.Flatten.filter (overLimits costLimit gasLimit) with hdrops
    obtain ⟨m, hm⟩ : ∃ m, (drops.map (·.Nonce)).min? = some m :=
      Option.isSome_iff_exists.1 (List.isSome_min?_of_ne_nil (by simpa using hne))
    have hmin := List.min?_eq_some_iff.1 hm
    have hlow : (drops.map (·.Nonce)).foldl min (2 ^ 64 - 1) = m :=
      foldl_min_eq_of_min? hm fun x hx => by
        obtain ⟨d, hd, rfl⟩ := List.mem_map.1 hx
        exact hfit d (List.mem_of_mem_filter hd)
    have hkept : r.2.2.Flatten = l.Flatten.filter fun tx => decide (tx.Nonce < m) := by
      rw [hf, hlow, hsorted.filter_below_least hmin]
    refine ⟨by rw [hkept]; exact hc.filter_lt hsorted m, fun m' hm' => ?_⟩
    rw [h1, hm, Option.some.injEq] at hm'
    subst hm'
    refine ⟨fun k hk => ?_, fun tx htx => ?_⟩
    · rw [hkept] at hk
      simpa using (List.mem_filter.1 hk).2
    · rw [h1, h2, List.mem_append] at htx
      rcases htx with hd | hi
      · exact hmin.2 _ (List.mem_map_of_mem hd)
      · have := (List.mem_filter.1 hi).2
        rw [hlow] at this
        simpa using Nat.le_of_lt (of_decide_eq_true this)
  · -- nothing was dropped
    have hdrops : l.Flatten.filter (overLimits costLimit gasLimit) = [] :=
      hns.resolve_left (by simp [hstrict])
    have hrest : l.Flatten.filter (fun tx => !overLimits costLimit gasLimit tx) = l.Flatten := by
      refine List.filter_eq_self.2 fun tx htx => ?_
      have := List.filter_eq_nil_iff.1 hdrops tx htx
      simpa using this
    simp only [r, h1, h2, hf, hdrops, hrest, List.map_nil, List.min?_nil, reduceCtorEq,
      false_implies, implies_true, and_true]
    exact hc

/-- `Remove` on a strict gapless list: what is kept is gapless and below the
removed nonce, and what is invalidated is above it. -/
theorem Remove_strict {l : TxList} (hstrict : l.strict = true) (hc : Contiguous l.Flatten)
    (tx : Transaction) :
    let r := l.Remove tx
    Contiguous r.2.2.Flatten ∧ (∀ t ∈ r.2.1, tx.Nonce < t.Nonce) ∧
      (r.1 = true → ∀ k ∈ r.2.2.Flatten, k.Nonce < tx.Nonce) := by
  intro r
  have hsorted : NonceSorted l.Flatten := l.txs.sorted
  have hitems := TxSortedMap.Remove_items l.txs tx.Nonce
  simp only [r, TxList.Remove, hstrict]
  split_ifs with hnf
  · exact ⟨hc, by simp, by simp⟩
  · -- the map drops `tx`'s nonce and the strict list every nonce above it
    have hkept : ((l.txs.Remove tx.Nonce).2.Filter fun t => decide (t.Nonce > tx.Nonce)).2.items =
        l.Flatten.filter fun t => decide (t.Nonce < tx.Nonce) := by
      change List.filter (fun t => !decide (t.Nonce > tx.Nonce)) (l.txs.Remove tx.Nonce).2.items = _
      rw [hitems, List.filter_filter]
      refine List.filter_congr fun t _ => ?_
      rcases Nat.lt_trichotomy t.Nonce tx.Nonce with h | h | h
      · simp [h, Nat.ne_of_lt h, Nat.not_lt_of_gt h]
      · simp [h]
      · simp [h, Nat.not_lt_of_gt h]
    refine ⟨?_, fun t ht => ?_, fun _ k hk => ?_⟩
    · change Contiguous ((l.txs.Remove tx.Nonce).2.Filter _).2.items
      rw [hkept]
      exact hc.filter_lt hsorted tx.Nonce
    · simpa using (List.mem_filter.1 ht).2
    · change k ∈ ((l.txs.Remove tx.Nonce).2.Filter _).2.items at hk
      rw [hkept] at hk
      simpa using (List.mem_filter.1 hk).2

/-- Through any sequence of calls every stored transaction stays within the
caps, so `Filter` returns exactly the transactions over a limit, its short cut
included; and a strict gapless list stays gapless through `Filter` and
`Remove`, losing only nonces at or above the lowest one removed. -/
theorem caps_bound_and_strict_lists_stay_gapless :
    (∀ (strict : Bool) (ops : List TxListOp),
      let l : TxList := (newTxList strict).run ops
      (∀ tx ∈ l.Flatten, tx.Cost ≤ l.costcap ∧ tx.Gas ≤ l.gascap) ∧
        ∀ costLimit gasLimit, (l.Filter costLimit gasLimit).1 =
          l.Flatten.filter (overLimits costLimit gasLimit)) ∧
    ∀ l : TxList, l.strict = true → Contiguous l.Flatten → (∀ tx ∈ l.Flatten, tx.Nonce < 2 ^ 64) →
      (∀ costLimit gasLimit,
        let r : List Transaction × List Transaction × TxList := l.Filter costLimit gasLimit
        Contiguous r.2.2.Flatten ∧ ∀ m, (r.1.map (·.Nonce)).min? = some m →
          (∀ k ∈ r.2.2.Flatten, k.Nonce < m) ∧ ∀ tx ∈ r.1 ++ r.2.1, m ≤ tx.Nonce) ∧
      ∀ tx,
        let r : Bool × List Transaction × TxList := l.Remove tx
        Contiguous r.2.2.Flatten ∧ (∀ t ∈ r.2.1, tx.Nonce < t.Nonce) ∧
          (r.1 = true → ∀ k ∈ r.2.2.Flatten, k.Nonce < tx.Nonce) := by
  refine ⟨fun strict ops => ?_, fun l hstrict hc hfit =>
    ⟨Filter_strict hstrict hc hfit, Remove_strict hstrict hc⟩⟩
  have h := (withinCaps_newTxList strict).run ops
  exact ⟨h, h.Filter_fst⟩

theorem caps_bound_and_strict_lists_stay_gapless_on_two_nonces :
    let t0 : Transaction := ⟨none, 0, 1, 21000, none, 0, [], 0⟩
    let t1 : Transaction := ⟨none, 1, 1, 21000, none, 0, [], 0⟩
    let l : TxList := ((newTxList true).put t0).put t1
    Contiguous (l.Remove t1).2.2.Flatten ∧ (l.Remove t1).2.2.Flatten = [t0] :=
  ⟨(caps_bound_and_strict_lists_stay_gapless.2 (((newTxList true).put
      ⟨none, 0, 1, 21000, none, 0, [], 0⟩).put ⟨none, 1, 1, 21000, none, 0, [], 0⟩) rfl
      (by decide) (by decide)).2 ⟨none, 1, 1, 21000, none, 0, [], 0⟩ |>.1, by decide⟩

end TxList

end Btp.Core
