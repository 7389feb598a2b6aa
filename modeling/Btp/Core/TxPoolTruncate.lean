import Mathlib
import Btp.Core.TxPoolReorg
import Btp.Core.TxListSpec
import Btp.Lib.MapSum

/-!
# Truncating the pending transactions fairly

`truncatePending` drops pending transactions while the pool holds more than
`GlobalSlots` of them. It cuts only the non-local accounts above their
allowance `AccountSlots`, in the spam order of their lengths: each account it
takes joins the offenders, and the earlier offenders are cut down to its
length; once all are taken, the offenders are cut together down to the
allowance. Every cut drops the highest nonce of one account and decrements
the counter `pending` the loops test.

The loops cut a list only while it is longer than the next offender, which is
above the allowance, or, in the last loop, longer than the allowance; and all
offenders have the same length whenever the counter is still over the limit.
That is the invariant of `dropOffenders_spec`, over the relation `Trimmed`
between the pool the loops start from and the pool they reach: each account
keeps a prefix of its list in nonce order, and the count is the start's less
what was cut.
-/

namespace Btp.Core

namespace TxPool

/-! ## Counting and cutting -/

/-- The length of an account's pending list, `0` for a missing one. -/
def lenOf (pool : TxPool) (addr : Address) : Nat := (pool.pendingLen addr).getD 0

theorem countTxs_eq_weightSum (m : GoMap Address TxList) : countTxs m = MapSum.weightSum TxList.Len m :=
  rfl

/-- Writing `l'` over `l` changes the count by their lengths. -/
theorem countTxs_insert {m : GoMap Address TxList} {a : Address} {l : TxList} (h : m.lookup a = some l)
    (l' : TxList) : countTxs (m.insert a l') + l.Len = countTxs m + l'.Len := by
  rw [countTxs_eq_weightSum, countTxs_eq_weightSum, MapSum.weightSum_insert,
    MapSum.weightSum_eq_lookup_add_erase _ m a, h]
  simp only [Option.map_some, Option.getD_some]
  omega

theorem lenOf_of_lookup {pool : TxPool} {a : Address} {l : TxList} (h : pool.pending.lookup a = some l) :
    pool.lenOf a = l.Len := by
  simp [lenOf, pendingLen, h]

theorem pendingLen_of_lookup {pool : TxPool} {a : Address} {l : TxList}
    (h : pool.pending.lookup a = some l) : pool.pendingLen a = some (pool.lenOf a) := by
  simp [lenOf, pendingLen, h]

/-- Two sorted maps with the same transactions are equal. -/
theorem TxSortedMap.ext_items {m m' : TxSortedMap} (h : m.items = m'.items) : m = m' := by
  cases m
  cases m'
  simp only [TxSortedMap.mk.injEq]
  exact h

/-- `Cap n` keeps the lowest `min n len` nonces. -/
theorem Len_Cap (l : TxList) (n : Nat) : (l.Cap n).2.Len = min l.Len n := by
  simp only [TxList.Cap, TxList.Len, TxSortedMap.Len, (TxSortedMap.Cap_eq l.txs n).2,
    List.length_take]
  omega

/-- Capping twice is capping at the lower bound. -/
theorem Cap_Cap (l : TxList) {m n : Nat} (h : m ≤ n) : ((l.Cap n).2.Cap m).2 = (l.Cap m).2 := by
  simp only [TxList.Cap, TxList.mk.injEq, and_true, true_and]
  apply TxSortedMap.ext_items
  rw [(TxSortedMap.Cap_eq _ m).2, (TxSortedMap.Cap_eq _ n).2, (TxSortedMap.Cap_eq _ m).2,
    List.take_take, min_eq_left h]

/-- Capping at the length keeps the list. -/
theorem Cap_Len (l : TxList) : (l.Cap l.Len).2 = l := by
  have : (l.Cap l.Len).2.txs = l.txs := by
    apply TxSortedMap.ext_items
    simp [TxList.Cap, (TxSortedMap.Cap_eq _ _).2, TxList.Len, TxSortedMap.Len]
  simp only [TxList.Cap] at this ⊢
  rw [this]

/-- Capping a list of length `n + 1` at `n` drops one transaction. -/
theorem length_Cap_fst {l : TxList} {n : Nat} (h : l.Len = n + 1) : (l.Cap n).1.length = 1 := by
  simp only [TxList.Cap, (TxSortedMap.Cap_eq _ _).1, List.length_reverse, List.length_drop]
  simp only [TxList.Len, TxSortedMap.Len] at h
  omega

/-! ## One cut -/

/-- A fold that only drops transactions from `all` and lowers virtual nonces
leaves the lists, the configuration and the locals. -/
theorem foldl_keeps (f : TxPool → Transaction → TxPool)
    (hf : ∀ p tx, (f p tx).pending = p.pending ∧ (f p tx).config = p.config ∧ (f p tx).locals = p.locals)
    (txs : List Transaction) (p : TxPool) :
    (txs.foldl f p).pending = p.pending ∧ (txs.foldl f p).config = p.config ∧
      (txs.foldl f p).locals = p.locals := by
  induction txs generalizing p with
  | nil => exact ⟨rfl, rfl, rfl⟩
  | cons tx txs ih =>
    obtain ⟨h₁, h₂, h₃⟩ := hf p tx
    obtain ⟨h₁', h₂', h₃'⟩ := ih (f p tx)
    exact ⟨h₁'.trans h₁, h₂'.trans h₂, h₃'.trans h₃⟩

variable {P P' : TxPool} {a : Address}

/-- `capPending` on an account with a list that is not empty: the list
without its highest nonce. -/
theorem capPending_eq {list : TxList} (h : P.pending.lookup a = some list) (hlen : 0 < list.Len) :
    ∃ P', P.capPending a = some P' ∧
      P'.pending = P.pending.insert a (list.Cap (list.Len - 1)).2 ∧
      P'.config = P.config ∧ P'.locals = P.locals := by
  unfold capPending
  rw [h]
  dsimp only
  rw [if_neg (by omega)]
  refine ⟨_, rfl, ?_⟩
  exact foldl_keeps _ (fun p tx => by split <;> exact ⟨rfl, rfl, rfl⟩) _ _

/-- A cut that does not panic drops one transaction. -/
theorem capPending_count (h : P.capPending a = some P') : countTxs P'.pending + 1 = countTxs P.pending := by
  cases hl : P.pending.lookup a with
  | none => simp [capPending, hl] at h
  | some list =>
    have hlen : 0 < list.Len := by
      by_contra h0
      simp [capPending, hl, show list.Len = 0 by omega] at h
    obtain ⟨P₁, h₁, hpend, -, -⟩ := capPending_eq hl hlen
    rw [h₁, Option.some.injEq] at h
    subst h
    have := countTxs_insert hl (list.Cap (list.Len - 1)).2
    rw [Len_Cap, ← hpend] at this
    omega

/-- Cuts that do not panic drop one transaction each. -/
theorem capEach_count {os : List Address} (h : P.capEach os = some P') :
    countTxs P'.pending + os.length = countTxs P.pending := by
  induction os generalizing P with
  | nil =>
    simp only [capEach, Option.some.injEq] at h
    subst h
    rfl
  | cons o os ih =>
    obtain ⟨P₁, h₁, h⟩ := Option.bind_eq_some_iff.mp h
    have := capPending_count h₁
    have := ih h
    simp only [List.length_cons]
    omega

/-! ## What the loops keep -/

/-- Lowering a function by one at one point of a list without duplicates
raises the sum of its gaps below `c` by one. -/
theorem sum_sub_lower {spam : List Address} (hnd : spam.Nodup) (ha : a ∈ spam)
    {c x x' : Address → Nat} (hx : x' a + 1 = x a) (hle : x a ≤ c a) (hother : ∀ b ≠ a, x' b = x b) :
    (spam.map fun b => c b - x' b).sum = (spam.map fun b => c b - x b).sum + 1 := by
  induction spam with
  | nil => cases ha
  | cons b t ih =>
    obtain ⟨hbt, hnd⟩ := List.nodup_cons.mp hnd
    simp only [List.map_cons, List.sum_cons]
    by_cases hb : b = a
    · -- the point is the head, so the rest of the list is untouched
      subst hb
      have hrest : (t.map fun b => c b - x' b) = t.map fun b => c b - x b :=
        List.map_congr_left fun b' hb' => by rw [hother b' (fun h => hbt (h ▸ hb'))]
      rw [hrest]
      omega
    · rw [hother b hb, ih hnd ((List.mem_cons.mp ha).resolve_left (Ne.symm hb))]
      omega

/-- What the loops of `truncatePending` keep of the pool `P₀` they start
from, cutting only the accounts of `spam`: the configuration and the locals,
the list of every other account, and for each account of `spam` its list
capped at its present length; the count is that of `P₀` less what was cut. -/
structure Trimmed (P₀ : TxPool) (spam : List Address) (P : TxPool) : Prop where
  config : P.config = P₀.config
  locals : P.locals = P₀.locals
  other : ∀ a, a ∉ spam → P.pending.lookup a = P₀.pending.lookup a
  capped : ∀ a ∈ spam, ∃ l, P₀.pending.lookup a = some l ∧ P.lenOf a ≤ l.Len ∧
    P.pending.lookup a = some (l.Cap (P.lenOf a)).2
  count : countTxs P.pending + (spam.map fun a => P₀.lenOf a - P.lenOf a).sum = countTxs P₀.pending

variable {P₀ : TxPool} {spam : List Address}

theorem Trimmed.refl (hspam : ∀ a ∈ spam, (P₀.pending.lookup a).isSome) : Trimmed P₀ spam P₀ where
  config := rfl
  locals := rfl
  other _ _ := rfl
  capped a ha := by
    obtain ⟨l, hl⟩ := Option.isSome_iff_exists.mp (hspam a ha)
    exact ⟨l, hl, by rw [lenOf_of_lookup hl], by rw [lenOf_of_lookup hl, Cap_Len, hl]⟩
  count := by simp

/-- A cut of an account of `spam` keeps the relation. -/
theorem Trimmed.cap (ht : Trimmed P₀ spam P) (hnd : spam.Nodup) (ha : a ∈ spam)
    (hpos : 0 < P.lenOf a) :
    ∃ P', P.capPending a = some P' ∧ Trimmed P₀ spam P' ∧ P'.lenOf a + 1 = P.lenOf a ∧
      (∀ b ≠ a, P'.lenOf b = P.lenOf b) ∧ countTxs P'.pending + 1 = countTxs P.pending := by
  obtain ⟨l, hl₀, hle, hl⟩ := ht.capped a ha
  have hlen : (l.Cap (P.lenOf a)).2.Len = P.lenOf a := by rw [Len_Cap]; omega
  obtain ⟨P', hcap, hpend, hconfig, hlocals⟩ := capPending_eq hl (by omega)
  rw [hlen, Cap_Cap l (Nat.sub_le _ 1)] at hpend
  -- the account is one shorter, every other one as it was
  have hlook : P'.pending.lookup a = some (l.Cap (P.lenOf a - 1)).2 := by
    rw [hpend, AList.lookup_insert]
  have hla : P'.lenOf a + 1 = P.lenOf a := by
    rw [lenOf_of_lookup hlook, Len_Cap]
    omega
  have hlb : ∀ b ≠ a, P'.pending.lookup b = P.pending.lookup b := fun b hb => by
    rw [hpend, AList.lookup_insert_ne hb]
  have hother : ∀ b ≠ a, P'.lenOf b = P.lenOf b := fun b hb => by
    simp only [lenOf, pendingLen, hlb b hb]
  have hcount := capPending_count hcap
  refine ⟨P', hcap, ⟨hconfig.trans ht.config, hlocals.trans ht.locals, ?_, ?_, ?_⟩, hla, hother,
    hcount⟩
  · intro b hb
    rw [hlb b (fun h => hb (h ▸ ha)), ht.other b hb]
  · intro b hb
    by_cases hba : b = a
    · subst hba
      exact ⟨l, hl₀, by omega, by rw [hlook, show P.lenOf b - 1 = P'.lenOf b by omega]⟩
    · obtain ⟨l', hl', hle', hlk⟩ := ht.capped b hb
      exact ⟨l', hl', by rw [hother b hba]; exact hle', by rw [hlb b hba, hother b hba, hlk]⟩
  · have hsum := sum_sub_lower hnd ha (c := P₀.lenOf) hla (by rw [lenOf_of_lookup hl₀]; exact hle)
      hother
    have := ht.count
    omega

/-- Cutting each of accounts of `spam` without duplicates keeps the
relation. -/
theorem Trimmed.capEach (ht : Trimmed P₀ spam P) (hnd : spam.Nodup) {os : List Address}
    (hos : os.Nodup) (hsub : ∀ o ∈ os, o ∈ spam) (hpos : ∀ o ∈ os, 0 < P.lenOf o) :
    ∃ P', P.capEach os = some P' ∧ Trimmed P₀ spam P' ∧ (∀ o ∈ os, P'.lenOf o + 1 = P.lenOf o) ∧
      (∀ b ∉ os, P'.lenOf b = P.lenOf b) := by
  induction os generalizing P with
  | nil => exact ⟨P, rfl, ht, by simp, fun _ _ => rfl⟩
  | cons o os ih =>
    obtain ⟨hoos, hos⟩ := List.nodup_cons.mp hos
    obtain ⟨P₁, h₁, ht₁, hlo, hlb, -⟩ := ht.cap hnd (hsub o (by simp)) (hpos o (by simp))
    -- the rest are other accounts, which the first cut left as they were
    obtain ⟨P', h', ht', hdown, hsame⟩ := ih ht₁ hos (fun o' ho' => hsub o' (by simp [ho']))
      (fun o' ho' => by rw [hlb o' (fun h => hoos (h ▸ ho'))]; exact hpos o' (by simp [ho']))
    refine ⟨P', by simp [capEach, h₁, h'], ht', ?_, ?_⟩
    · intro o' ho'
      rcases List.mem_cons.mp ho' with rfl | ho'
      · rw [hsame o' hoos, hlo]
      · rw [hdown o' ho', hlb o' (fun h => hoos (h ▸ ho'))]
    · intro b hb
      rw [hsame b (fun h => hb (by simp [h])), hlb b (fun h => hb (by simp [h]))]

/-! ## The counter -/

/-- `equalize` entered with the count of its pool tests the count at every
round, and returns the count of the pool it returns: a round cuts every
offender but the last once and lowers the counter by as many. -/
theorem equalize_count {os : List Address} {thr p : Nat} (n : Nat) :
    ∀ {P P' : TxPool}, countTxs P.pending = n → P.equalize os thr n = some (p, P') →
      p = countTxs P'.pending := by
  induction n using Nat.strong_induction_on with
  | _ n ih =>
    intro P P' hn h
    rw [equalize] at h
    split at h
    · rename_i hc
      split at h
      · cases h
      · split at h
        · split at h
          · cases h
          · -- a round: the counter follows the cuts
            rename_i P₁ h₁
            have hc₁ := capEach_count h₁
            rw [List.length_dropLast] at hc₁
            exact ih _ (by omega) (by omega) h
        · cases h
          exact hn.symm
    · cases h
      exact hn.symm

/-- `reduceOffenders` entered with the count of its pool tests the count at
every round, and returns the count of the pool it returns. -/
theorem reduceOffenders_count {os : List Address} {p : Nat} (n : Nat) :
    ∀ {P P' : TxPool}, countTxs P.pending = n → P.reduceOffenders os n = some (p, P') →
      p = countTxs P'.pending := by
  induction n using Nat.strong_induction_on with
  | _ n ih =>
    intro P P' hn h
    rw [reduceOffenders] at h
    split at h
    · rename_i hc
      split at h
      · cases h
      · split at h
        · split at h
          · cases h
          · rename_i P₁ h₁
            have hc₁ := capEach_count h₁
            exact ih _ (by omega) (by omega) h
        · cases h
          exact hn.symm
    · cases h
      exact hn.symm

/-- `dropOffenders` entered with the count of its pool hands the count to
every `equalize` and to every later test, and returns the count of the pool
it returns. -/
theorem dropOffenders_count {ss : List Address} :
    ∀ {P P' : TxPool} {os os' : List Address} {p : Nat},
      P.dropOffenders (countTxs P.pending) os ss = some (p, os', P') → p = countTxs P'.pending := by
  induction ss with
  | nil =>
    intro P P' os os' p h
    simp only [dropOffenders, Option.some.injEq, Prod.mk.injEq] at h
    obtain ⟨rfl, -, rfl⟩ := h
    rfl
  | cons s ss ih =>
    intro P P' os os' p h
    unfold dropOffenders at h
    split at h
    · dsimp only at h
      split at h
      · split at h
        · cases h
        · split at h
          · cases h
          · rename_i p₁ P₁ h₁
            rw [equalize_count _ rfl h₁] at h
            exact ih h
      · exact ih h
    · simp only [Option.some.injEq, Prod.mk.injEq] at h
      obtain ⟨rfl, -, rfl⟩ := h
      rfl

/-! ## The loops -/

theorem Trimmed.pendingLen (ht : Trimmed P₀ spam P) (ha : a ∈ spam) : P.pendingLen a = some (P.lenOf a) := by
  obtain ⟨l, -, -, hl⟩ := ht.capped a ha
  exact pendingLen_of_lookup hl

/-- The offender `equalize` reads the length of: one before the last. -/
theorem getElem?_concat_sub_two {init : List Address} (last : Address) (hinit : init ≠ []) :
    ∃ o ∈ init, (init ++ [last])[(init ++ [last]).length - 2]? = some o := by
  have hlen : 0 < init.length := List.length_pos_iff.mpr hinit
  refine ⟨init[init.length - 1], List.getElem_mem _, ?_⟩
  rw [List.length_append, List.length_singleton, show init.length + 1 - 2 = init.length - 1 by omega,
    List.getElem?_append_left (by omega), List.getElem?_eq_getElem (by omega)]

/-- `equalize` cuts the offenders before the last, all of length `L`, down to
the length `thr ≤ L` of the last: it returns them all at one length between
the two, at `thr` if the count is still over the limit, and every other
account as it was. -/
theorem equalize_spec (hnd : spam.Nodup) (init : List Address) (last : Address) {thr L : Nat}
    (hos : (init ++ [last]).Nodup) (hsub : ∀ o ∈ init, o ∈ spam) (hinit : init ≠ [])
    (ht : Trimmed P₀ spam P) (hL : ∀ o ∈ init, P.lenOf o = L) (hthr : thr ≤ L) :
    ∃ p P' L', P.equalize (init ++ [last]) thr (countTxs P.pending) = some (p, P') ∧
      p = countTxs P'.pending ∧ Trimmed P₀ spam P' ∧ thr ≤ L' ∧ L' ≤ L ∧
      (∀ o ∈ init, P'.lenOf o = L') ∧ (∀ b ∉ init, P'.lenOf b = P.lenOf b) ∧
      (P₀.config.GlobalSlots < p → L' = thr) := by
  obtain ⟨o, ho, hget⟩ := getElem?_concat_sub_two last hinit
  have hinit_nd : init.Nodup := (List.nodup_append.mp hos).1
  generalize hn : L - thr = n
  induction n generalizing P L with
  | zero =>
    -- the offenders are down to the threshold: no round runs
    refine ⟨countTxs P.pending, P, L, ?_, rfl, ht, hthr, le_rfl, hL, fun _ _ => rfl, fun _ => by omega⟩
    rw [equalize]
    split
    · rw [hget, Option.bind_some, ht.pendingLen (hsub o ho), hL o ho]
      dsimp only
      rw [if_neg (by omega)]
    · rfl
  | succ n ih =>
    rw [equalize]
    split
    · rename_i hc
      rw [hget, Option.bind_some, ht.pendingLen (hsub o ho), hL o ho]
      dsimp only
      rw [if_pos (by omega), List.dropLast_concat]
      -- a round: every offender but the last is cut once
      obtain ⟨P₁, h₁, ht₁, hdown, hsame⟩ := ht.capEach hnd hinit_nd hsub
        (fun o' ho' => by rw [hL o' ho']; omega)
      have hc₁ := capEach_count h₁
      rw [h₁]
      dsimp only
      rw [show countTxs P.pending - ((init ++ [last]).length - 1) = countTxs P₁.pending by
        simp only [List.length_append, List.length_singleton]; omega]
      obtain ⟨p, P', L', h', hp, ht', hlo, hhi, hinit', hrest, hlim⟩ := ih ht₁ (L := L - 1)
        (fun o' ho' => by have := hdown o' ho'; rw [hL o' ho'] at this; omega) (by omega) (by omega)
      exact ⟨p, P', L', h', hp, ht', hlo, by omega, hinit', fun b hb => by rw [hrest b hb, hsame b hb],
        hlim⟩
    · -- the limit is met: no round runs
      rename_i hc
      refine ⟨_, P, L, rfl, rfl, ht, hthr, le_rfl, hL, fun _ _ => rfl, fun hgt => ?_⟩
      refine absurd ⟨?_, ?_⟩ hc
      · simp only [List.length_append, List.length_singleton]
        have := List.length_pos_iff.mpr hinit
        omega
      · rw [ht.config]
        exact hgt

/-- `reduceOffenders` cuts all offenders, of one length `L` at least the
allowance, together: it returns them all at one length between the allowance
and `L`, at the allowance if the count is still over the limit, and every
other account as it was. -/
theorem reduceOffenders_spec (hnd : spam.Nodup) {os : List Address} {L : Nat}
    (hos : os.Nodup) (hsub : ∀ o ∈ os, o ∈ spam) (hne : os ≠ [])
    (ht : Trimmed P₀ spam P) (hL : ∀ o ∈ os, P.lenOf o = L) (hslots : P₀.config.AccountSlots ≤ L) :
    ∃ p P' L', P.reduceOffenders os (countTxs P.pending) = some (p, P') ∧
      p = countTxs P'.pending ∧ Trimmed P₀ spam P' ∧ P₀.config.AccountSlots ≤ L' ∧ L' ≤ L ∧
      (∀ o ∈ os, P'.lenOf o = L') ∧ (∀ b ∉ os, P'.lenOf b = P.lenOf b) ∧
      (P₀.config.GlobalSlots < p → L' = P₀.config.AccountSlots) := by
  have hlast : os.getLast?.bind P.pendingLen = some L := by
    rw [List.getLast?_eq_some_getLast hne, Option.bind_some, ht.pendingLen (hsub _ (List.getLast_mem hne)),
      hL _ (List.getLast_mem hne)]
  generalize hn : L - P₀.config.AccountSlots = n
  induction n generalizing P L with
  | zero =>
    -- the offenders are down to the allowance: no round runs
    refine ⟨countTxs P.pending, P, L, ?_, rfl, ht, hslots, le_rfl, hL, fun _ _ => rfl,
      fun _ => by omega⟩
    rw [reduceOffenders]
    split
    · rw [hlast]
      dsimp only
      rw [if_neg (by rw [ht.config]; omega)]
    · rfl
  | succ n ih =>
    rw [reduceOffenders]
    split
    · rw [hlast]
      dsimp only
      rw [if_pos (by rw [ht.config]; omega)]
      -- a round: every offender is cut once
      obtain ⟨P₁, h₁, ht₁, hdown, hsame⟩ := ht.capEach hnd hos hsub
        (fun o' ho' => by rw [hL o' ho']; omega)
      have hc₁ := capEach_count h₁
      rw [h₁]
      dsimp only
      rw [show countTxs P.pending - os.length = countTxs P₁.pending by omega]
      have hL₁ : ∀ o ∈ os, P₁.lenOf o = L - 1 := fun o' ho' => by
        have := hdown o' ho'
        rw [hL o' ho'] at this
        omega
      have hlast₁ : os.getLast?.bind P₁.pendingLen = some (L - 1) := by
        rw [List.getLast?_eq_some_getLast hne, Option.bind_some,
          ht₁.pendingLen (hsub _ (List.getLast_mem hne)), hL₁ _ (List.getLast_mem hne)]
      obtain ⟨p, P', L', h', hp, ht', hlo, hhi, hos', hrest, hlim⟩ :=
        ih ht₁ hL₁ (by omega) hlast₁ (by omega)
      exact ⟨p, P', L', h', hp, ht', hlo, by omega, hos', fun b hb => by rw [hrest b hb, hsame b hb],
        hlim⟩
    · -- the limit is met: no round runs
      rename_i hc
      refine ⟨_, P, L, rfl, rfl, ht, hslots, le_rfl, hL, fun _ _ => rfl, fun hgt => ?_⟩
      refine absurd ⟨List.length_pos_iff.mpr hne, ?_⟩ hc
      rw [ht.config]
      exact hgt

/-- The spam order over `P₀`: non-local accounts without duplicates, each
with a list above the allowance, the longest first. -/
structure SpamOrder (P₀ : TxPool) (order : List Address) : Prop where
  nodup : order.Nodup
  lookup : ∀ a ∈ order, (P₀.pending.lookup a).isSome
  nonlocal : ∀ a ∈ order, P₀.locals.contains a = false
  above : ∀ a ∈ order, P₀.config.AccountSlots < P₀.lenOf a
  sorted : order.Pairwise fun a b => P₀.lenOf b ≤ P₀.lenOf a

/-- `dropOffenders` takes the accounts of the spam order in turn and cuts
the earlier ones down to each. Whenever the count is over the limit, the
offenders taken have one length, at least that of every account still to
take. It returns with a prefix of the order taken, the rest as it was, every
offender above the allowance, and, if the count is still over the limit, the
whole order taken at one length. -/
theorem dropOffenders_spec {order : List Address} (hord : SpamOrder P₀ order) :
    ∀ {ss : List Address} (os : List Address) {P : TxPool}, os ++ ss = order → Trimmed P₀ order P →
      (∀ a ∈ ss, P.lenOf a = P₀.lenOf a) → (∀ o ∈ os, P₀.config.AccountSlots < P.lenOf o) →
      (os ≠ [] → P₀.config.GlobalSlots < countTxs P.pending →
        ∃ L, (∀ o ∈ os, P.lenOf o = L) ∧ ∀ a ∈ ss, P₀.lenOf a ≤ L) →
      ∃ p os' ss' P', P.dropOffenders (countTxs P.pending) os ss = some (p, os', P') ∧
        p = countTxs P'.pending ∧ Trimmed P₀ order P' ∧ os' ++ ss' = order ∧
        (∀ a ∈ ss', P'.lenOf a = P₀.lenOf a) ∧ (∀ o ∈ os', P₀.config.AccountSlots < P'.lenOf o) ∧
        (P₀.config.GlobalSlots < p → ss' = [] ∧ (os' ≠ [] → ∃ L, ∀ o ∈ os', P'.lenOf o = L)) := by
  intro ss
  induction ss with
  | nil =>
    intro os P hsplit ht hss hos heq
    exact ⟨_, os, [], P, rfl, rfl, ht, hsplit, by simp, hos,
      fun hgt => ⟨rfl, fun hne => (heq hne hgt).imp fun _ hL => hL.1⟩⟩
  | cons s ss ih =>
    intro os P hsplit ht hss hos heq
    -- what the order says of `s`: not taken yet, and at least as long as the rest
    have hnd : (os ++ s :: ss).Nodup := hsplit ▸ hord.nodup
    have hs_os : s ∉ os := fun h => (List.nodup_append.mp hnd).2.2 s h s (by simp) rfl
    have hss_os : ∀ a ∈ ss, a ∉ os := fun a ha h => (List.nodup_append.mp hnd).2.2 a h a (by simp [ha]) rfl
    have hsorted : ∀ a ∈ ss, P₀.lenOf a ≤ P₀.lenOf s := by
      have := (List.pairwise_append.mp (hsplit ▸ hord.sorted)).2.1
      exact fun a ha => List.rel_of_pairwise_cons this ha
    have hmem : ∀ a ∈ os ++ s :: ss, a ∈ order := fun a ha => hsplit ▸ ha
    have hsP : P.lenOf s = P₀.lenOf s := hss s (by simp)
    have hsabove : P₀.config.AccountSlots < P₀.lenOf s := hord.above s (hmem s (by simp))
    have hss' : ∀ a ∈ ss, P.lenOf a = P₀.lenOf a := fun a ha => hss a (by simp [ha])
    unfold dropOffenders
    by_cases hgt : countTxs P.pending > P.config.GlobalSlots
    · rw [if_pos hgt]
      dsimp only
      by_cases hos0 : os = []
      · -- the first offender: nothing to cut yet
        subst hos0
        rw [if_neg (by simp)]
        exact ih [s] (by simpa using hsplit) ht hss' (by simpa [hsP] using hsabove)
          fun _ _ => ⟨P₀.lenOf s, by simpa using hsP, hsorted⟩
      · rw [if_pos (by simp only [List.length_append, List.length_singleton]; have :=
          List.length_pos_iff.mpr hos0; omega), ht.pendingLen (hmem s (by simp))]
        dsimp only
        obtain ⟨L, hL, hLss⟩ := heq hos0 (by rw [← ht.config]; exact hgt)
        have hthr : P.lenOf s ≤ L := hsP ▸ hLss s (by simp)
        -- the offenders before `s` are cut down towards its length
        obtain ⟨p₁, P₁, L', h₁, hp₁, ht₁, hlo, -, hos', hrest, hlim⟩ :=
          equalize_spec hord.nodup os s
            (hnd.sublist (by simp)) (fun o ho => hmem o (by simp [ho])) hos0 ht hL hthr
        rw [h₁]
        dsimp only
        rw [hp₁]
        refine ih (os ++ [s]) (by simpa using hsplit) ht₁
          (fun a ha => by rw [hrest a (hss_os a ha), hss' a ha]) ?_ ?_
        · intro o ho
          rcases List.mem_append.mp ho with ho | ho
          · rw [hos' o ho]
            omega
          · rw [List.mem_singleton.mp ho, hrest s hs_os, hsP]
            exact hsabove
        · intro _ hgt₁
          have hL' := hlim (hp₁ ▸ hgt₁)
          refine ⟨P.lenOf s, fun o ho => ?_, fun a ha => hsP ▸ hsorted a ha⟩
          rcases List.mem_append.mp ho with ho | ho
          · rw [hos' o ho, hL']
          · rw [List.mem_singleton.mp ho, hrest s hs_os]
    · -- the limit is met: the loop ends
      rw [if_neg hgt]
      refine ⟨_, os, s :: ss, P, rfl, rfl, ht, hsplit, hss, hos, fun hgt' => ?_⟩
      rw [ht.config] at hgt
      exact absurd hgt' hgt

/-! ## The spam order -/

/-- The accounts `truncatePending` may cut, in the order it takes them. -/
def spammers (pool : TxPool) : List Address :=
  ((pool.pending.entries.filter fun e =>
      !pool.locals.contains e.1 && decide (e.2.Len > pool.config.AccountSlots)).insertionSort
    (fun a b => a.2.Len ≥ b.2.Len)).map (·.1)

/-- The transactions the non-local accounts hold above their allowance. -/
def spamExcess (pool : TxPool) : Nat :=
  ((pool.pending.entries.filter fun e =>
      !pool.locals.contains e.1 && decide (e.2.Len > pool.config.AccountSlots)).map
    fun e => e.2.Len - pool.config.AccountSlots).sum

/-- The entries of the spam order: the non-local accounts above their
allowance. -/
theorem mem_spamEntries {pool : TxPool} {e : Sigma fun _ : Address => TxList} :
    e ∈ (pool.pending.entries.filter fun e =>
        !pool.locals.contains e.1 && decide (e.2.Len > pool.config.AccountSlots)).insertionSort
      (fun a b => a.2.Len ≥ b.2.Len) ↔
      pool.pending.lookup e.1 = some e.2 ∧ pool.locals.contains e.1 = false ∧
        pool.config.AccountSlots < e.2.Len := by
  rw [(List.perm_insertionSort _ _).mem_iff, List.mem_filter, ← Option.mem_def, AList.mem_lookup_iff]
  simp

theorem spamOrder_spammers (pool : TxPool) : SpamOrder pool pool.spammers := by
  have hentry : ∀ e ∈ (pool.pending.entries.filter fun e =>
        !pool.locals.contains e.1 && decide (e.2.Len > pool.config.AccountSlots)).insertionSort
      (fun a b => a.2.Len ≥ b.2.Len), pool.lenOf e.1 = e.2.Len ∧
        pool.pending.lookup e.1 = some e.2 ∧ pool.locals.contains e.1 = false ∧
        pool.config.AccountSlots < e.2.Len := fun e he => by
    obtain ⟨hl, hloc, habove⟩ := mem_spamEntries.mp he
    exact ⟨lenOf_of_lookup hl, hl, hloc, habove⟩
  have hmem : ∀ a ∈ pool.spammers, ∃ e : Sigma fun _ : Address => TxList, (pool.lenOf a = e.2.Len ∧
      pool.pending.lookup a = some e.2 ∧ pool.locals.contains a = false ∧
      pool.config.AccountSlots < e.2.Len) := fun a ha => by
    obtain ⟨e, he, rfl⟩ := List.mem_map.mp ha
    exact ⟨e, hentry e he⟩
  have : Std.Total (fun a b : Sigma (fun _ : Address => TxList) => a.2.Len ≥ b.2.Len) :=
    ⟨fun a b => le_total b.2.Len a.2.Len⟩
  have : IsTrans _ (fun a b : Sigma (fun _ : Address => TxList) => a.2.Len ≥ b.2.Len) :=
    ⟨fun _ _ _ h₁ h₂ => le_trans h₂ h₁⟩
  refine ⟨?_, fun a ha => ?_, fun a ha => ?_, fun a ha => ?_, ?_⟩
  · -- the keys of a map have no duplicates, in any order
    have hkeys : ((pool.pending.entries.filter fun e =>
        !pool.locals.contains e.1 && decide (e.2.Len > pool.config.AccountSlots)).map (·.1)).Nodup :=
      pool.pending.nodupKeys.sublist List.filter_sublist
    exact ((List.perm_insertionSort _ _).map _).nodup_iff.mpr hkeys
  · obtain ⟨e, -, hl, -⟩ := hmem a ha
    simp [hl]
  · obtain ⟨e, -, -, hloc, -⟩ := hmem a ha
    exact hloc
  · obtain ⟨e, hlen, -, -, habove⟩ := hmem a ha
    rw [hlen]
    exact habove
  · -- the insertion sort orders the entries by length, and the length is the account's
    refine List.pairwise_map.mpr ((List.pairwise_insertionSort _ _).imp_of_mem ?_)
    intro e₁ e₂ he₁ he₂ h
    rw [(hentry e₁ he₁).1, (hentry e₂ he₂).1]
    exact h

/-- The excess summed over the spam order. -/
theorem sum_spammers (pool : TxPool) :
    (pool.spammers.map fun a => pool.lenOf a - pool.config.AccountSlots).sum = pool.spamExcess := by
  rw [spammers, List.map_map, spamExcess]
  rw [List.map_congr_left fun e he => by
    rw [Function.comp_apply, lenOf_of_lookup (mem_spamEntries.mp he).1]]
  exact ((List.perm_insertionSort _ _).map _).sum_eq

/-! ## `truncatePending` -/

/-- A pool the loops reach with every account of the spam order at or above
the allowance: an account outside the order keeps its list, and every account
keeps the lowest nonces of its list, at least the lesser of its length and
the allowance. -/
theorem Trimmed.accounts {order : List Address} (hord : SpamOrder P₀ order) (ht : Trimmed P₀ order P)
    (hslots : ∀ a ∈ order, P₀.config.AccountSlots ≤ P.lenOf a) :
    (∀ addr, P₀.locals.contains addr = true ∨ P₀.lenOf addr ≤ P₀.config.AccountSlots →
      P.pending.lookup addr = P₀.pending.lookup addr) ∧
    (∀ addr list, P₀.pending.lookup addr = some list →
      ∃ n, min list.Len P₀.config.AccountSlots ≤ n ∧ n ≤ list.Len ∧
        P.pending.lookup addr = some (list.Cap n).2) := by
  refine ⟨fun addr h => ht.other addr fun ha => ?_, fun addr list hl => ?_⟩
  · rcases h with h | h
    · rw [hord.nonlocal addr ha] at h
      cases h
    · have := hord.above addr ha
      omega
  · by_cases ha : addr ∈ order
    · obtain ⟨l, hl₀, hle, hlk⟩ := ht.capped addr ha
      obtain rfl := Option.some.inj (hl.symm.trans hl₀)
      exact ⟨P.lenOf addr, (min_le_right _ _).trans (hslots addr ha), hle, hlk⟩
    · exact ⟨list.Len, min_le_left _ _, le_rfl, by rw [ht.other addr ha, hl, Cap_Len]⟩

/-- A pool the loops reach with the spam order cut to the allowance holds the
count less the excess. -/
theorem Trimmed.count_of_slots (ht : Trimmed P₀ P₀.spammers P)
    (hslots : ∀ a ∈ P₀.spammers, P.lenOf a = P₀.config.AccountSlots) :
    countTxs P.pending + P₀.spamExcess = countTxs P₀.pending := by
  have hsum : (P₀.spammers.map fun a => P₀.lenOf a - P.lenOf a) =
      P₀.spammers.map fun a => P₀.lenOf a - P₀.config.AccountSlots :=
    List.map_congr_left fun a ha => by rw [hslots a ha]
  rw [← sum_spammers, ← hsum]
  exact ht.count

/-- The counter of each loop: entered with the count of its pool, a loop
returns the count of the pool it returns. -/
theorem loops_count (P P' : TxPool) (os os' ss : List Address) (thr p : Nat) :
    (P.equalize os thr (countTxs P.pending) = some (p, P') → p = countTxs P'.pending) ∧
      (P.reduceOffenders os (countTxs P.pending) = some (p, P') → p = countTxs P'.pending) ∧
      (P.dropOffenders (countTxs P.pending) os ss = some (p, os', P') → p = countTxs P'.pending) :=
  ⟨equalize_count _ rfl, reduceOffenders_count _ rfl, dropOffenders_count⟩

/-- **`truncatePending` is fair and meets the limit.** It returns without a
panic; an account that is local or within its allowance keeps its list;
every account keeps the lowest nonces of its list, at least the lesser of
its length and the allowance; a pool over the limit whose non-local accounts
hold enough transactions above their allowance ends within the limit; and
the counter each loop tests is the count of the pool it tests. -/
theorem truncatePending_fair (pool : TxPool) :
    ∃ pool', pool.truncatePending = some pool' ∧
      (∀ addr, pool.locals.contains addr = true ∨ pool.lenOf addr ≤ pool.config.AccountSlots →
        pool'.pending.lookup addr = pool.pending.lookup addr) ∧
      (∀ addr list, pool.pending.lookup addr = some list →
        ∃ n, min list.Len pool.config.AccountSlots ≤ n ∧ n ≤ list.Len ∧
          pool'.pending.lookup addr = some (list.Cap n).2) ∧
      (pool.config.GlobalSlots < countTxs pool.pending →
        countTxs pool.pending - pool.config.GlobalSlots ≤ pool.spamExcess →
        countTxs pool'.pending ≤ pool.config.GlobalSlots) ∧
      ∀ (P P' : TxPool) (os os' ss : List Address) (thr p : Nat),
        (P.equalize os thr (countTxs P.pending) = some (p, P') → p = countTxs P'.pending) ∧
        (P.reduceOffenders os (countTxs P.pending) = some (p, P') → p = countTxs P'.pending) ∧
        (P.dropOffenders (countTxs P.pending) os ss = some (p, os', P') → p = countTxs P'.pending) := by
  have hord := spamOrder_spammers pool
  have ht₀ : Trimmed pool pool.spammers pool := Trimmed.refl hord.lookup
  unfold truncatePending
  by_cases hle : countTxs pool.pending ≤ pool.config.GlobalSlots
  · -- within the limit: nothing is dropped
    rw [if_pos hle]
    obtain ⟨h₁, h₂⟩ := ht₀.accounts hord fun a ha => (hord.above a ha).le
    exact ⟨pool, rfl, h₁, h₂, fun hgt => absurd hgt (not_lt.mpr hle), loops_count⟩
  rw [if_neg hle]
  dsimp only
  obtain ⟨p, os', ss', P', hdrop, hp, ht, hsplit, hss, hos, hlim⟩ :=
    dropOffenders_spec hord [] (show [] ++ pool.spammers = pool.spammers from rfl) ht₀
      (fun _ _ => rfl) (by simp)
      (by simp)
  simp only [spammers] at hdrop
  rw [hdrop]
  dsimp only
  by_cases hred : p > P'.config.GlobalSlots ∧ os'.length > 0
  · -- the offenders are all of the spam order, at one length: cut them to the allowance
    rw [if_pos hred]
    rw [ht.config] at hred
    obtain ⟨hss0, hone⟩ := hlim hred.1
    have hne : os' ≠ [] := List.length_pos_iff.mp hred.2
    obtain ⟨L, hL⟩ := hone hne
    have hord' : os' = pool.spammers := by simpa [hss0] using hsplit
    have hLslots : pool.config.AccountSlots ≤ L := by
      have := hos _ (List.getLast_mem hne)
      rw [hL _ (List.getLast_mem hne)] at this
      omega
    subst hord'
    obtain ⟨p'', P'', L'', hred', -, ht'', hlo, -, hos'', -, hlim''⟩ :=
      reduceOffenders_spec hord.nodup hord.nodup (fun o ho => ho) hne ht hL hLslots
    rw [hp, hred']
    have hslots : ∀ a ∈ pool.spammers, pool.config.AccountSlots ≤ P''.lenOf a := fun a ha => by
      rw [hos'' a ha]
      exact hlo
    obtain ⟨h₁, h₂⟩ := ht''.accounts hord hslots
    refine ⟨P'', rfl, h₁, h₂, fun _ hexcess => ?_, loops_count⟩
    -- over the limit at the end, every offender would be at the allowance
    by_contra hover
    have hp'' := reduceOffenders_count _ rfl hred'
    have hcut := ht''.count_of_slots fun a ha => by rw [hos'' a ha, hlim'' (by omega)]
    omega
  · rw [if_neg hred]
    have hslots : ∀ a ∈ pool.spammers, pool.config.AccountSlots ≤ P'.lenOf a := fun a ha => by
      rw [← hsplit] at ha
      rcases List.mem_append.mp ha with ha | ha
      · exact (hos a ha).le
      · rw [hss a ha]
        exact (hord.above a (hsplit ▸ List.mem_append_right _ ha)).le
    obtain ⟨h₁, h₂⟩ := ht.accounts hord hslots
    refine ⟨P', rfl, h₁, h₂, fun hgt hexcess => ?_, loops_count⟩
    -- over the limit at the end, the spam order would be empty
    by_contra hover
    rw [ht.config] at hred
    have hempty : os' = [] := by
      by_contra hne
      exact hred ⟨by omega, List.length_pos_iff.mpr hne⟩
    obtain ⟨hss0, -⟩ := hlim (by omega)
    have hnil : pool.spammers = [] := by rw [← hsplit, hempty, hss0, List.nil_append]
    have := sum_spammers pool
    rw [hnil] at this
    simp only [List.map_nil, List.sum_nil] at this
    omega

end TxPool

end Btp.Core
