import Mathlib
import Btp.Core.TxPool

/-!
# The transaction pool: reorganisation

`core/tx_pool.go`: `promoteExecutables` moves queued transactions that became
executable to the pending lists, `demoteUnexecutables` moves pending ones that
no longer are back, `truncatePending` and `truncateQueue` enforce the global
limits, `reset` switches the pool to a new head and reinjects the transactions
of an abandoned branch, and `runReorg` runs them in order and sets every
pending account's virtual nonce past its last pending transaction.

Where Go panics (a nil pointer, an index out of range) the model returns
`none`. The operations of the pool are collected in `PoolOp`; `Reachable` is
the set of pools a sequence of them builds from a new pool.
-/

namespace Btp.Core

/-- `types.TxDifference`: the transactions of `a` that are not in `b`. -/
def TxDifference (a b : List Transaction) : List Transaction :=
  a.filter fun tx => decide (tx ∉ b)

/-- What `reset` reads from the chain for a new head: its state and gas limit,
and the transactions of the abandoned branch (`discarded`) and of the new one
(`included`) back to their common ancestor. Both lists are empty when there is
no old head or the reorganisation is deeper than 64 blocks. -/
structure ChainHead where
  state : HeadState
  GasLimit : Nat
  discarded : List Transaction
  included : List Transaction

/-- `txpoolResetRequest`, as the chain data `reset` reads for it: `none` when
`reset` returns early (missing or unrooted old head, no state for the new
root) and leaves the pool as it was. -/
structure TxpoolResetRequest where
  newHead : Option ChainHead

/-- The number of transactions in the lists of a map. -/
def countTxs (m : GoMap Address TxList) : Nat := (m.entries.map fun e => e.2.Len).sum

namespace TxPool

/-! ## Promotion -/

/-- The loop over `readies` in `promoteExecutables`: the transactions that
`promoteTx` inserted. -/
def promoteReadies (now : Nat) (addr : Address) : TxPool → List Transaction → List Transaction × TxPool
  | pool, [] => ([], pool)
  | pool, tx :: txs =>
    let r := pool.promoteTx now addr tx
    let rest := promoteReadies now addr r.2 txs
    (if r.1 then tx :: rest.1 else rest.1, rest.2)

/-- The body of `promoteExecutables` for one account. -/
def promoteAccount (pool : TxPool) (now : Nat) (addr : Address) : List Transaction × TxPool :=
  match pool.queue.lookup addr with
  | none => ([], pool)
  | some list =>
    -- drop the transactions below the account nonce
    let forwards := list.Forward (pool.currentState.GetNonce addr)
    let pool := pool.removeAll forwards.1
    -- drop those the balance or the block gas limit no longer covers
    let drops := forwards.2.Filter (pool.currentState.GetBalance addr) pool.currentMaxGas
    let pool := pool.removeAll drops.1
    let readies := drops.2.2.Ready (pool.pendingNonces.get addr)
    let promoted := promoteReadies now addr pool readies.1
    let pool := promoted.2
    let caps :=
      if pool.locals.contains addr then ([], readies.2) else readies.2.Cap pool.config.AccountQueue
    let pool := pool.removeAll caps.1
    let pool := { pool with
      priced := pool.priced.Removed pool.all (forwards.1.length + drops.1.length + caps.1.length) }
    let list := caps.2
    (promoted.1,
      if list.Empty then { pool with queue := pool.queue.erase addr }
      else { pool with queue := pool.queue.insert addr list })

/-- `TxPool.promoteExecutables`: returns the promoted transactions. -/
def promoteExecutables (now : Nat) : TxPool → List Address → List Transaction × TxPool
  | pool, [] => ([], pool)
  | pool, addr :: accounts =>
    let r := pool.promoteAccount now addr
    let rest := promoteExecutables now r.2 accounts
    (r.1 ++ rest.1, rest.2)

/-! ## Demotion -/

/-- The body of `demoteUnexecutables` for one account and its pending list. -/
def demoteAccount (pool : TxPool) (addr : Address) (list : TxList) : TxPool :=
  let nonce := pool.currentState.GetNonce addr
  let olds := list.Forward nonce
  let pool := pool.removeAll olds.1
  let drops := olds.2.Filter (pool.currentState.GetBalance addr) pool.currentMaxGas
  let pool := pool.removeAll drops.1
  let pool := { pool with priced := pool.priced.Removed pool.all (olds.1.length + drops.1.length) }
  -- the strict list hands back what the drops made unexecutable
  let pool := pool.enqueueAll drops.2.1
  let list := drops.2.2
  -- a gap in front "should never happen": postpone every transaction
  let gapped := if list.Len > 0 ∧ (list.txs.Get nonce).isNone then list.Cap 0 else ([], list)
  let pool := pool.enqueueAll gapped.1
  let list := gapped.2
  if list.Empty then { pool with pending := pool.pending.erase addr, beats := pool.beats.erase addr }
  else { pool with pending := pool.pending.insert addr list }

/-- `TxPool.demoteUnexecutables`. Each account changes only its own entry, so
iterating over the map as it was at the start is iterating over the map. -/
def demoteUnexecutables (pool : TxPool) : TxPool :=
  pool.pending.entries.foldl (fun pool e => pool.demoteAccount e.1 e.2) pool

/-! ## Truncation -/

/-- `pool.pending[addr].Len()`; `none` for a nil list. -/
def pendingLen (pool : TxPool) (addr : Address) : Option Nat :=
  (pool.pending.lookup addr).map TxList.Len

/-- One `list.Cap(list.Len() - 1)` of `truncatePending` with the removal of the
dropped transaction. `none` where Go panics: on a nil list, and on an empty one,
where `Cap(-1)` reads `(*m.index)[-1]`. -/
def capPending (pool : TxPool) (addr : Address) : Option TxPool :=
  match pool.pending.lookup addr with
  | none => none
  | some list =>
    if list.Len = 0 then none
    else
      let caps := list.Cap (list.Len - 1)
      let pool := { pool with pending := pool.pending.insert addr caps.2 }
      let pool := caps.1.foldl (fun pool tx =>
        let pool := { pool with all := pool.all.Remove tx }
        -- update the account nonce to the dropped transaction
        if pool.pendingNonces.get addr > tx.Nonce then
          { pool with pendingNonces := pool.pendingNonces.set addr tx.Nonce }
        else pool) pool
      some { pool with priced := pool.priced.Removed pool.all caps.1.length }

/-- `capPending` for each of `addrs` in turn. -/
def capEach (pool : TxPool) : List Address → Option TxPool
  | [] => some pool
  | addr :: addrs => (pool.capPending addr).bind fun pool => pool.capEach addrs

/-- The equalisation loop of `truncatePending`: while the pool is over its
limit and the next-to-last offender holds more than `threshold` transactions,
drop one from every offender but the last. The caller runs it for two
offenders or more; the loop repeats that test, which bounds it. -/
def equalize (pool : TxPool) (offenders : List Address) (threshold pending : Nat) :
    Option (Nat × TxPool) :=
  if _h : 1 < offenders.length ∧ pending > pool.config.GlobalSlots then
    match offenders[offenders.length - 2]?.bind pool.pendingLen with
    | none => none
    | some len =>
      if len > threshold then
        match pool.capEach offenders.dropLast with
        | none => none
        | some pool => equalize pool offenders threshold (pending - (offenders.length - 1))
      else some (pending, pool)
  else some (pending, pool)
termination_by pending
decreasing_by omega

/-- The loop over the spam order in `truncatePending`: each offender popped
joins `offenders` and the earlier ones are cut down to its size. -/
def dropOffenders (pool : TxPool) :
    Nat → List Address → List Address → Option (Nat × List Address × TxPool)
  | pending, offenders, [] => some (pending, offenders, pool)
  | pending, offenders, offender :: spammers =>
    if pending > pool.config.GlobalSlots then
      let offenders := offenders ++ [offender]
      if offenders.length > 1 then
        match pool.pendingLen offender with
        | none => none
        | some threshold =>
          match pool.equalize offenders threshold pending with
          | none => none
          | some (pending, pool) => pool.dropOffenders pending offenders spammers
      else pool.dropOffenders pending offenders spammers
    else some (pending, offenders, pool)

/-- The last loop of `truncatePending`: while the pool is over its limit and
the last offender is above the per-account allowance, drop one transaction
from every offender. The caller runs it for one offender or more; the loop
repeats that test, which bounds it. -/
def reduceOffenders (pool : TxPool) (offenders : List Address) (pending : Nat) :
    Option (Nat × TxPool) :=
  if _h : 0 < offenders.length ∧ pending > pool.config.GlobalSlots then
    match offenders.getLast?.bind pool.pendingLen with
    | none => none
    | some len =>
      if len > pool.config.AccountSlots then
        match pool.capEach offenders with
        | none => none
        | some pool => reduceOffenders pool offenders (pending - offenders.length)
      else some (pending, pool)
  else some (pending, pool)
termination_by pending
decreasing_by omega

/-- `TxPool.truncatePending`. The spam order pops the longest non-local lists
above the per-account allowance first. -/
def truncatePending (pool : TxPool) : Option TxPool :=
  let pending := countTxs pool.pending
  if pending ≤ pool.config.GlobalSlots then some pool
  else
    let spammers := ((pool.pending.entries.filter fun e =>
        !pool.locals.contains e.1 && decide (e.2.Len > pool.config.AccountSlots)).insertionSort
        (fun a b => a.2.Len ≥ b.2.Len)).map (·.1)
    match pool.dropOffenders pending [] spammers with
    | none => none
    | some (pending, offenders, pool) =>
      if pending > pool.config.GlobalSlots ∧ offenders.length > 0 then
        (pool.reduceOffenders offenders pending).map (·.2)
      else some pool

/-- The loop of `truncateQueue` over the accounts from the most recent
heartbeat back: remove whole queues while they fit in `drop`, then the
highest nonces of the next one. `none` for a nil queue list. -/
def dropQueued (pool : TxPool) : Nat → List Address → Option TxPool
  | 0, _ => some pool
  | _, [] => some pool
  | drop, addr :: addrs =>
    match pool.queue.lookup addr with
    | none => none
    | some list =>
      let txs := list.Flatten
      if list.Len ≤ drop then
        (txs.foldl (fun pool tx => pool.removeTx tx true) pool).dropQueued (drop - list.Len) addrs
      else some ((txs.reverse.take drop).foldl (fun pool tx => pool.removeTx tx true) pool)

/-- `TxPool.truncateQueue`: non-local accounts in heartbeat order, an account
without a heartbeat counting as the oldest. -/
def truncateQueue (pool : TxPool) : Option TxPool :=
  let queued := countTxs pool.queue
  if queued ≤ pool.config.GlobalQueue then some pool
  else
    let addresses := ((pool.queue.keys.filter fun addr => !pool.locals.contains addr).map
      fun addr => (addr, (pool.beats.lookup addr).getD 0)).insertionSort (fun a b => a.2 ≤ b.2)
    pool.dropQueued (queued - pool.config.GlobalQueue) (addresses.reverse.map (·.1))

/-! ## Reset and reorganisation -/

section
variable (gp : GasParams)

/-- `TxPool.reset`: take the new head's state, nonces and gas limit, and
reinject the transactions of the abandoned branch as remote ones. -/
def reset (pool : TxPool) (newHead : Option ChainHead) : TxPool :=
  match newHead with
  | none => pool
  | some head =>
    let pool := { pool with
      currentState := head.state
      pendingNonces := newTxNoncer head.state
      currentMaxGas := head.GasLimit }
    (pool.addTxsLocked gp (TxDifference head.discarded head.included) false).2.2

/-- The last loop of `runReorg`: every pending account's virtual nonce is set
past its last pending transaction. `txs[len(txs)-1]` panics on an empty
list. -/
def setPendingNonces (pool : TxPool) : Option TxPool :=
  pool.pending.entries.foldlM (fun pool e =>
    match e.2.Flatten.getLast? with
    | none => none
    | some tx => some { pool with pendingNonces := pool.pendingNonces.set e.1 (tx.Nonce + 1) })
    pool

/-- `TxPool.runReorg`, at time `now`. -/
def runReorg (pool : TxPool) (now : Nat) (reset : Option TxpoolResetRequest)
    (dirtyAccounts : Option AccountSet) : Option TxPool := do
  let promoteAddrs := (dirtyAccounts.map AccountSet.flatten).getD []
  let (pool, promoteAddrs) := match reset with
    -- a reset needs promotion for every queued account
    | some req =>
      let pool := pool.reset gp req.newHead
      (pool, pool.queue.keys)
    | none => (pool, promoteAddrs)
  let pool := (pool.promoteExecutables now promoteAddrs).2
  let pool := if reset.isSome then pool.demoteUnexecutables else pool
  let pool ← pool.truncatePending
  let pool ← pool.truncateQueue
  pool.setPendingNonces

end

end TxPool

/-- `NewTxPool` on a chain whose current head has state `head` and gas limit
`gasLimit`: an empty pool with the sanitized configuration. Its initial
`reset` has no old head, so it reinjects nothing. The journal of local
transactions is not modelled. -/
def NewTxPool (config : TxPoolConfig) (head : HeadState) (gasLimit : Nat) : TxPool :=
  let config := config.sanitize
  { config
    gasPrice := config.PriceLimit
    currentState := head
    pendingNonces := newTxNoncer head
    currentMaxGas := gasLimit
    locals := config.Locals.foldl AccountSet.add newAccountSet
    pending := ∅
    queue := ∅
    beats := ∅
    all := newTxLookup
    priced := newTxPricedList }

/-- The operations on the pool, with their arguments. -/
inductive PoolOp
  | addTxsLocked (txs : List Transaction) (isLocal : Bool)
  | removeTx (hash : Transaction) (outofbound : Bool)
  | promoteExecutables (now : Nat) (accounts : List Address)
  | demoteUnexecutables
  | truncatePending
  | truncateQueue
  | reset (newHead : Option ChainHead)
  | runReorg (now : Nat) (reset : Option TxpoolResetRequest) (dirtyAccounts : Option AccountSet)

namespace TxPool

section
variable (gp : GasParams)

/-- One operation; `none` where the code panics. -/
def step (pool : TxPool) : PoolOp → Option TxPool
  | .addTxsLocked txs isLocal => some (pool.addTxsLocked gp txs isLocal).2.2
  | .removeTx hash outofbound => some (pool.removeTx hash outofbound)
  | .promoteExecutables now accounts => some (pool.promoteExecutables now accounts).2
  | .demoteUnexecutables => some pool.demoteUnexecutables
  | .truncatePending => pool.truncatePending
  | .truncateQueue => pool.truncateQueue
  | .reset newHead => some (pool.reset gp newHead)
  | .runReorg now reset dirtyAccounts => pool.runReorg gp now reset dirtyAccounts

/-- The pools that a sequence of operations builds from a new pool. -/
inductive Reachable : TxPool → Prop
  | newTxPool (config : TxPoolConfig) (head : HeadState) (gasLimit : Nat) :
      Reachable (NewTxPool config head gasLimit)
  | step {pool pool' : TxPool} (op : PoolOp) :
      Reachable pool → pool.step gp op = some pool' → Reachable pool'

end

/-- What a pool should look like after `runReorg`: the nonces of each pending
list run without a gap, and the account's virtual nonce is one past the last
of them. -/
def PendingContiguous (pool : TxPool) : Prop :=
  ∀ addr list, pool.pending.lookup addr = some list →
    (list.Flatten.map (·.Nonce)).IsChain (fun a b => b = a + 1) ∧
      ∀ tx, list.Flatten.getLast? = some tx → pool.pendingNonces.get addr = tx.Nonce + 1

end TxPool

/-! ## A reorganisation that leaves a gap

Account `1` has transactions of nonces 5 and 6 pending at a head where its
nonce is 5. The chain reorganises to a head where its nonce is 2: the
abandoned branch held its transactions of nonces 2, 3 and 4, and at the new
head only the one of nonce 2 is still affordable, so `reset` reinjects nonce 2
alone. `promoteExecutables` promotes it, as the new head's nonce is 2, and
`demoteUnexecutables` finds no gap in front of the pending list, whose nonces
are now 2, 5 and 6. -/

/-- Gas constants for the run; any would do. -/
def reorgParams : GasParams :=
  ⟨21000, 53000, 4, 68, by decide, by decide, by decide, by decide⟩

/-- A plain transfer of account `1` at the given nonce and value. -/
def gapTx (nonce : Nat) (value : Int) : Transaction :=
  ⟨some 1, nonce, 1, 21000, some 2, value, [], 100⟩

/-- The head before the reorganisation: account nonce 5. -/
def headBefore : HeadState := ⟨fun _ => 5, fun _ => 100000⟩

/-- The head after it: account nonce 2, and the balance covers the transfers of
value 0 but not those of value 1000000. -/
def headAfter : HeadState := ⟨fun _ => 2, fun _ => 100000⟩

/-- The chain data of the reorganisation. -/
def reorgHead : ChainHead :=
  ⟨headAfter, 100000, [gapTx 2 0, gapTx 3 1000000, gapTx 4 1000000], []⟩

/-- A new pool with the transactions of nonces 5 and 6 queued. -/
def queuedPool : TxPool :=
  ((NewTxPool DefaultTxPoolConfig headBefore 100000).addTxsLocked reorgParams
    [gapTx 5 0, gapTx 6 0] false).2.2

/-- The pool once `runReorg` has promoted them. -/
def pendingPool : TxPool :=
  (queuedPool.runReorg reorgParams 1 none (some (newAccountSet.add 1))).getD queuedPool

/-- The pool after the reorganisation. -/
def reorgedPool : TxPool :=
  (pendingPool.runReorg reorgParams 2 (some ⟨some reorgHead⟩) none).getD pendingPool

theorem pendingPool_reachable : TxPool.Reachable reorgParams pendingPool :=
  .step (.runReorg 1 none (some (newAccountSet.add 1)))
    (.step (.addTxsLocked [gapTx 5 0, gapTx 6 0] false)
      (.newTxPool DefaultTxPoolConfig headBefore 100000) rfl) rfl

theorem reorgedPool_nonces :
    ((reorgedPool.pending.lookup 1).map fun list => list.Flatten.map (·.Nonce)) = some [2, 5, 6] ∧
      reorgedPool.pendingNonces.get 1 = 7 := ⟨rfl, rfl⟩

theorem runReorg_leaves_pending_gap :
    TxPool.Reachable reorgParams pendingPool ∧
      pendingPool.runReorg reorgParams 2 (some ⟨some reorgHead⟩) none = some reorgedPool ∧
      ¬ reorgedPool.PendingContiguous := by
  refine ⟨pendingPool_reachable, rfl, ?_⟩
  intro h
  obtain ⟨list, hl⟩ : ∃ list, reorgedPool.pending.lookup 1 = some list := ⟨_, rfl⟩
  have hnonces : list.Flatten.map (·.Nonce) = [2, 5, 6] := by
    have h₁ := reorgedPool_nonces.1
    rw [hl] at h₁
    exact Option.some.inj h₁
  have hchain := (h 1 list hl).1
  rw [hnonces] at hchain
  exact absurd hchain (by decide)

end Btp.Core
