import Mathlib
import Btp.Core.TxList
import Btp.Core.StateTransition

/-!
# The transaction pool: admission and removal

`core/tx_pool.go` and `core/tx_noncer.go`: the pool's state, the validation
of incoming transactions, `add` with its replacement and eviction rules,
`enqueueTx`, `promoteTx` and `removeTx`.

Go's pointer aliasing is made explicit: a `txList` taken from `pool.pending`
or `pool.queue` and mutated in place is written back to its map. Every
operation returns its result together with the new pool, also on its error
paths, since several of them (eviction, the creation of an empty queue list)
change the pool before they fail. Logging, metrics, the journal and event
notifications do not change the pool and are left out.
-/

namespace Btp.Core

/-- The fields of `TxPoolConfig` that the pool reads. -/
structure TxPoolConfig where
  Locals : List Address
  PriceLimit : Nat
  PriceBump : Nat
  AccountSlots : Nat
  GlobalSlots : Nat
  AccountQueue : Nat
  GlobalQueue : Nat

/-- `DefaultTxPoolConfig`. -/
def DefaultTxPoolConfig : TxPoolConfig :=
  { Locals := [], PriceLimit := 1, PriceBump := 10, AccountSlots := 16, GlobalSlots := 4096,
    AccountQueue := 64, GlobalQueue := 1024 }

/-- `TxPoolConfig.sanitize`: every limit below one is replaced by its
default. -/
def TxPoolConfig.sanitize (config : TxPoolConfig) : TxPoolConfig :=
  { config with
    PriceLimit := if config.PriceLimit < 1 then DefaultTxPoolConfig.PriceLimit else config.PriceLimit
    PriceBump := if config.PriceBump < 1 then DefaultTxPoolConfig.PriceBump else config.PriceBump
    AccountSlots :=
      if config.AccountSlots < 1 then DefaultTxPoolConfig.AccountSlots else config.AccountSlots
    GlobalSlots :=
      if config.GlobalSlots < 1 then DefaultTxPoolConfig.GlobalSlots else config.GlobalSlots
    AccountQueue :=
      if config.AccountQueue < 1 then DefaultTxPoolConfig.AccountQueue else config.AccountQueue
    GlobalQueue :=
      if config.GlobalQueue < 1 then DefaultTxPoolConfig.GlobalQueue else config.GlobalQueue }

/-- The accessors of the head block's `state.StateDB` that the pool reads. -/
structure HeadState where
  GetNonce : Address → Nat
  GetBalance : Address → Nat

/-- `txNoncer`: virtual nonces over a copy of the head state. `get` also
caches the fallback's nonce in `nonces`; the copy never changes, so the cached
value is the fallback's and `get` is modelled without the cache. -/
structure TxNoncer where
  fallback : HeadState
  nonces : GoMap Address Nat

/-- `newTxNoncer`. -/
def newTxNoncer (statedb : HeadState) : TxNoncer := ⟨statedb, ∅⟩

/-- `txNoncer.get`. -/
def TxNoncer.get (txn : TxNoncer) (addr : Address) : Nat :=
  (txn.nonces.lookup addr).getD (txn.fallback.GetNonce addr)

/-- `txNoncer.set`. -/
def TxNoncer.set (txn : TxNoncer) (addr : Address) (nonce : Nat) : TxNoncer :=
  { txn with nonces := txn.nonces.insert addr nonce }

/-- The errors `add` returns. `outOfGas` is `vm.ErrOutOfGas` from
`IntrinsicGas`, `knownTransaction` the formatted "known transaction" error. -/
inductive TxPoolError
  | knownTransaction
  | oversizedData
  | negativeValue
  | gasLimit
  | invalidSender
  | underpriced
  | nonceTooLow
  | insufficientFunds
  | outOfGas
  | intrinsicGas
  | replaceUnderpriced
deriving DecidableEq, Repr

/-- `TxPool`: the fields its transaction handling reads and writes. `beats`
holds the heartbeats as clock readings. -/
structure TxPool where
  config : TxPoolConfig
  gasPrice : Nat
  currentState : HeadState
  pendingNonces : TxNoncer
  currentMaxGas : Nat
  locals : AccountSet
  pending : GoMap Address TxList
  queue : GoMap Address TxList
  beats : GoMap Address Nat
  all : TxLookup
  priced : TxPricedList

namespace TxPool

section
variable (gp : GasParams)

/-- `TxPool.validateTx`. -/
def validateTx (pool : TxPool) (tx : Transaction) (isLocal : Bool) : Except TxPoolError Unit := do
  -- heuristic limit against DOS: 32KB
  if tx.Size > 32 * 1024 then throw .oversizedData
  if tx.Value < 0 then throw .negativeValue
  if pool.currentMaxGas < tx.Gas then throw .gasLimit
  let sender ← match tx.From with
    | some sender => pure sender
    | none => throw .invalidSender
  -- the account may be local even if the transaction arrived from the network
  let isLocal := isLocal || pool.locals.contains sender
  if !isLocal && pool.gasPrice > tx.GasPrice then throw .underpriced
  if pool.currentState.GetNonce sender > tx.Nonce then throw .nonceTooLow
  if (pool.currentState.GetBalance sender : Int) < tx.Cost then throw .insufficientFunds
  let intrGas ← match IntrinsicGas gp tx.Data tx.To.isNone true with
    | some intrGas => pure intrGas
    | none => throw .outOfGas
  if tx.Gas < intrGas then throw .intrinsicGas

end

/-- `pool.all.Remove(hash)` followed by `pool.priced.Removed(1)`: a
transaction leaves the pool while its heap entry goes stale. -/
def forget (pool : TxPool) (hash : Transaction) : TxPool :=
  let all := pool.all.Remove hash
  { pool with all, priced := pool.priced.Removed all 1 }

/-- `pool.all.Add(tx)` followed by `pool.priced.Put(tx)`. -/
def track (pool : TxPool) (tx : Transaction) : TxPool :=
  { pool with all := pool.all.Add tx, priced := pool.priced.Put tx }

/-- `pool.all.Remove` for each of `txs`. -/
def removeAll (pool : TxPool) (txs : List Transaction) : TxPool :=
  { pool with all := txs.foldl TxLookup.Remove pool.all }

/-- `TxPool.enqueueTx`: insert `tx` into its sender's queue, creating the
list if there is none. Returns whether a queued transaction was replaced. -/
def enqueueTx (pool : TxPool) (tx : Transaction) : Except TxPoolError Bool × TxPool :=
  let sender := tx.From.getD 0
  let list := (pool.queue.lookup sender).getD (newTxList false)
  let r := list.Add tx pool.config.PriceBump
  -- the new list is stored before the insertion is tried
  let pool := { pool with queue := pool.queue.insert sender r.2.2 }
  if !r.1 then (.error .replaceUnderpriced, pool)
  else
    let pool := match r.2.1 with
      | some old => pool.forget old
      | none => pool
    let pool := if (pool.all.Get tx).isNone then pool.track tx else pool
    (.ok r.2.1.isSome, pool)

/-- `pool.enqueueTx` for each of `txs`, ignoring the results. -/
def enqueueAll (pool : TxPool) (txs : List Transaction) : TxPool :=
  txs.foldl (fun pool tx => (pool.enqueueTx tx).2) pool

/-- The pending branch of `TxPool.removeTx`, after `tx` was removed from its
sender's pending list: store or delete the list, queue the transactions the
removal invalidated and lower the virtual nonce. -/
def removePending (pool : TxPool) (addr : Address) (tx : Transaction)
    (invalids : List Transaction) (pending : TxList) : TxPool :=
  let pool :=
    if pending.Empty then { pool with pending := pool.pending.erase addr, beats := pool.beats.erase addr }
    else { pool with pending := pool.pending.insert addr pending }
  let pool := pool.enqueueAll invalids
  if pool.pendingNonces.get addr > tx.Nonce then
    { pool with pendingNonces := pool.pendingNonces.set addr tx.Nonce }
  else pool

/-- The queue branch of `TxPool.removeTx`. -/
def removeQueued (pool : TxPool) (addr : Address) (tx : Transaction) : TxPool :=
  match pool.queue.lookup addr with
  | none => pool
  | some future =>
    let future := (future.Remove tx).2.2
    if future.Empty then { pool with queue := pool.queue.erase addr }
    else { pool with queue := pool.queue.insert addr future }

/-- `TxPool.removeTx`: remove a transaction from the pool, moving the
pending transactions it made unexecutable back to the queue. With
`outofbound` unset the caller has already taken it off the price heap. -/
def removeTx (pool : TxPool) (hash : Transaction) (outofbound : Bool) : TxPool :=
  match pool.all.Get hash with
  | none => pool
  | some tx =>
    -- the sender was validated when the transaction entered the pool
    let addr := tx.From.getD 0
    let pool := { pool with all := pool.all.Remove hash }
    let pool := if outofbound then { pool with priced := pool.priced.Removed pool.all 1 } else pool
    match pool.pending.lookup addr with
    | some pending =>
      let r := pending.Remove tx
      if r.1 then pool.removePending addr tx r.2.1 r.2.2 else pool.removeQueued addr tx
    | none => pool.removeQueued addr tx

/-- `TxPool.promoteTx`: insert `tx` into the pending list of `addr`, at time
`now`. Returns whether it was inserted. -/
def promoteTx (pool : TxPool) (now : Nat) (addr : Address) (tx : Transaction) : Bool × TxPool :=
  let list := (pool.pending.lookup addr).getD (newTxList true)
  let r := list.Add tx pool.config.PriceBump
  let pool := { pool with pending := pool.pending.insert addr r.2.2 }
  if !r.1 then (false, pool.forget tx)
  else
    let pool := match r.2.1 with
      | some old => pool.forget old
      | none => pool
    -- failsafe for direct pending inserts
    let pool := if (pool.all.Get tx).isNone then pool.track tx else pool
    (true, { pool with
      beats := pool.beats.insert addr now
      pendingNonces := pool.pendingNonces.set addr (tx.Nonce + 1) })

/-- The full-pool branch of `TxPool.add`: unless `tx` is underpriced, evict
the cheapest remote transactions to make room for it. Returns whether `tx` may
enter. -/
def makeRoom (pool : TxPool) (tx : Transaction) (isLocal : Bool) : Bool × TxPool :=
  let limit := pool.config.GlobalSlots + pool.config.GlobalQueue
  if pool.all.Count ≥ limit then
    let u := if isLocal then (false, pool.priced) else pool.priced.Underpriced tx pool.locals pool.all
    let pool := { pool with priced := u.2 }
    if u.1 then (false, pool)
    else
      let d := pool.priced.Discard (pool.all.Count - (limit - 1)) pool.locals pool.all
      let pool := { pool with priced := d.2 }
      (true, d.1.foldl (fun pool tx => pool.removeTx tx false) pool)
  else (true, pool)

/-- The queue branch of `TxPool.add`: enqueue `tx` and mark a local sender. -/
def addQueued (pool : TxPool) (tx : Transaction) (isLocal : Bool) : Except TxPoolError Bool × TxPool :=
  match pool.enqueueTx tx with
  | (.error err, pool) => (.error err, pool)
  | (.ok replaced, pool) =>
    let pool := if isLocal then { pool with locals := pool.locals.add (tx.From.getD 0) } else pool
    (.ok replaced, pool)

/-- The rest of `TxPool.add` once `tx` is valid and has room: replace a
pending transaction of the same nonce, or enqueue. -/
def addValid (pool : TxPool) (tx : Transaction) (isLocal : Bool) : Except TxPoolError Bool × TxPool :=
  let sender := tx.From.getD 0
  match pool.pending.lookup sender with
  | some list =>
    if list.Overlaps tx then
      let r := list.Add tx pool.config.PriceBump
      if !r.1 then (.error .replaceUnderpriced, pool)
      else
        let pool := { pool with pending := pool.pending.insert sender r.2.2 }
        let pool := match r.2.1 with
          | some old => pool.forget old
          | none => pool
        (.ok r.2.1.isSome, pool.track tx)
    else pool.addQueued tx isLocal
  | none => pool.addQueued tx isLocal

section
variable (gp : GasParams)

/-- `TxPool.add`: returns whether `tx` replaced a transaction. -/
def add (pool : TxPool) (tx : Transaction) (isLocal : Bool) : Except TxPoolError Bool × TxPool :=
  if (pool.all.Get tx).isSome then (.error .knownTransaction, pool)
  else
    match pool.validateTx gp tx isLocal with
    | .error err => (.error err, pool)
    | .ok () =>
      match pool.makeRoom tx isLocal with
      | (false, pool) => (.error .underpriced, pool)
      | (true, pool) => pool.addValid tx isLocal

/-- The loop of `TxPool.addTxsLocked`. -/
def addTxsLoop (isLocal : Bool) :
    List Transaction → AccountSet → TxPool → List (Option TxPoolError) × AccountSet × TxPool
  | [], dirty, pool => ([], dirty, pool)
  | tx :: txs, dirty, pool =>
    match pool.add gp tx isLocal with
    | (.ok replaced, pool) =>
      let r := addTxsLoop isLocal txs (if replaced then dirty else dirty.addTx tx) pool
      (none :: r.1, r.2)
    | (.error err, pool) =>
      let r := addTxsLoop isLocal txs dirty pool
      (some err :: r.1, r.2)

/-- `TxPool.addTxsLocked`: the error of each transaction, and the senders of
those that entered the pool without replacing one. -/
def addTxsLocked (pool : TxPool) (txs : List Transaction) (isLocal : Bool) :
    List (Option TxPoolError) × AccountSet × TxPool :=
  addTxsLoop gp isLocal txs newAccountSet pool

end

end TxPool

end Btp.Core
