import Mathlib
import Btp.Common.Types

/-!
# The canonical chain and its reorganisation

`BlockChain.writeBlockWithState` (its canonical decision), `BlockChain.reorg`
and `BlockChain.insert` of `core/blockchain.go`, over a database modelled as
maps: the stored blocks and total difficulties, the canonical number-to-hash
index, the transaction lookup index (transaction hash to block number) and
the current head. Receipts, state commits, the trie garbage collection, the
head header and fast-sync head, and the events are not modelled.

The tie between a block and the head at the same height and total
difficulty is decided by `shouldPreserve` and a coin flip; here it is a
parameter of the write.
-/

namespace Btp.Chain

/-- The fields of `types.Block` the canonical index reads. -/
structure Block where
  hash : Hash
  parentHash : Hash
  number : Nat
  difficulty : Nat
  txs : List Hash
  deriving DecidableEq, Repr

/-- The database, as maps, and the current head block. The canonical index
is finite: no marker stands at `top` or above. -/
structure ChainDB where
  blocks : Hash → Option Block
  td : Hash → Nat → Option Nat
  canonical : Nat → Option Hash
  top : Nat
  canonical_top : ∀ i, top ≤ i → canonical i = none
  txLookup : Hash → Option Nat
  current : Block

/-- The errors of a write. -/
inductive ChainError
  | ErrUnknownAncestor
  | invalidOldChain
  | invalidNewChain
  deriving DecidableEq, Repr

/-- `WriteStatus`. -/
inductive WriteStatus
  | NonStatTy
  | CanonStatTy
  | SideStatTy
  deriving DecidableEq, Repr

namespace ChainDB

/-- The empty database with the head `current`. -/
def empty (current : Block) : ChainDB :=
  { blocks := fun _ => none, td := fun _ _ => none, canonical := fun _ => none, top := 0,
    canonical_top := fun _ _ => rfl, txLookup := fun _ => none, current }

/-- `rawdb.ReadCanonicalHash`: the zero hash where no marker is stored. -/
def ReadCanonicalHash (db : ChainDB) (number : Nat) : Hash := (db.canonical number).getD 0

/-- `BlockChain.GetBlock(hash, number)`. -/
def GetBlock (db : ChainDB) (hash : Hash) (number : Nat) : Option Block :=
  (db.blocks hash).filter (·.number = number)

/-- The parent of a block, as `reorg` fetches it: `GetBlock(ParentHash(),
NumberU64()-1)`, the number a `uint64`. -/
def parentOf (db : ChainDB) (b : Block) : Option Block :=
  db.GetBlock b.parentHash ((b.number + 2 ^ 64 - 1) % 2 ^ 64)

/-- `rawdb.WriteBlock` and `HeaderChain.WriteTd`. -/
def writeBlock (db : ChainDB) (block : Block) (td : Nat) : ChainDB :=
  { db with
    blocks := Function.update db.blocks block.hash (some block)
    td := fun hash number =>
      if hash = block.hash ∧ number = block.number then some td else db.td hash number }

/-- `rawdb.WriteTxLookupEntries`: every transaction of the block points at
its number. -/
def WriteTxLookupEntries (db : ChainDB) (block : Block) : ChainDB :=
  { db with txLookup := fun tx => if tx ∈ block.txs then some block.number else db.txLookup tx }

/-- `rawdb.DeleteTxLookupEntry` for a list of transactions. -/
def deleteTxLookups (db : ChainDB) (txs : List Hash) : ChainDB :=
  { db with txLookup := fun tx => if tx ∈ txs then none else db.txLookup tx }

/-- `BlockChain.insert`: the block becomes canonical at its number, and the
head. -/
def insert (db : ChainDB) (block : Block) : ChainDB :=
  { db with
    canonical := Function.update db.canonical block.number (some block.hash)
    top := max db.top (block.number + 1)
    canonical_top := fun i hi => by
      have hne : i ≠ block.number := by omega
      simp only [Function.update_of_ne hne]
      exact db.canonical_top i (by omega)
    current := block }

/-- `rawdb.DeleteCanonicalHash`. -/
def DeleteCanonicalHash (db : ChainDB) (number : Nat) : ChainDB :=
  { db with
    canonical := Function.update db.canonical number none
    canonical_top := fun i hi => by
      by_cases h : i = number
      · subst h
        simp
      · simp only [Function.update_of_ne h]
        exact db.canonical_top i hi }

/-- The loop of `reorg` that deletes the canonical markers from `i` upwards
until the first empty one. It reads the index as it was before the loop,
which is the index it has deleted below `i`; no marker stands at `top`, so
`top` passes suffice. -/
def deleteCanonicalFrom (db : ChainDB) (i : Nat) : (fuel : Nat) → ChainDB
  | 0 => db
  | fuel + 1 =>
    if db.ReadCanonicalHash i = 0 then db
    else deleteCanonicalFrom (db.DeleteCanonicalHash i) (i + 1) fuel

/-- `Genesis.Commit`: the genesis block written with its difficulty as total
difficulty, canonical at its number and the head. -/
def ofGenesis (genesis : Block) : ChainDB :=
  ((empty genesis).writeBlock genesis genesis.difficulty).insert genesis

end ChainDB

/-- `types.TxDifference`: the transactions of `a` not in `b`. -/
def TxDifference (a b : List Hash) : List Hash := a.filter (· ∉ b)

/-- The loop of `reorg` that walks the longer branch down to the height
`target`, collecting the blocks it leaves; `none` when a parent is missing. -/
def walkDown (db : ChainDB) (target : Nat) : (fuel : Nat) → Block → Option (List Block × Block)
  | fuel, b =>
    if b.number = target then some ([], b)
    else match fuel with
      | 0 => none
      | fuel + 1 =>
        match db.parentOf b with
        | none => none
        | some parent => (walkDown db target fuel parent).map fun (chain, b') => (b :: chain, b')

/-- The loop of `reorg` that steps both branches back until they meet at the
common ancestor, collecting the old and the new blocks. -/
def walkCommon (db : ChainDB) :
    (fuel : Nat) → Block → Block → Except ChainError (List Block × List Block × Block)
  | fuel, old, new =>
    if old.hash = new.hash then .ok ([], [], old)
    else match fuel with
      | 0 => .error .invalidOldChain
      | fuel + 1 =>
        match db.parentOf old with
        | none => .error .invalidOldChain
        | some old' =>
          match db.parentOf new with
          | none => .error .invalidNewChain
          | some new' =>
            (walkCommon db fuel old' new').map fun (oc, nc, c) => (old :: oc, new :: nc, c)

/-- The insertion loop of `reorg`: the new branch from its lowest block up,
without the new head, each made canonical and indexed. -/
def insertBranch (db : ChainDB) (blocks : List Block) : ChainDB :=
  blocks.foldl (fun db b => (db.insert b).WriteTxLookupEntries b) db

/-- `BlockChain.reorg`. -/
def reorg (db : ChainDB) (oldBlock newBlock : Block) : Except ChainError ChainDB := do
  -- reduce the longer branch to the height of the shorter one
  let (oldChain, newChain, oldBlock, newBlock) ←
    if oldBlock.number > newBlock.number then
      match walkDown db newBlock.number oldBlock.number oldBlock with
      | none => throw .invalidOldChain
      | some (oldChain, oldBlock) => pure (oldChain, [], oldBlock, newBlock)
    else
      match walkDown db oldBlock.number newBlock.number newBlock with
      | none => throw .invalidNewChain
      | some (newChain, newBlock) => pure ([], newChain, oldBlock, newBlock)
  let (oldRest, newRest, _) ← walkCommon db (oldBlock.number + 1) oldBlock newBlock
  let oldChain := oldChain ++ oldRest
  let newChain := newChain ++ newRest
  let deletedTxs := oldChain.flatMap (·.txs)
  -- every new block but the head, lowest first
  let inserted := (newChain.drop 1).reverse
  let db := insertBranch db inserted
  let addedTxs := inserted.flatMap (·.txs)
  let db := db.deleteTxLookups (TxDifference deletedTxs addedTxs)
  -- the canonical markers above the block that is the head at this point
  let number := db.current.number
  pure (db.deleteCanonicalFrom (number + 1) db.top)

/-- `BlockChain.writeBlockWithState`, its canonical decision: the status, the
error if any, and the database after. `tie` is the outcome of `shouldPreserve`
and the coin flip for a block at the head's height and total difficulty. The
block and its total difficulty are written whatever the status; a head
without a stored total difficulty panics. -/
def writeBlockWithState (db : ChainDB) (block : Block) (tie : Bool) :
    Option (WriteStatus × Option ChainError × ChainDB) :=
  match db.td block.parentHash ((block.number + 2 ^ 64 - 1) % 2 ^ 64) with
  | none => some (.NonStatTy, some .ErrUnknownAncestor, db)
  | some ptd =>
    let currentBlock := db.current
    (db.td currentBlock.hash currentBlock.number).map fun localTd =>
      let externTd := block.difficulty + ptd
      let db := db.writeBlock block externTd
      let reorg := if externTd > localTd then true
        else if externTd = localTd then
          if block.number < currentBlock.number then true
          else if block.number = currentBlock.number then tie else false
        else false
      if reorg then
        let reorged := if block.parentHash ≠ currentBlock.hash then Chain.reorg db currentBlock block
          else .ok db
        match reorged with
        | .error e => (.NonStatTy, some e, db)
        | .ok db => (.CanonStatTy, none, (db.WriteTxLookupEntries block).insert block)
      else (.SideStatTy, none, db)

/-- A sequence of writes, each with its tie outcome. -/
def writeBlocks (db : ChainDB) : List (Block × Bool) → Option ChainDB
  | [] => some db
  | (block, tie) :: rest => (writeBlockWithState db block tie).bind fun (_, _, db) => writeBlocks db rest

/-- A heavier branch that is shorter than the canonical one: after `A1`, `A2`
on the genesis, the block `B1` on the genesis wins by total difficulty.
`reorg` collects only `B1` on the new side, so nothing is inserted and the
head is still `A2` when the markers above it are deleted; `insert` then makes
`B1` the head at height 1, and the marker of `A2` at height 2 stays. -/
theorem reorg_to_shorter_branch_keeps_canonical_above_head :
    let g : Block := ⟨1, 0, 0, 1, []⟩
    let a1 : Block := ⟨2, 1, 1, 1, []⟩
    let a2 : Block := ⟨3, 2, 2, 1, []⟩
    let b1 : Block := ⟨4, 1, 1, 10, []⟩
    (writeBlocks (ChainDB.ofGenesis g) [(a1, false), (a2, false), (b1, false)]).map
      (fun db => (db.current, db.ReadCanonicalHash 2)) = some (b1, a2.hash) := by
  decide

end Btp.Chain
