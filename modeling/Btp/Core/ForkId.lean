import Mathlib
import Btp.Common.Types

/-!
# Fork identifiers

`core/forkid/forkid.go`, EIP-2124. A fork identifier is the CRC-32 checksum
of the genesis hash and of the fork blocks a chain has passed, with the next
fork block it expects. `newID` computes the identifier of the local chain at a
head, and `newFilter` decides whether a remote identifier is compatible with
the local chain at its head.

The checksum is the IEEE CRC-32 of `hash/crc32`, computed bit by bit.
`params.ChainConfig` is not under `src/`: for `gatherForks` it is the list of
its `*big.Int` fields whose names end in `Block`, in declaration order. An
identifier's `[4]byte` hash is modelled by the checksum it encodes
(`checksumToBytes` is the big-endian encoding, a bijection).
-/

namespace Btp.ForkId

/-! ## The checksum -/

/-- One byte into the IEEE CRC-32 register (reflected polynomial
`0xEDB88320`), bit by bit. -/
def crcByte (crc : UInt32) (b : UInt8) : UInt32 :=
  (List.range 8).foldl (fun c _ => if c &&& 1 = 1 then (c >>> 1) ^^^ 0xEDB88320 else c >>> 1)
    (crc ^^^ b.toUInt32)

/-- `crc32.Update(crc, crc32.IEEETable, p)`. -/
def crc32Update (crc : UInt32) (p : List UInt8) : UInt32 :=
  ~~~(p.foldl crcByte (~~~crc))

/-- `crc32.ChecksumIEEE`. -/
def ChecksumIEEE (p : List UInt8) : UInt32 := crc32Update 0 p

/-- `binary.BigEndian.PutUint64`. -/
def putUint64 (x : UInt64) : List UInt8 :=
  (List.range 8).map fun i => (x >>> (56 - 8 * i).toUInt64).toUInt8

/-- The 32 bytes of a hash, most significant first: `genesis[:]`. -/
def hashBytes (h : Hash) : List UInt8 :=
  (List.range 32).map fun i => ((h.toNat / 256 ^ (31 - i)) % 256).toUInt8

/-- `checksumUpdate`: the checksum of the previous blob followed by the fork
block number. -/
def checksumUpdate (hash : UInt32) (fork : UInt64) : UInt32 := crc32Update hash (putUint64 fork)

/-! ## Identifiers and the forks of a chain -/

/-- `ID`. -/
structure ID where
  Hash : UInt32
  Next : UInt64
  deriving DecidableEq, Repr

/-- The fork-block fields of `params.ChainConfig`, in declaration order; an
unset fork is `nil`. -/
structure ChainConfig where
  forkBlocks : List (Option Nat)

/-- The sorting loop of `gatherForks`: for every `i`, exchange `forks[i]`
with each later `forks[j]` that is smaller. -/
def sortForks (forks : List UInt64) : List UInt64 :=
  (List.range forks.length).foldl (fun fs i =>
    (List.range' (i + 1) (forks.length - (i + 1))).foldl (fun fs j =>
      if fs.getD i 0 > fs.getD j 0 then (fs.set i (fs.getD j 0)).set j (fs.getD i 0) else fs)
      fs) forks

/-- The deduplication loop of `gatherForks` after the fork `prev` it kept
last: `forks[i]` is dropped when it equals `forks[i-1]`, which after the drop
is again the fork kept last. -/
def dedupFrom (prev : UInt64) : List UInt64 → List UInt64
  | [] => []
  | fork :: forks => if fork = prev then dedupFrom prev forks else fork :: dedupFrom fork forks

/-- The deduplication loop of `gatherForks`. -/
def dedupForks : List UInt64 → List UInt64
  | [] => []
  | fork :: forks => fork :: dedupFrom fork forks

/-- `gatherForks`: the fork blocks of the config (`rule.Uint64()`), sorted,
without duplicates and without a fork at block 0. -/
def gatherForks (config : ChainConfig) : List UInt64 :=
  let forks := dedupForks (sortForks (config.forkBlocks.filterMap (·.map UInt64.ofNat)))
  match forks with
  | 0 :: rest => rest
  | forks => forks

/-- The checksums after the genesis and after each fork: `sums[k]` covers
the genesis and the first `k` forks. -/
def forkSums (genesis : Hash) (forks : List UInt64) : List UInt32 :=
  forks.scanl checksumUpdate (ChecksumIEEE (hashBytes genesis))

/-- The loop of `newID`: checksum every fork at or below the head; the first
fork above it is the next one. -/
def newIDLoop (head : UInt64) (hash : UInt32) : List UInt64 → UInt32 × UInt64
  | [] => (hash, 0)
  | fork :: forks =>
    if fork ≤ head then newIDLoop head (checksumUpdate hash fork) forks else (hash, fork)

/-- `newID`. -/
def newID (config : ChainConfig) (genesis : Hash) (head : UInt64) : ID :=
  let (hash, next) := newIDLoop head (ChecksumIEEE (hashBytes genesis)) (gatherForks config)
  ⟨hash, next⟩

/-- The errors of the filter. -/
inductive FilterError
  | ErrRemoteStale
  | ErrLocalIncompatibleOrStale
  deriving DecidableEq, Repr

/-- The rules of the filter once it found the first fork `i` the head has not
gone beyond: the same checksum (rule 1), an earlier one with the right next
fork (rule 2), or a later one (rule 3). -/
def checkAt (sums : List UInt32) (forks : List UInt64) (i : Nat) (id : ID) :
    Option FilterError :=
  if sums.getD i 0 = id.Hash then none
  else match (List.range i).find? (fun j => sums.getD j 0 = id.Hash) with
    | some j => if forks.getD j 0 ≠ id.Next then some .ErrRemoteStale else none
    | none =>
      if (List.range' (i + 1) (sums.length - (i + 1))).any (fun j => sums.getD j 0 = id.Hash)
      then none else some .ErrLocalIncompatibleOrStale

/-- `newFilter`, at the local head `head`: `none` accepts the remote
identifier. The last fork is the sentinel `math.MaxUint64`, which no head goes
beyond. -/
def newFilter (config : ChainConfig) (genesis : Hash) (head : UInt64) (id : ID) :
    Option FilterError :=
  let forks := gatherForks config
  let sums := forkSums genesis forks
  let forks := forks ++ [0xFFFFFFFFFFFFFFFF]
  match forks.zipIdx.find? (fun (fork, _) => !(head > fork)) with
  | some (_, i) => checkAt sums forks i id
  -- "Impossible fork ID validation": accept
  | none => none

/-! ## The filter against `newID`'s count of passed forks -/

/-- The forks `newID` counts as passed at `head`: those at or below it. -/
def passed (forks : List UInt64) (head : UInt64) : Nat := (forks.filter (· ≤ head)).length

/-- The acceptance rule of EIP-2124 with the passed forks counted as `newID`
counts them: the local checksum, an earlier one announcing the right next
fork, or a later one. -/
def AcceptsAsNewID (config : ChainConfig) (genesis : Hash) (head : UInt64) (id : ID) : Prop :=
  let forks := gatherForks config
  let sums := forkSums genesis forks
  let p := passed forks head
  sums.getD p 0 = id.Hash ∨ (∃ j < p, sums.getD j 0 = id.Hash ∧ forks.getD j 0 = id.Next) ∨
    (∃ j < sums.length, p < j ∧ sums.getD j 0 = id.Hash)

instance (config : ChainConfig) (genesis : Hash) (head : UInt64) (id : ID) :
    Decidable (AcceptsAsNewID config genesis head id) :=
  inferInstanceAs (Decidable (_ ∨ _ ∨ _))

/-- A chain with its only fork at block 1, at head 1: `newID` counts the fork
as passed, the filter does not (it skips a fork only when `head > fork`). A
remote still at the genesis checksum that announces the wrong next fork is
accepted, where the rule counted as `newID` counts rejects it as stale. -/
theorem newFilter_accepts_stale_remote_at_fork_block :
    let config : ChainConfig := ⟨[some 1]⟩
    let id : ID := ⟨ChecksumIEEE (hashBytes 0), 2⟩
    newFilter config 0 1 id = none ∧ ¬ AcceptsAsNewID config 0 1 id :=
  ⟨by decide +kernel, by decide +kernel⟩

end Btp.ForkId
