import Mathlib
import Btp.P2p.Netutil

/-!
# The discovery node table

The bucket bookkeeping of `p2p/discover/table.go`: `Table.bucket`,
`addSeenNode`, `addVerifiedNode`, `delete`, `addIP`, `removeIP`,
`addReplacement`, `replace`, `bumpInBucket`, `deleteInBucket`, `pushNode`,
`deleteNode`, and the outcome of `doRevalidate`, over a table whose buckets
are the fixed array of Go.

A revalidation is taken as one step: the bucket the random permutation of
`nodeToRevalidate` picks and the outcome of the ping (a reply, with the
address of a newer record if one was fetched, or a timeout with the index the
random source gives to `replace`) are parameters of the event. A node keeps
the fields the table reads: its ID and its address (`addedAt`,
`livenessChecks` and the hook are not modelled).
-/

namespace Btp

namespace Enode

/-- `enode.ID`. -/
abbrev ID := Vector UInt8 32

/-- `bits.LeadingZeros8`. -/
def LeadingZeros8 (x : UInt8) : Nat := 8 - Nat.size x.toNat

/-- The loop of `LogDist`: the leading zero bits of `a xor b`, byte by byte. -/
def leadingZeros : List (UInt8 × UInt8) → Nat
  | [] => 0
  | (a, b) :: rest => if a ^^^ b = 0 then 8 + leadingZeros rest else LeadingZeros8 (a ^^^ b)

/-- `enode.LogDist`. -/
def LogDist (a b : ID) : Nat := 32 * 8 - leadingZeros (a.toList.zip b.toList)

theorem LogDist_le (a b : ID) : LogDist a b ≤ 256 := by
  unfold LogDist
  omega

end Enode

namespace Discover

open Netutil Enode

def bucketSize : Nat := 16
def maxReplacements : Nat := 10
def hashBits : Nat := 32 * 8
def nBuckets : Nat := hashBits / 15
def bucketMinDistance : Nat := hashBits - nBuckets
def bucketIPLimit : Nat := 2
def bucketSubnet : Nat := 24
def tableIPLimit : Nat := 10
def tableSubnet : Nat := 24

/-- A table entry: the node's ID and its address. -/
structure node where
  ID : Enode.ID
  IP : Netutil.IP
  deriving DecidableEq, Repr

/-- `bucket`. -/
structure bucket where
  entries : List node
  replacements : List node
  ips : DistinctNetSet

/-- `Table`: the local node's ID, the buckets, the table-wide address counter
and whether the initial seeding is done. -/
structure Table where
  self : Enode.ID
  buckets : Fin nBuckets → bucket
  ips : DistinctNetSet
  initDone : Bool

/-- `contains`. -/
def contains (ns : List node) (id : Enode.ID) : Bool := ns.any (·.ID = id)

/-- `pushNode`: `n` at the front, keeping at most `max` items; the item pushed
out at the back, if any. -/
def pushNode (list : List node) (n : node) (max : Nat) : List node × Option node :=
  if list.length < max then (n :: list, none) else (n :: list.dropLast, list.getLast?)

/-- `deleteNode`: the first item with `n`'s ID removed. -/
def deleteNode (list : List node) (n : node) : List node := list.eraseP (·.ID = n.ID)

/-- `newTable`, before the seeds are added. -/
def newTable (self : Enode.ID) : Table :=
  { self, buckets := fun _ => ⟨[], [], DistinctNetSet.empty bucketSubnet bucketIPLimit⟩,
    ips := DistinctNetSet.empty tableSubnet tableIPLimit, initDone := false }

namespace Table

/-- `Table.bucket`: the index of the bucket of an ID. -/
def bucket (tab : Table) (id : Enode.ID) : Fin nBuckets :=
  let d := LogDist tab.self id
  if h : d ≤ bucketMinDistance then ⟨0, by decide⟩
  else ⟨d - bucketMinDistance - 1, by
    have := LogDist_le tab.self id
    simp only [bucketMinDistance, nBuckets, hashBits] at h ⊢
    omega⟩

/-- The table with bucket `b` replaced. -/
def setBucket (tab : Table) (b : Fin nBuckets) (bk : Discover.bucket) : Table :=
  { tab with buckets := Function.update tab.buckets b bk }

def setEntries (tab : Table) (b : Fin nBuckets) (entries : List node) : Table :=
  tab.setBucket b { tab.buckets b with entries }

def setReplacements (tab : Table) (b : Fin nBuckets) (replacements : List node) : Table :=
  tab.setBucket b { tab.buckets b with replacements }

/-- `Table.addIP`: whether the address fits both the table's and the bucket's
limits (a LAN address always does), and the table after. -/
def addIP (tab : Table) (b : Fin nBuckets) (ip : IP) : Bool × Table :=
  if IsLAN ip then (true, tab)
  else
    let (ok, ips) := tab.ips.Add ip
    if !ok then (false, tab)
    else
      let (ok, bips) := (tab.buckets b).ips.Add ip
      if !ok then (false, { tab with ips := ips.Remove ip })
      else (true, { tab with ips }.setBucket b { tab.buckets b with ips := bips })

/-- `Table.removeIP`. -/
def removeIP (tab : Table) (b : Fin nBuckets) (ip : IP) : Table :=
  if IsLAN ip then tab
  else { tab with ips := tab.ips.Remove ip }.setBucket b
    { tab.buckets b with ips := (tab.buckets b).ips.Remove ip }

/-- `Table.addReplacement`. -/
def addReplacement (tab : Table) (b : Fin nBuckets) (n : node) : Table :=
  if contains (tab.buckets b).replacements n.ID then tab
  else
    let (ok, tab) := tab.addIP b n.IP
    if !ok then tab
    else
      let (replacements, removed) := pushNode (tab.buckets b).replacements n maxReplacements
      let tab := tab.setReplacements b replacements
      match removed with
      | some r => tab.removeIP b r.IP
      | none => tab

/-- `Table.deleteInBucket`: the entry goes, and the address of `n` is released
whether or not `n` was there. -/
def deleteInBucket (tab : Table) (b : Fin nBuckets) (n : node) : Table :=
  (tab.setEntries b (deleteNode (tab.buckets b).entries n)).removeIP b n.IP

/-- `Table.replace`: the replacement it puts in the place of `last`, if
`last` is still the last entry and there is one; `pick` is what the random
source returns for the index. -/
def replace (tab : Table) (b : Fin nBuckets) (last : node) (pick : Nat) : Option node × Table :=
  let entries := (tab.buckets b).entries
  match entries.getLast? with
  | none => (none, tab)
  | some e =>
    if e.ID ≠ last.ID then (none, tab)
    else
      let replacements := (tab.buckets b).replacements
      if replacements.length = 0 then (none, tab.deleteInBucket b last)
      else
        let r := replacements.getD (pick % replacements.length) last
        let tab := tab.setReplacements b (deleteNode replacements r)
        let tab := tab.setEntries b (entries.set (entries.length - 1) r)
        (some r, tab.removeIP b last.IP)

/-- `Table.bumpInBucket`: whether `n` is an entry of the bucket; if it is, it
moves to the front, unless its new address does not fit the limits, in which
case the old address is put back. -/
def bumpInBucket (tab : Table) (b : Fin nBuckets) (n : node) : Bool × Table :=
  let entries := (tab.buckets b).entries
  match entries.findIdx? (·.ID = n.ID) with
  | none => (false, tab)
  | some i =>
    let e := entries.getD i n
    let (ok, tab) :=
      if Equal n.IP e.IP then (true, tab)
      else
        let tab := tab.removeIP b e.IP
        let (ok, tab) := tab.addIP b n.IP
        if !ok then (false, (tab.addIP b e.IP).2) else (true, tab)
    if !ok then (false, tab)
    else (true, tab.setEntries b (n :: entries.eraseIdx i))

/-- `Table.addSeenNode`: at the end of its bucket, or among the replacements
when the bucket is full. -/
def addSeenNode (tab : Table) (n : node) : Table :=
  if n.ID = tab.self then tab
  else
    let b := tab.bucket n.ID
    if contains (tab.buckets b).entries n.ID then tab
    else if (tab.buckets b).entries.length ≥ bucketSize then tab.addReplacement b n
    else
      let (ok, tab) := tab.addIP b n.IP
      if !ok then tab
      else
        let tab := tab.setEntries b ((tab.buckets b).entries ++ [n])
        tab.setReplacements b (deleteNode (tab.buckets b).replacements n)

/-- `Table.addVerifiedNode`: at the front of its bucket (moved there if it is
in it), or among the replacements when the bucket is full; nothing before
the initial seeding is done. -/
def addVerifiedNode (tab : Table) (n : node) : Table :=
  if !tab.initDone then tab
  else if n.ID = tab.self then tab
  else
    let b := tab.bucket n.ID
    let (bumped, tab) := tab.bumpInBucket b n
    if bumped then tab
    else if (tab.buckets b).entries.length ≥ bucketSize then tab.addReplacement b n
    else
      let (ok, tab) := tab.addIP b n.IP
      if !ok then tab
      else
        let tab := tab.setEntries b (pushNode (tab.buckets b).entries n bucketSize).1
        tab.setReplacements b (deleteNode (tab.buckets b).replacements n)

/-- `Table.delete`. -/
def delete (tab : Table) (n : node) : Table := tab.deleteInBucket (tab.bucket n.ID) n

/-- How the ping of a revalidation ends. -/
inductive Outcome
  /-- A reply; the address of the newer record `RequestENR` returned, if any. -/
  | reply (record : Option IP)
  /-- No reply; `pick` is the random index `replace` draws. -/
  | timeout (pick : Nat)

/-- `Table.doRevalidate` on the last node of bucket `b`. -/
def doRevalidate (tab : Table) (b : Fin nBuckets) (outcome : Outcome) : Table :=
  match (tab.buckets b).entries.getLast? with
  | none => tab
  | some last =>
    match outcome with
    | .reply record => (tab.bumpInBucket b { last with IP := record.getD last.IP }).2
    | .timeout pick => (tab.replace b last pick).2

/-- What happens to the table. -/
inductive Event
  | addSeenNode (n : node)
  | addVerifiedNode (n : node)
  | delete (n : node)
  | revalidate (b : Fin nBuckets) (outcome : Outcome)
  /-- The initial seeding completes: `initDone` is closed. -/
  | initDone

def step (tab : Table) : Event → Table
  | .addSeenNode n => tab.addSeenNode n
  | .addVerifiedNode n => tab.addVerifiedNode n
  | .delete n => tab.delete n
  | .revalidate b outcome => tab.doRevalidate b outcome
  | .initDone => { tab with initDone := true }

def run (tab : Table) (events : List Event) : Table := events.foldl step tab

/-- The nodes of bucket `b`, entries and replacements. -/
def bucketNodes (tab : Table) (b : Fin nBuckets) : List node :=
  (tab.buckets b).entries ++ (tab.buckets b).replacements

/-- All nodes of the table. -/
def allNodes (tab : Table) : List node := (List.finRange nBuckets).flatMap tab.bucketNodes

/-- `Table.getNode`: the entry with ID `id`, searched for in the bucket of `id` only. -/
def getNode (tab : Table) (id : Enode.ID) : Option node :=
  (tab.buckets (tab.bucket id)).entries.find? (·.ID = id)

end Table

/-- The non-LAN addresses among `ns` that fall in the network `k` of `s`. -/
def ipCount (s : DistinctNetSet) (ns : List node) (k : List UInt8) : Nat :=
  (ns.filter fun n => !IsLAN n.IP && s.key n.IP = k).length

/-! ## A replacement that becomes an entry -/

/-- The node with ID `k`, as its last byte. -/
def idOf (k : UInt8) : Enode.ID := (Vector.replicate 31 (0 : UInt8)).push k

/-- Sixteen nodes on a LAN, all in the first bucket of the table of `idOf 0`,
then a node on `1.1.1.0/24` that only finds a place among the replacements,
then one LAN entry deleted and the same node seen again. -/
def promotedReplacementRun : List Table.Event :=
  ((List.range 16).map fun k => .addSeenNode ⟨idOf (k + 1).toUInt8, [10, 0, 0, (k + 1).toUInt8]⟩) ++
    [.addSeenNode ⟨idOf 17, [1, 1, 1, 1]⟩, .delete ⟨idOf 1, [10, 0, 0, 1]⟩,
      .addSeenNode ⟨idOf 17, [1, 1, 1, 1]⟩]

/-- `addSeenNode` counts the address of a node it takes from the replacements
a second time: it was counted by `addReplacement`, and `deleteNode` drops the
node from the replacements without `removeIP`. The table then holds one node
of `1.1.1.0/24` and counts two, the bucket's limit, so a second node of that
network is refused. -/
theorem addSeenNode_counts_promoted_replacement_twice :
    let tab : Table := (newTable (idOf 0)).run promotedReplacementRun
    tab.ips.members (tab.ips.key [1, 1, 1, 1]) = 2 ∧
      ipCount tab.ips tab.allNodes (tab.ips.key [1, 1, 1, 1]) = 1 ∧
      (tab.addSeenNode ⟨idOf 18, [1, 1, 1, 2]⟩).allNodes = tab.allNodes := by
  decide +kernel

end Discover

end Btp
