import Btp.Core.Bloombits.Matcher
import Btp.Lib.WordCast

/-!
# Log filters over a range of blocks

`filters.Filter` answers a log query over the blocks `begin ..= end` in two
passes. The blocks below `sections * size`, which the bloom-bits index
covers, go through the matcher, which suggests the blocks whose blooms may
hold a match; each suggested block's receipts are then filtered
(`indexedLogs`). The blocks above go one by one, each through a check of
its header bloom first (`unindexedLogs`). The counter `f.begin`, an `int64`,
carries the first block not yet searched from the first pass to the second.

The model is sequential: the matcher session runs to its end and its
results are the list `Matcher.Start` returns; the context and its
cancellation are left out. A call `(logs, err)` of the source returns the
pair here, with the filter it leaves behind and `none` for a panic or a loop
that never ends.
-/

namespace Btp.Filters

open Btp.Types Btp.Bloombits ByteBits

/-- The fields of a header the filter reads. The hash by which the backend
finds a block's receipts is a function of the header, so the backend's
lookups take the header itself. -/
structure Header where
  Number : UInt64
  Bloom : Bloom
  deriving DecidableEq, Repr

/-- `rpc.LatestBlockNumber`. -/
def LatestBlockNumber : Int64 := -1

/-- The calls the filter makes on its `Backend`: an `error` is the error the
call returns, `none` a nil header. `ServiceFilter` stands for the bloom
retrievals that serve a matcher session: the row of a bloom bit in a
section. -/
structure Backend where
  HeaderByNumber : Int64 → Except String (Option Header)
  HeaderByHash : Hash → Except String (Option Header)
  GetReceipts : Header → Except String (List Receipt)
  GetLogs : Header → Except String (List (List Log))
  BloomStatus : UInt64 × UInt64
  ServiceFilter : Nat → UInt64 → List UInt8

structure Filter where
  backend : Backend
  addresses : List Address
  topics : List (List Hash)
  block : Hash
  begin : Int64
  end_ : Int64
  matcher : Option Matcher

/-- `newFilter`: the other fields keep Go's zero values. -/
def newFilter (backend : Backend) (addresses : List Address) (topics : List (List Hash)) :
    Filter :=
  { backend, addresses, topics, block := 0, begin := 0, end_ := 0, matcher := none }

/-- The bloombits filter groups of a query: the addresses, when there are
any, then one group per topic position. Bloom bits are not positional, so
a position with no alternative is a group with no clause. -/
def rangeFilterGroups (addresses : List Address) (topics : List (List Hash)) :
    List (List (Option (List UInt8))) :=
  (if addresses.length > 0 then [addresses.map fun address => some (addressBytes address)]
    else []) ++
  topics.map fun topicList => topicList.map fun topic => some (topicBytes topic)

section Hash

variable (Keccak256 : List UInt8 → Vector UInt8 32)

def NewRangeFilter (backend : Backend) (begin end_ : Int64) (addresses : List Address)
    (topics : List (List Hash)) : Filter :=
  let size := backend.BloomStatus.1
  { newFilter backend addresses topics with
    matcher := some (NewMatcher Keccak256 size (rangeFilterGroups addresses topics)),
    begin, end_ }

end Hash

def NewBlockFilter (backend : Backend) (block : Hash) (addresses : List Address)
    (topics : List (List Hash)) : Filter :=
  { newFilter backend addresses topics with block }

/-! ## Matching single logs -/

def includes (addresses : List Address) (a : Address) : Bool :=
  addresses.any (· == a)

/-- The topic check of `filterLogs` at position `i`: a position with no
alternative is a wildcard. -/
def topicMatches (log : Log) (sub : List Hash) (i : Nat) : Bool :=
  sub.length == 0 || sub.any fun topic => log.Topics[i]? == some topic

/-- `filterLogs`: each check of the loop body rejects the log when it fails.
`fromBlock` and `toBlock` are the query's bounds, nil or an `int64`. -/
def filterLogs (logs : List Log) (fromBlock toBlock : Option Int64) (addresses : List Address)
    (topics : List (List Hash)) : List Log :=
  logs.filter fun log =>
    !(fromBlock.any fun b => 0 ≤ b && b.toUInt64 > log.BlockNumber) &&
    !(toBlock.any fun b => 0 ≤ b && b.toUInt64 < log.BlockNumber) &&
    !(addresses.length > 0 && !includes addresses log.Address) &&
    !(topics.length > log.Topics.length) &&
    topics.zipIdx.all fun (sub, i) => topicMatches log sub i

section Hash

variable (Keccak256 : List UInt8 → Vector UInt8 32)

def bloomFilter (bloom : Bloom) (addresses : List Address) (topics : List (List Hash)) : Bool :=
  (addresses.length == 0 ||
    addresses.any fun addr => BloomLookup Keccak256 bloom (addressBytes addr)) &&
  topics.all fun sub =>
    sub.length == 0 || sub.any fun topic => BloomLookup Keccak256 bloom (topicBytes topic)

/-! ## The search -/

/-- `checkMatches`: the block's logs that match. When the first match has
no transaction hash, as a light client returns it, the logs are read again
from the full receipts. -/
def Filter.checkMatches (f : Filter) (header : Header) : Except String (List Log) := do
  let logsList ← f.backend.GetLogs header
  let logs := filterLogs logsList.flatten none none f.addresses f.topics
  if logs.length > 0 then
    if logs[0]?.map Log.TxHash == some 0 then
      let receipts ← f.backend.GetReceipts header
      pure (filterLogs (receipts.flatMap Receipt.Logs) none none f.addresses f.topics)
    else pure logs
  else pure []

def Filter.blockLogs (f : Filter) (header : Header) : Except String (List Log) :=
  if bloomFilter Keccak256 header.Bloom f.addresses f.topics then f.checkMatches header
  else pure []

/-- The loop of `indexedLogs` over the blocks the matcher suggests: `f.begin`
moves past each, and the loop stops early at a missing header or an error.
When the matches run out, the search is done up to `end`. -/
def Filter.matchedLogs (f : Filter) (end_ : UInt64) (logs : List Log) :
    List UInt64 → Filter × List Log × Option String
  | [] => ({ f with begin := end_.toInt64 + 1 }, logs, none)
  | number :: numbers =>
    let f := { f with begin := number.toInt64 + 1 }
    match f.backend.HeaderByNumber number.toInt64 with
    | .error err => (f, logs, some err)
    | .ok none => (f, logs, none)
    | .ok (some header) =>
      match f.checkMatches header with
      | .error err => (f, logs, some err)
      | .ok found => f.matchedLogs end_ (logs ++ found) numbers

/-- `indexedLogs`: the matcher's suggestions from `f.begin` to `end`. A nil
matcher, or one that panics, is `none`. -/
def Filter.indexedLogs (f : Filter) (end_ : UInt64) : Option (Filter × List Log × Option String) :=
  match f.matcher with
  | none => none
  | some matcher => do
    let matches_ ← matcher.Start f.backend.ServiceFilter f.begin.toUInt64 end_
    pure (f.matchedLogs end_ [] matches_)

/-- The loop of `unindexedLogs`, `for ; f.begin <= int64(end); f.begin++`.
`f.begin` wraps at the top of `int64`, so the loop need not end; it has
`fuel` rounds, and `none` is a loop that has not ended. -/
def Filter.unindexedLoop (f : Filter) (end_ : UInt64) :
    Nat → List Log → Option (Filter × List Log × Option String)
  | 0, _ => none
  | fuel + 1, logs =>
    if f.begin ≤ end_.toInt64 then
      match f.backend.HeaderByNumber f.begin with
      | .error err => some (f, logs, some err)
      | .ok none => some (f, logs, none)
      | .ok (some header) =>
        match f.blockLogs Keccak256 header with
        | .error err => some (f, logs, some err)
        | .ok found => { f with begin := f.begin + 1 }.unindexedLoop end_ fuel (logs ++ found)
    else some (f, logs, none)

/-- `unindexedLogs`. Each round of the loop is decided by `f.begin` alone,
which takes each of its `2^64` values once before it comes back: a loop
still running after `2^64` rounds runs forever. -/
def Filter.unindexedLogs (f : Filter) (end_ : UInt64) : Option (Filter × List Log × Option String) :=
  f.unindexedLoop Keccak256 end_ (2 ^ 64) []

/-- `Logs`: a block filter searches its one block; a range filter searches
from `begin` to `end`, `-1` standing for the head, the indexed sections
first. -/
def Filter.Logs (f : Filter) : Option (Filter × List Log × Option String) :=
  if f.block ≠ 0 then
    match f.backend.HeaderByHash f.block with
    | .error err => some (f, [], some err)
    | .ok none => some (f, [], some "unknown block")
    | .ok (some header) =>
      match f.blockLogs Keccak256 header with
      | .error err => some (f, [], some err)
      | .ok logs => some (f, logs, none)
  else
    match f.backend.HeaderByNumber LatestBlockNumber with
    | .error _ | .ok none => some (f, [], none)
    | .ok (some header) =>
      let head := header.Number
      let f := if f.begin = -1 then { f with begin := head.toInt64 } else f
      let end_ := if f.end_ = -1 then head else f.end_.toUInt64
      let (size, sections) := f.backend.BloomStatus
      let indexed := sections * size
      let first : Option (Filter × List Log × Option String) :=
        if indexed > f.begin.toUInt64 then
          f.indexedLogs (if indexed > end_ then end_ else indexed - 1)
        else some (f, [], none)
      match first with
      | none => none
      | some (f, logs, some err) => some (f, logs, some err)
      | some (f, logs, none) =>
        match f.unindexedLogs Keccak256 end_ with
        | none => none
        | some (f, rest, err) => some (f, logs ++ rest, err)

end Hash

/-! ## The full node's backend over a chain -/

/-- The header of block `n` of a chain whose header blooms are `blooms`. -/
def chainHeader (blooms : Nat → Bloom) (n : Nat) : Header := ⟨n.toUInt64, blooms n⟩

theorem chainHeader_Number (blooms : Nat → Bloom) {n : Nat} (hn : n < 2 ^ 64) :
    (chainHeader blooms n).Number.toNat = n := by
  rw [chainHeader, Nat.toUInt64, UInt64.toNat_ofNat', Nat.mod_eq_of_lt hn]

/-- `BlockChain.GbtpeaderByNumber` on a canonical chain with head `head`:
the header of every block up to the head, nil above it. -/
def GbtpeaderByNumber (head : UInt64) (blooms : Nat → Bloom) (number : UInt64) : Option Header :=
  if number ≤ head then some (chainHeader blooms number.toNat) else none

/-- `BlockChain.GetReceiptsByHash`: the receipts of a header of the chain,
nil for any other. -/
def GetReceiptsByHash (head : UInt64) (receipts : Nat → List Receipt) (blooms : Nat → Bloom)
    (header : Header) : List Receipt :=
  if header.Number ≤ head ∧ header = chainHeader blooms header.Number.toNat then
    receipts header.Number.toNat
  else []

/-- The full node's backend (`btpAPIBackend`) over a canonical chain with
head `head`, whose block `n` has the receipts `receipts n` and the header
bloom `blooms n`, with a bloom-bits index of `sections` sections of `size`
blocks whose rows are `rows`. A block number other than the latest is read
as a `uint64`; the pending block, which only the miner knows, is left out.
`byHash` is the chain's lookup of a header by its hash. -/
def chainBackend (head : UInt64) (receipts : Nat → List Receipt) (blooms : Nat → Bloom)
    (size sections : UInt64) (rows : Nat → UInt64 → List UInt8)
    (byHash : Hash → Option Header) : Backend where
  HeaderByNumber blockNr :=
    if blockNr = LatestBlockNumber then .ok (some (chainHeader blooms head.toNat))
    else .ok (GbtpeaderByNumber head blooms blockNr.toUInt64)
  HeaderByHash hash := .ok (byHash hash)
  GetReceipts header := .ok (GetReceiptsByHash head receipts blooms header)
  GetLogs header := .ok ((GetReceiptsByHash head receipts blooms header).map Receipt.Logs)
  BloomStatus := (size, sections)
  ServiceFilter := rows

section Hash

variable (Keccak256 : List UInt8 → Vector UInt8 32)

/-- The backend `b` serves the canonical chain with head `head`, whose block
`n` has the receipts `receipts n` and a header bloom `blooms n` made from
them by `CreateBloom`, together with a bloom-bits index of the blocks it
reports by `BloomStatus`, whose rows are those the indexer commits. -/
structure Serves (b : Backend) (head : UInt64) (receipts : Nat → List Receipt)
    (blooms : Nat → Bloom) : Prop where
  createBloom : ∀ n ≤ head.toNat, CreateBloom Keccak256 (receipts n) = some (blooms n)
  latest : b.HeaderByNumber LatestBlockNumber = .ok (some (chainHeader blooms head.toNat))
  byNumber : ∀ n : Int64, 0 ≤ n.toInt → b.HeaderByNumber n =
    .ok (if n.toInt.toNat ≤ head.toNat then some (chainHeader blooms n.toInt.toNat) else none)
  getLogs : ∀ n ≤ head.toNat, b.GetLogs (chainHeader blooms n) = .ok ((receipts n).map Receipt.Logs)
  getReceipts : ∀ n ≤ head.toNat, b.GetReceipts (chainHeader blooms n) = .ok (receipts n)
  /-- The index covers blocks of the chain only. -/
  indexed : b.BloomStatus.2.toNat * b.BloomStatus.1.toNat ≤ head.toNat + 1
  index : ∀ s : UInt64, s.toNat < b.BloomStatus.2.toNat →
    indexSection blooms b.BloomStatus.1.toNat s.toNat =
      .ok ((List.range BloomBitLength).map fun bit => b.ServiceFilter bit s)

end Hash

/-! ## What a range query returns -/

/-- What a query asks of a log: its address is one of `addresses` when there
are any, it has a topic at every position of `topics`, and at each position
with alternatives its topic is one of them. -/
def Accepts (addresses : List Address) (topics : List (List Hash)) (log : Log) : Prop :=
  (addresses ≠ [] → log.Address ∈ addresses) ∧ topics.length ≤ log.Topics.length ∧
    ∀ i (h : i < topics.length), topics[i] ≠ [] → ∃ t ∈ topics[i], log.Topics[i]? = some t

instance (addresses : List Address) (topics : List (List Hash)) :
    DecidablePred (Accepts addresses topics) := fun _ =>
  inferInstanceAs (Decidable (_ ∧ _ ∧ _))

/-- The logs of block `n` a query accepts, in their order. -/
def blockMatches (receipts : Nat → List Receipt) (addresses : List Address)
    (topics : List (List Hash)) (n : Nat) : List Log :=
  ((receipts n).flatMap Receipt.Logs).filter fun log => decide (Accepts addresses topics log)

/-- The logs a query over the blocks `begin ..= end` should return: the
accepted logs of each block, in block order. -/
def rangeLogs (receipts : Nat → List Receipt) (begin end_ : Nat) (addresses : List Address)
    (topics : List (List Hash)) : List Log :=
  (List.range' begin (end_ + 1 - begin)).flatMap (blockMatches receipts addresses topics)

/-! ## Single logs and single blocks -/

theorem includes_iff (addresses : List Address) (a : Address) :
    includes addresses a = true ↔ a ∈ addresses := by
  simp only [includes, List.any_eq_true, beq_iff_eq, exists_eq_right]

theorem topicMatches_iff (log : Log) (sub : List Hash) (i : Nat) :
    topicMatches log sub i = true ↔ (sub ≠ [] → ∃ t ∈ sub, log.Topics[i]? = some t) := by
  cases sub with
  | nil => simp [topicMatches]
  | cons t ts => simp [topicMatches, List.any_eq_true]

theorem all_zipIdx_iff {α : Type} (l : List α) (p : α → Nat → Bool) :
    (l.zipIdx.all fun (a, i) => p a i) = true ↔ ∀ i (h : i < l.length), p l[i] i = true := by
  simp only [List.all_eq_true, Prod.forall, List.mem_zipIdx_iff_getElem?]
  constructor
  · intro h i hi
    exact h _ _ (List.getElem?_eq_getElem hi)
  · intro h a i hai
    obtain ⟨hi, rfl⟩ := List.getElem?_eq_some_iff.1 hai
    exact h i hi

/-- With no block bounds, `filterLogs` keeps exactly the logs the query
accepts, in their order. -/
theorem filterLogs_eq_filter (logs : List Log) (addresses : List Address)
    (topics : List (List Hash)) :
    filterLogs logs none none addresses topics =
      logs.filter fun log => decide (Accepts addresses topics log) := by
  unfold filterLogs
  refine List.filter_congr fun log _ => ?_
  rw [Bool.eq_iff_iff, decide_eq_true_iff]
  simp only [Option.any_none, Bool.not_false, Bool.true_and, Bool.and_eq_true, Bool.not_eq_true',
    Bool.and_eq_false_imp, decide_eq_true_eq, all_zipIdx_iff, topicMatches_iff, Accepts,
    Bool.not_eq_false', includes_iff, decide_eq_false_iff_not, not_lt, gt_iff_lt,
    List.length_pos_iff_ne_nil, and_assoc]

theorem mem_logKeys {receipts : List Receipt} {log : Log}
    (h : log ∈ receipts.flatMap Receipt.Logs) :
    addressBytes log.Address ∈ logKeys receipts ∧
      ∀ t ∈ log.Topics, topicBytes t ∈ logKeys receipts := by
  obtain ⟨r, hr, hlog⟩ := List.mem_flatMap.1 h
  simp only [logKeys, List.mem_flatMap, List.mem_cons, List.mem_map]
  exact ⟨⟨r, hr, log, hlog, .inl rfl⟩, fun t ht => ⟨r, hr, log, hlog, .inr ⟨t, ht, rfl⟩⟩⟩

/-- The topic of an accepted log at a position with alternatives is one of
them. -/
theorem Accepts.topic {addresses : List Address} {topics : List (List Hash)} {log : Log}
    (h : Accepts addresses topics log) {i : Nat} (hi : i < topics.length)
    (hne : topics[i] ≠ []) : ∃ t ∈ topics[i], t ∈ log.Topics := by
  obtain ⟨t, ht, hget⟩ := h.2.2 i hi hne
  exact ⟨t, ht, List.mem_of_getElem? hget⟩

/-- An accepted log holds a key of every bloombits group of its query that
is not a wildcard. -/
theorem Accepts.keys {addresses : List Address} {topics : List (List Hash)}
    {receipts : List Receipt} {log : Log} (h : Accepts addresses topics log)
    (hlog : log ∈ receipts.flatMap Receipt.Logs) :
    ∀ group ∈ rangeFilterGroups addresses topics, wildcard group = false →
      ∃ key ∈ logKeys receipts, some key ∈ group := by
  obtain ⟨haddr, htopic⟩ := mem_logKeys hlog
  intro group hgroup hw
  simp only [rangeFilterGroups, List.mem_append, List.mem_map] at hgroup
  rcases hgroup with hgroup | ⟨sub, hsub, rfl⟩
  · -- the address group
    split at hgroup
    · rename_i hpos
      rw [List.mem_singleton] at hgroup
      subst hgroup
      have hin := h.1 (List.ne_nil_of_length_pos hpos)
      exact ⟨_, haddr, List.mem_map.2 ⟨log.Address, hin, rfl⟩⟩
    · cases hgroup
  · -- the group of a topic position
    obtain ⟨i, hi, rfl⟩ := List.getElem_of_mem hsub
    have hne : topics[i] ≠ [] := by
      rintro hnil
      simp [wildcard, hnil] at hw
    obtain ⟨t, ht, htl⟩ := h.topic hi hne
    exact ⟨_, htopic t htl, List.mem_map.2 ⟨t, ht, rfl⟩⟩

section Hash

variable (Keccak256 : List UInt8 → Vector UInt8 32)

/-- The header bloom of a block holding an accepted log passes
`bloomFilter`. -/
theorem bloomFilter_of_accepts {receipts : List Receipt} {bloom : Bloom}
    (hbloom : CreateBloom Keccak256 receipts = some bloom) {addresses : List Address}
    {topics : List (List Hash)} {log : Log} (h : Accepts addresses topics log)
    (hlog : log ∈ receipts.flatMap Receipt.Logs) :
    bloomFilter Keccak256 bloom addresses topics = true := by
  obtain ⟨haddr, htopic⟩ := mem_logKeys hlog
  have hlookup := fun key (hk : key ∈ logKeys receipts) =>
    BloomLookup_of_mem_logKeys Keccak256 hbloom hk
  simp only [bloomFilter, Bool.and_eq_true, Bool.or_eq_true, beq_iff_eq, List.length_eq_zero_iff,
    List.any_eq_true, List.all_eq_true]
  constructor
  · by_cases hnil : addresses = []
    · exact .inl hnil
    · exact .inr ⟨log.Address, h.1 hnil, hlookup _ haddr⟩
  · intro sub hsub
    by_cases hnil : sub = []
    · exact .inl hnil
    · obtain ⟨i, hi, rfl⟩ := List.getElem_of_mem hsub
      obtain ⟨t, ht, htl⟩ := h.topic hi hnil
      exact .inr ⟨t, ht, hlookup _ (htopic t htl)⟩

/-- Neither pre-check discards a block holding an accepted log: a block
whose bloom fails `bloomFilter`, or the matcher's filters, holds none. -/
theorem blockMatches_eq_nil {receipts : Nat → List Receipt} {blooms : Nat → Bloom} {n : Nat}
    (hbloom : CreateBloom Keccak256 (receipts n) = some (blooms n)) {addresses : List Address}
    {topics : List (List Hash)}
    (hfail : bloomFilter Keccak256 (blooms n) addresses topics = false ∨
      bloomMatches Keccak256 (blooms n) (rangeFilterGroups addresses topics) = false) :
    blockMatches receipts addresses topics n = [] := by
  rw [blockMatches, List.filter_eq_nil_iff]
  intro log hlog hacc
  rw [decide_eq_true_iff] at hacc
  rcases hfail with hfail | hfail
  · rw [bloomFilter_of_accepts Keccak256 hbloom hacc hlog] at hfail
    cases hfail
  · rw [bloomMatches_of_keys Keccak256 hbloom (hacc.keys hlog)] at hfail
    cases hfail

end Hash

/-- A query with no address and no topic accepts every log. -/
theorem accepts_nil (log : Log) : Accepts [] [] log :=
  ⟨fun h => absurd rfl h, Nat.zero_le _, fun _ hi => absurd hi (Nat.not_lt_zero _)⟩

theorem blockMatches_nil (receipts : Nat → List Receipt) (n : Nat) :
    blockMatches receipts [] [] n = (receipts n).flatMap Receipt.Logs := by
  rw [blockMatches, List.filter_eq_self]
  exact fun log _ => decide_eq_true (accepts_nil log)

/-! ## The search over a served chain -/

theorem flatMap_filter_of_nil {α β : Type} (p : α → Bool) (g : α → List β) :
    ∀ l : List α, (∀ x ∈ l, p x = false → g x = []) → (l.filter p).flatMap g = l.flatMap g
  | [], _ => rfl
  | x :: l, h => by
    have ih := flatMap_filter_of_nil p g l fun y hy => h y (List.mem_cons_of_mem x hy)
    cases hp : p x with
    | true => simp [hp, ih]
    | false => simp [hp, ih, h x List.mem_cons_self hp]

/-- The accepted logs of `a ..= m` then those of `m + 1 ..= e` are those of
`a ..= e`: the split between the two passes neither skips nor repeats a
block. -/
theorem rangeLogs_append (receipts : Nat → List Receipt) (addresses : List Address)
    (topics : List (List Hash)) {a m e : Nat} (ham : a ≤ m + 1) (hme : m ≤ e) :
    rangeLogs receipts a m addresses topics ++ rangeLogs receipts (m + 1) e addresses topics =
      rangeLogs receipts a e addresses topics := by
  unfold rangeLogs
  rw [← List.flatMap_append, show e + 1 - a = (m + 1 - a) + (e + 1 - (m + 1)) by omega,
    ← List.range'_append_1, show a + (m + 1 - a) = m + 1 by omega]

section Hash

variable (Keccak256 : List UInt8 → Vector UInt8 32)

/-! The step equations of the loop of `unindexedLogs`, one per way a round
can end. -/

theorem unindexedLoop_past {f : Filter} {end_ : UInt64} {fuel : Nat} {logs : List Log}
    (hgt : ¬ f.begin ≤ end_.toInt64) :
    f.unindexedLoop Keccak256 end_ (fuel + 1) logs = some (f, logs, none) := by
  rw [Filter.unindexedLoop, if_neg hgt]

theorem unindexedLoop_missing {f : Filter} {end_ : UInt64} {fuel : Nat} {logs : List Log}
    (hle : f.begin ≤ end_.toInt64) (hheader : f.backend.HeaderByNumber f.begin = .ok none) :
    f.unindexedLoop Keccak256 end_ (fuel + 1) logs = some (f, logs, none) := by
  rw [Filter.unindexedLoop, if_pos hle, hheader]

/-! The two ways `Logs` searches a range, past its single-block case and its
`-1` defaults. -/

/-- A range that reaches no indexed block is searched by the unindexed pass
alone. -/
theorem Logs_of_not_indexed {f : Filter} {header : Header} (hblock : f.block = 0)
    (hlatest : f.backend.HeaderByNumber LatestBlockNumber = .ok (some header))
    (hbegin : f.begin ≠ -1) (hend : f.end_ ≠ -1)
    (hidx : ¬ f.backend.BloomStatus.2 * f.backend.BloomStatus.1 > f.begin.toUInt64) :
    f.Logs Keccak256 = f.unindexedLogs Keccak256 f.end_.toUInt64 := by
  unfold Filter.Logs
  rw [if_neg (by simpa using hblock), hlatest]
  dsimp only
  rw [if_neg hbegin, if_neg hend, if_neg hidx]
  dsimp only
  cases f.unindexedLogs Keccak256 f.end_.toUInt64 with
  | none => rfl
  | some r => simp

/-- A range that starts below the indexed blocks goes through the matcher up
to the end of the range or the last indexed block, whichever is lower, and
then block by block up to its end. -/
theorem Logs_of_indexed {f f₁ f₂ : Filter} {header : Header} {logs rest : List Log}
    {err : Option String} (hblock : f.block = 0)
    (hlatest : f.backend.HeaderByNumber LatestBlockNumber = .ok (some header))
    (hbegin : f.begin ≠ -1) (hend : f.end_ ≠ -1)
    (hidx : f.backend.BloomStatus.2 * f.backend.BloomStatus.1 > f.begin.toUInt64)
    (hfirst : f.indexedLogs
      (if f.backend.BloomStatus.2 * f.backend.BloomStatus.1 > f.end_.toUInt64 then f.end_.toUInt64
        else f.backend.BloomStatus.2 * f.backend.BloomStatus.1 - 1) = some (f₁, logs, none))
    (hrest : f₁.unindexedLogs Keccak256 f.end_.toUInt64 = some (f₂, rest, err)) :
    f.Logs Keccak256 = some (f₂, logs ++ rest, err) := by
  unfold Filter.Logs
  rw [if_neg (by simpa using hblock), hlatest]
  dsimp only
  rw [if_neg hbegin, if_neg hend, if_pos hidx, hfirst]
  dsimp only
  rw [hrest]

theorem unindexedLoop_step {f : Filter} {end_ : UInt64} {fuel : Nat} {logs : List Log}
    {header : Header} {found : List Log} (hle : f.begin ≤ end_.toInt64)
    (hheader : f.backend.HeaderByNumber f.begin = .ok (some header))
    (hfound : f.blockLogs Keccak256 header = .ok found) :
    f.unindexedLoop Keccak256 end_ (fuel + 1) logs =
      ({ f with begin := f.begin + 1 }).unindexedLoop Keccak256 end_ fuel (logs ++ found) := by
  rw [Filter.unindexedLoop, if_pos hle, hheader]
  dsimp only
  rw [hfound]

end Hash

section Chain

variable (Keccak256 : List UInt8 → Vector UInt8 32) {f : Filter} {head : UInt64}
  {receipts : Nat → List Receipt} {blooms : Nat → Bloom}
  (hs : Serves Keccak256 f.backend head receipts blooms)
include hs

/-- On a served chain `checkMatches` returns the block's accepted logs,
whether or not it reads them again from the receipts. -/
theorem checkMatches_chain {n : Nat} (hn : n ≤ head.toNat) :
    f.checkMatches (chainHeader blooms n) = .ok (blockMatches receipts f.addresses f.topics n) := by
  have hflat : ((receipts n).map Receipt.Logs).flatten = (receipts n).flatMap Receipt.Logs :=
    List.flatMap_def.symm
  unfold Filter.checkMatches
  rw [hs.getLogs n hn]
  simp only [bind, Except.bind, hflat, filterLogs_eq_filter]
  rw [hs.getReceipts n hn]
  split
  · -- a light client's logs are read again from the same receipts
    split <;> rfl
  · rename_i hnone
    rw [blockMatches, List.eq_nil_of_length_eq_zero (Nat.eq_zero_of_not_pos hnone)]
    rfl

theorem blockLogs_chain {n : Nat} (hn : n ≤ head.toNat) :
    f.blockLogs Keccak256 (chainHeader blooms n) =
      .ok (blockMatches receipts f.addresses f.topics n) := by
  unfold Filter.blockLogs
  split
  · exact checkMatches_chain Keccak256 hs hn
  · rename_i hfail
    rw [blockMatches_eq_nil Keccak256 (hs.createBloom n hn) (.inl (Bool.eq_false_iff.2 hfail))]
    rfl

/-- The header of a block up to the head, asked for by its number as an
`int64`. -/
theorem HeaderByNumber_chain {v : Int64} (hv : 0 ≤ v.toInt) (hle : v.toInt ≤ head.toNat) :
    f.backend.HeaderByNumber v = .ok (some (chainHeader blooms v.toInt.toNat)) := by
  rw [hs.byNumber v hv, if_pos (by omega)]

/-- The loop of `unindexedLogs` from a block `v` up to `end`, with `k` blocks
to go, appends the accepted logs of those blocks in order. It goes by
induction on `k`; `f.begin` stays below the top of `int64`, so it never
wraps. -/
theorem unindexedLoop_chain {end_ : UInt64} (hend : end_.toNat ≤ head.toNat)
    (hmax : end_.toNat < 2 ^ 63 - 1) :
    ∀ (k fuel : Nat) (v : Int64) (logs : List Log), 0 ≤ v.toInt →
      v.toInt + k = end_.toNat + 1 → k < fuel →
      ∃ f', ({ f with begin := v }).unindexedLoop Keccak256 end_ fuel logs =
        some (f', logs ++ (List.range' v.toInt.toNat k).flatMap
          (blockMatches receipts f.addresses f.topics), none) := by
  have hend64 : end_.toInt64.toInt = end_.toNat := WordCast.toInt_toInt64 (by omega)
  intro k
  induction k with
  | zero =>
    intro fuel v logs hv hk hfuel
    obtain ⟨fuel, rfl⟩ := Nat.exists_eq_add_of_lt hfuel
    -- past `end`: the loop stops at once
    have hgt : ¬ v ≤ end_.toInt64 := by
      rw [Int64.le_iff_toInt_le, hend64]
      omega
    exact ⟨_, by rw [unindexedLoop_past Keccak256 hgt, List.range'_zero, List.flatMap_nil,
      List.append_nil]⟩
  | succ k ih =>
    intro fuel v logs hv hk hfuel
    obtain ⟨fuel, rfl⟩ := Nat.exists_eq_add_of_lt hfuel
    have hle : v ≤ end_.toInt64 := by
      rw [Int64.le_iff_toInt_le, hend64]
      omega
    have hnext : (v + 1).toInt = v.toInt + 1 := WordCast.toInt_add_one (by omega)
    obtain ⟨f', hrun⟩ := ih (k + fuel + 1) (v + 1) (logs ++ blockMatches receipts f.addresses f.topics v.toInt.toNat)
      (by omega) (by omega) (by omega)
    -- block `v` is read and searched, then the loop goes on from `v + 1`
    have hheader := HeaderByNumber_chain Keccak256 hs hv (by omega)
    have hfound := blockLogs_chain Keccak256 (f := { f with begin := v }) hs
      (n := v.toInt.toNat) (by omega)
    refine ⟨f', ?_⟩
    rw [show k + 1 + fuel = k + fuel + 1 by omega,
      unindexedLoop_step Keccak256 (f := { f with begin := v }) hle hheader hfound]
    rw [hrun, hnext,
      show (v.toInt + 1).toNat = v.toInt.toNat + 1 by omega, List.range'_succ, List.flatMap_cons,
      List.append_assoc]

/-- `unindexedLogs` from a block `v` up to `end` returns the accepted logs of
`v ..= end`. -/
theorem unindexedLogs_chain (end_ : UInt64) (hend : end_.toNat ≤ head.toNat)
    (hmax : end_.toNat < 2 ^ 63 - 1) {v : Int64} (hv : 0 ≤ v.toInt)
    (hve : v.toInt ≤ end_.toNat + 1) :
    ∃ f', ({ f with begin := v }).unindexedLogs Keccak256 end_ =
      some (f', rangeLogs receipts v.toInt.toNat end_.toNat f.addresses f.topics, none) := by
  obtain ⟨f', hrun⟩ := unindexedLoop_chain Keccak256 hs hend hmax (end_.toNat + 1 - v.toInt.toNat)
    (2 ^ 64) v [] hv (by omega) (by omega)
  exact ⟨f', hrun⟩

/-- The loop of `indexedLogs` over suggested blocks up to `end` appends the
accepted logs of each, in order, and leaves `f.begin` just past `end`. -/
theorem matchedLogs_chain {end_ : UInt64} (hend : end_.toNat ≤ head.toNat)
    (hmax : end_.toNat < 2 ^ 63) :
    ∀ (numbers : List UInt64) (v : Int64) (logs : List Log),
      (∀ n ∈ numbers, n.toNat ≤ end_.toNat) →
      ({ f with begin := v }).matchedLogs end_ logs numbers =
        ({ f with begin := end_.toInt64 + 1 },
          logs ++ numbers.flatMap (fun n => blockMatches receipts f.addresses f.topics n.toNat),
          none)
  | [], v, logs, _ => by simp [Filter.matchedLogs]
  | number :: numbers, v, logs, hle => by
    have hn : number.toNat ≤ end_.toNat := hle number List.mem_cons_self
    have h64 : number.toInt64.toInt = number.toNat := WordCast.toInt_toInt64 (by omega)
    have ih := matchedLogs_chain hend hmax numbers (number.toInt64 + 1)
      (logs ++ blockMatches receipts f.addresses f.topics number.toNat)
      fun n hn => hle n (List.mem_cons_of_mem _ hn)
    rw [Filter.matchedLogs]
    dsimp only
    rw [HeaderByNumber_chain Keccak256 hs (by omega) (by omega), h64, Int.toNat_natCast]
    dsimp only
    rw [checkMatches_chain Keccak256 (f := { f with begin := number.toInt64 + 1 }) hs (by omega)]
    dsimp only
    rw [ih, List.flatMap_cons, List.append_assoc]

/-- `indexedLogs` from a block `v` up to an `end` whose section the index
holds returns the accepted logs of `v ..= end`, and leaves `f.begin` just
past `end`. -/
theorem indexedLogs_chain
    (hm : f.matcher = some (NewMatcher Keccak256 f.backend.BloomStatus.1
      (rangeFilterGroups f.addresses f.topics)))
    {v : Int64} (hv : 0 ≤ v.toInt) (end_ : UInt64) (hend : end_.toNat ≤ head.toNat)
    (hmax : end_.toNat < 2 ^ 63) (hpos : 0 < f.backend.BloomStatus.1.toNat)
    (hcover : end_.toNat / f.backend.BloomStatus.1.toNat < f.backend.BloomStatus.2.toNat) :
    ({ f with begin := v }).indexedLogs end_ =
      some ({ f with begin := end_.toInt64 + 1 },
        rangeLogs receipts v.toInt.toNat end_.toNat f.addresses f.topics, none) := by
  -- the index holds a section, so its size is a multiple of 8
  have h8 : f.backend.BloomStatus.1.toNat % 8 = 0 :=
    indexSection_mod_eight (hs.index 0 (Nat.lt_of_le_of_lt (Nat.zero_le _) hcover))
  have hlast : (end_.toNat / f.backend.BloomStatus.1.toNat + 1) * f.backend.BloomStatus.1.toNat ≤
      2 ^ 64 :=
    calc (end_.toNat / f.backend.BloomStatus.1.toNat + 1) * f.backend.BloomStatus.1.toNat
        ≤ f.backend.BloomStatus.2.toNat * f.backend.BloomStatus.1.toNat :=
          Nat.mul_le_mul_right _ hcover
      _ ≤ head.toNat + 1 := hs.indexed
      _ ≤ 2 ^ 64 := UInt64.toNat_lt head
  have hstart := Start_eq_matching Keccak256 blooms f.backend.BloomStatus.1 v.toUInt64 end_
    (rangeFilterGroups f.addresses f.topics) f.backend.ServiceFilter hpos h8 (by omega) hlast
    fun s hs' => hs.index s (by omega)
  rw [WordCast.toNat_toUInt64 hv] at hstart
  -- every suggested block is a block of the range, and below `2^64`
  have hnums : ∀ n ∈ (List.range' v.toInt.toNat (end_.toNat + 1 - v.toInt.toNat)).filter
      (fun i => bloomMatches Keccak256 (blooms i) (rangeFilterGroups f.addresses f.topics)),
      n ≤ end_.toNat := by
    intro n hn
    have := List.mem_range'_1.1 (List.mem_filter.1 hn).1
    omega
  unfold Filter.indexedLogs
  dsimp only
  split
  · rename_i hnone
    rw [hm] at hnone
    cases hnone
  · rename_i matcher hsome
    rw [hm, Option.some.injEq] at hsome
    subst hsome
    rw [hstart]
    show some (({ f with begin := v }).matchedLogs end_ [] _) = _
    rw [matchedLogs_chain Keccak256 hs hend hmax _ v [] fun n hn => by
      obtain ⟨i, hi, rfl⟩ := List.mem_map.1 hn
      rw [Nat.toUInt64, UInt64.toNat_ofNat', Nat.mod_eq_of_lt (by have := hnums i hi; omega)]
      exact hnums i hi]
    refine congrArg (fun logs => some ({ f with begin := end_.toInt64 + 1 }, logs, none)) ?_
    rw [List.nil_append, List.flatMap_map, rangeLogs]
    have hround : ∀ a ∈ (List.range' v.toInt.toNat (end_.toNat + 1 - v.toInt.toNat)).filter
        (fun i => bloomMatches Keccak256 (blooms i) (rangeFilterGroups f.addresses f.topics)),
        blockMatches receipts f.addresses f.topics a.toUInt64.toNat =
          blockMatches receipts f.addresses f.topics a := fun a ha => by
      rw [Nat.toUInt64, UInt64.toNat_ofNat', Nat.mod_eq_of_lt (by have := hnums a ha; omega)]
    -- a block the matcher leaves out holds no accepted log
    rw [List.flatMap_congr hround, flatMap_filter_of_nil]
    intro n hn hfail
    have hn' := List.mem_range'_1.1 hn
    exact blockMatches_eq_nil Keccak256 (hs.createBloom n (by omega)) (.inr hfail)

/-- A range filter over `begin ..= end`, with `0 ≤ begin ≤ end ≤ head` and
`end` below the top of `int64`, returns the accepted logs of those blocks in
order: the indexed sections through the matcher, the rest block by block. -/
theorem Logs_chain
    (hm : f.matcher = some (NewMatcher Keccak256 f.backend.BloomStatus.1
      (rangeFilterGroups f.addresses f.topics)))
    (hblock : f.block = 0) (hbegin : 0 ≤ f.begin.toInt) (hle : f.begin.toInt ≤ f.end_.toInt)
    (hhead : f.end_.toInt ≤ head.toNat) (hmax : f.end_.toInt < 2 ^ 63 - 1) :
    ∃ f', f.Logs Keccak256 =
      some (f', rangeLogs receipts f.begin.toInt.toNat f.end_.toInt.toNat f.addresses f.topics,
        none) := by
  have hne : f.begin ≠ -1 := by
    intro h
    rw [h] at hbegin
    exact absurd hbegin (by decide)
  have hend_ne : f.end_ ≠ -1 := by
    intro h
    rw [h, show (-1 : Int64).toInt = -1 by decide] at hle
    omega
  have hendNat : f.end_.toUInt64.toNat = f.end_.toInt.toNat := WordCast.toNat_toUInt64 (by omega)
  have hbeginNat : f.begin.toUInt64.toNat = f.begin.toInt.toNat := WordCast.toNat_toUInt64 hbegin
  have hself : ({ f with begin := f.begin } : Filter) = f := rfl
  by_cases hidx : f.backend.BloomStatus.2 * f.backend.BloomStatus.1 > f.begin.toUInt64
  · -- the blocks below `indexed` go through the matcher first
    -- `indexed`, the number of indexed blocks, at most the chain's length
    obtain ⟨P, hP⟩ : ∃ P, f.backend.BloomStatus.2.toNat * f.backend.BloomStatus.1.toNat = P :=
      ⟨_, rfl⟩
    have hcov : P ≤ head.toNat + 1 := hP ▸ hs.indexed
    have hprod : (f.backend.BloomStatus.2 * f.backend.BloomStatus.1).toNat = P := by
      rw [UInt64.toNat_mul, hP]
      apply Nat.mod_eq_of_lt
      -- a product of `2^64` would wrap to 0, which is not above `begin`
      by_contra hge
      have heq : P = 2 ^ 64 := by
        have := UInt64.toNat_lt head
        omega
      rw [gt_iff_lt, UInt64.lt_iff_toNat_lt, UInt64.toNat_mul, hP, heq, Nat.mod_self] at hidx
      omega
    have hbelow : f.begin.toInt.toNat < P := by
      rw [gt_iff_lt, UInt64.lt_iff_toNat_lt, hbeginNat, hprod] at hidx
      exact hidx
    have hpos : 0 < f.backend.BloomStatus.1.toNat := Nat.pos_of_mul_pos_left (by rw [hP]; omega)
    generalize hE : (if f.backend.BloomStatus.2 * f.backend.BloomStatus.1 > f.end_.toUInt64 then
      f.end_.toUInt64 else f.backend.BloomStatus.2 * f.backend.BloomStatus.1 - 1) = last
    -- `last` is the end of the range or the last indexed block, whichever is lower
    have hlast : last.toNat = min f.end_.toInt.toNat (P - 1) := by
      rw [← hE]
      split
      · rename_i h
        rw [gt_iff_lt, UInt64.lt_iff_toNat_lt, hprod, hendNat] at h
        rw [hendNat]
        omega
      · rename_i h
        rw [gt_iff_lt, UInt64.lt_iff_toNat_lt, hprod, hendNat] at h
        rw [UInt64.toNat_sub_of_le _ _ (UInt64.le_iff_toNat_le.2 (by simp; omega)), hprod]
        simp only [UInt64.toNat_one]
        omega
    have hcover : last.toNat / f.backend.BloomStatus.1.toNat < f.backend.BloomStatus.2.toNat := by
      rw [Nat.div_lt_iff_lt_mul hpos, hP]
      omega
    have hind := indexedLogs_chain Keccak256 hs hm hbegin last (by omega) (by omega) hpos
      hcover
    rw [hself] at hind
    have hnext : (last.toInt64 + 1).toInt = last.toNat + 1 := by
      rw [WordCast.toInt_add_one (by rw [WordCast.toInt_toInt64 (by omega)]; omega),
        WordCast.toInt_toInt64 (by omega)]
    obtain ⟨f', hrun⟩ := unindexedLogs_chain Keccak256 hs f.end_.toUInt64
      (by omega) (by omega) (v := last.toInt64 + 1) (by omega) (by omega)
    rw [hnext, show ((last.toNat : Int) + 1).toNat = last.toNat + 1 by omega, hendNat] at hrun
    refine ⟨f', ?_⟩
    rw [Logs_of_indexed Keccak256 hblock hs.latest hne hend_ne hidx (by rw [hE]; exact hind) hrun,
      rangeLogs_append _ _ _ (by omega) (by omega)]
  · -- nothing is indexed from `begin` on
    obtain ⟨f', hrun⟩ := unindexedLogs_chain Keccak256 hs f.end_.toUInt64
      (by omega) (by omega) (v := f.begin) hbegin (by omega)
    rw [hself, hendNat] at hrun
    exact ⟨f', by rw [Logs_of_not_indexed Keccak256 hblock hs.latest hne hend_ne hidx, hrun]⟩

end Chain

/-! ## Range queries return exactly the matching logs -/

section Hash

variable (Keccak256 : List UInt8 → Vector UInt8 32)

/-- The full node's backend serves its chain, given header blooms made by
`CreateBloom` and an index of the chain's blocks committed by the indexer. -/
theorem chainBackend_serves {head : UInt64} {receipts : Nat → List Receipt}
    {blooms : Nat → Bloom} {size sections : UInt64} {rows : Nat → UInt64 → List UInt8}
    (byHash : Hash → Option Header)
    (hbloom : ∀ n ≤ head.toNat, CreateBloom Keccak256 (receipts n) = some (blooms n))
    (hcov : sections.toNat * size.toNat ≤ head.toNat + 1)
    (hrows : ∀ s : UInt64, s.toNat < sections.toNat → indexSection blooms size.toNat s.toNat =
      .ok ((List.range BloomBitLength).map fun bit => rows bit s)) :
    Serves Keccak256 (chainBackend head receipts blooms size sections rows byHash) head receipts
      blooms := by
  -- the chain's own headers, and the receipts the backend finds for them
  have hheader : ∀ n ≤ head.toNat, (chainHeader blooms n).Number.toNat = n := fun n hn =>
    chainHeader_Number blooms (by have := UInt64.toNat_lt head; omega)
  have hreceipts : ∀ n ≤ head.toNat,
      GetReceiptsByHash head receipts blooms (chainHeader blooms n) = receipts n := by
    intro n hn
    rw [GetReceiptsByHash, hheader n hn,
      if_pos ⟨UInt64.le_iff_toNat_le.2 (by rw [hheader n hn]; exact hn), rfl⟩]
  refine ⟨hbloom, by simp [chainBackend], fun n hn => ?_, fun n hn => ?_, fun n hn => ?_, hcov,
    hrows⟩
  · -- a block number that is not negative is read as the block of that number
    have hne : n ≠ LatestBlockNumber := by
      intro h
      rw [h, show LatestBlockNumber.toInt = -1 by decide] at hn
      omega
    have hnat : n.toUInt64.toNat = n.toInt.toNat := WordCast.toNat_toUInt64 hn
    simp only [chainBackend, if_neg hne, GbtpeaderByNumber, UInt64.le_iff_toNat_le, hnat]
  · simp only [chainBackend, hreceipts n hn]
  · simp only [chainBackend, hreceipts n hn]

end Hash

/-- A range query over `begin ..= end`, on a backend that serves a canonical
chain and its bloom-bits index, with `0 ≤ begin ≤ end ≤ head` and `end`
below the top of `int64`, returns exactly the accepted logs of those blocks,
in block order and in their order within each block. -/
theorem Logs_returns_range_logs (Keccak256 : List UInt8 → Vector UInt8 32) (b : Backend)
    (head : UInt64) (receipts : Nat → List Receipt) (blooms : Nat → Bloom)
    (hs : Serves Keccak256 b head receipts blooms) (begin end_ : Int64)
    (addresses : List Address) (topics : List (List Hash)) (hbegin : 0 ≤ begin.toInt)
    (hle : begin.toInt ≤ end_.toInt) (hhead : end_.toInt ≤ head.toNat)
    (hmax : end_.toInt < 2 ^ 63 - 1) :
    ∃ f, (NewRangeFilter Keccak256 b begin end_ addresses topics).Logs Keccak256 =
      some (f, rangeLogs receipts begin.toInt.toNat end_.toInt.toNat addresses topics, none) :=
  Logs_chain Keccak256 (f := NewRangeFilter Keccak256 b begin end_ addresses topics) hs rfl rfl
    hbegin hle hhead hmax

/-- Ten blocks of which every third holds one log of the address `5`. -/
def everyThirdReceipts (n : Nat) : List Receipt :=
  if n % 3 = 0 then [⟨[⟨5, [], n.toUInt64, 1⟩]⟩] else []

/-- Their header blooms, as `CreateBloom` makes them. -/
def everyThirdBlooms (n : Nat) : Bloom :=
  (CreateBloom firstByteHash (everyThirdReceipts n)).getD (Vector.replicate BloomByteLength 0)

/-- The full node's backend over those ten blocks, whose first eight are
indexed in one section. -/
def everyThirdBackend : Backend :=
  chainBackend 9 everyThirdReceipts everyThirdBlooms 8 1
    (fun bit s => committedRow everyThirdBlooms 8 s.toNat bit) fun _ => none

/-- A query for the address `5` over the blocks `2 ..= 9`: blocks `3` and `6`
come from the matcher, block `9` from the search one by one. -/
theorem Logs_returns_range_logs_of_every_third_block :
    ∃ f, (NewRangeFilter firstByteHash everyThirdBackend 2 9 [5] []).Logs firstByteHash =
      some (f, [⟨5, [], 3, 1⟩, ⟨5, [], 6, 1⟩, ⟨5, [], 9, 1⟩], none) := by
  have hbloom : ∀ n, CreateBloom firstByteHash (everyThirdReceipts n) = some (everyThirdBlooms n) :=
    fun n => by
      obtain ⟨bloom, h, -⟩ := CreateBloom_eq firstByteHash (everyThirdReceipts n)
      simp only [everyThirdBlooms, h, Option.getD_some]
  have hs : Serves firstByteHash everyThirdBackend 9 everyThirdReceipts everyThirdBlooms :=
    chainBackend_serves _ _ (fun n _ => hbloom n) (by decide)
      fun s _ => indexSection_eq_committedRow _ (by decide) s.toNat
  obtain ⟨f, h⟩ := Logs_returns_range_logs firstByteHash everyThirdBackend 9 everyThirdReceipts
    everyThirdBlooms hs 2 9 [5] [] (by decide) (by decide) (by decide) (by decide)
  have hlogs : rangeLogs everyThirdReceipts (2 : Int64).toInt.toNat (9 : Int64).toInt.toNat [5] [] =
      [⟨5, [], 3, 1⟩, ⟨5, [], 6, 1⟩, ⟨5, [], 9, 1⟩] := by
    decide +kernel
  exact ⟨f, hlogs ▸ h⟩

end Btp.Filters
