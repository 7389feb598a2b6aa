import Mathlib
import Btp.Common.Types
import Btp.Lib.WordCast

/-!
# The common-ancestor search

`calculateRequestSpan` and `Downloader.findAncestor` of
`btp/downloader/downloader.go`. Before a sync, the downloader looks for the
highest block it shares with a peer. It asks the peer for up to twelve headers
at most sixteen apart just below the peer's head, and takes the highest one it
has; if it has none of them, it searches by halving between a floor and the
peer's head, one header per request.

Go's `int` and `int64` are `Int64` here and its `uint64` is `UInt64`, with
their wrapping arithmetic; header numbers are `*big.Int`s, read through
`Int64()` and `Uint64()` as their low 64 bits. The peer is a function from a
request to what arrives for it first: all requests of one search are
different, so this covers a peer answering as it likes. Packets of other
peers and body or receipt deliveries are dropped by the loops and do not show.
The two loops of the search are given fuel: with a chain store whose parent
links go round, or heights near `2^64`, the Go loops need not end.

`maxForkAncestry` is a variable of the package (tests lower it) and a
parameter here.
-/

-- the downloader is downloader.Downloader in the source
set_option linter.dupNamespace false

namespace Btp.Downloader

open WordCast

/-- `SyncMode`. -/
inductive SyncMode
  | FullSync
  | FastSync
  | LightSync
  deriving DecidableEq, Repr

/-- A header as the search reads it: its number, its parent's hash and its
own hash (`Header.Hash()`). -/
structure Header where
  Number : Nat
  ParentHash : Hash
  Hash : Hash
  deriving DecidableEq, Repr

/-- The local chain: `d.blockchain` and `d.lightchain` (the same object in a
full node), by what the search asks of them. -/
structure LocalChain where
  CurrentBlock : Header
  CurrentFastBlock : Header
  CurrentHeader : Header
  HasBlock : Hash → UInt64 → Bool
  HasFastBlock : Hash → UInt64 → Bool
  HasHeader : Hash → UInt64 → Bool
  GbtpeaderByHash : Hash → Option Header

/-- The downloader, by the fields the search reads and writes. -/
structure Downloader where
  mode : SyncMode
  /-- `d.genesis`: the number of the first header of a light chain, `0`
  until it is looked for. -/
  genesis : UInt64
  chain : LocalChain

/-- The errors `findAncestor` returns; `panic` is the nil dereference of a
header `GbtpeaderByHash` does not find. -/
inductive DownloadError
  | errCanceled
  | errTimeout
  | errEmptyHeaderSet
  | errInvalidChain
  | errInvalidAncestor
  | errBadPeer
  | panic
  deriving DecidableEq, Repr

/-- `peer.RequestHeadersByNumber(origin, amount, skip, false)`. -/
structure Request where
  origin : UInt64
  amount : Int64
  skip : Int64
  deriving DecidableEq, Repr

/-- What the search takes from its channels after a request: the headers the
peer sent, or the timeout, or the cancel signal. -/
inductive Reply
  | headers (hs : List Header)
  | timeout
  | canceled
  deriving DecidableEq, Repr

/-- A peer, by what it answers to each request. -/
abbrev Peer := Request → Reply

/-- `MaxHeaderFetch`: the number of headers asked for in one request. -/
def MaxHeaderFetch : Int64 := 192

/-! ## The request span -/

/-- `calculateRequestSpan`: the first height `from` (here `origin`), the
`count` and the `skip` of the request for headers just below the remote head,
and `max`, the last height it asks for. -/
def calculateRequestSpan (remoteHeight localHeight : UInt64) : Int64 × Int64 × Int64 × UInt64 :=
  let MaxCount : Int64 := MaxHeaderFetch / 16
  let requestHead := remoteHeight.toInt64 - 1
  let requestHead := if requestHead < 0 then 0 else requestHead
  let requestBottom := (localHeight - 1).toInt64
  let requestBottom := if requestBottom < 0 then 0 else requestBottom
  let totalSpan := requestHead - requestBottom
  let span := 1 + totalSpan / MaxCount
  let span := if span < 2 then 2 else span
  let span := if span > 16 then 16 else span
  let count := 1 + totalSpan / span
  let count := if count > MaxCount then MaxCount else count
  let count := if count < 2 then 2 else count
  let origin := requestHead - (count - 1) * span
  let origin := if origin < 0 then 0 else origin
  let max := origin + (count - 1) * span
  (origin, count, span - 1, max.toUInt64)

/-! ## The search -/

/-- The local height the search starts from, by sync mode. -/
def Downloader.localHeight (d : Downloader) : UInt64 :=
  match d.mode with
  | .FullSync => d.chain.CurrentBlock.Number.toUInt64
  | .FastSync => d.chain.CurrentFastBlock.Number.toUInt64
  | .LightSync => d.chain.CurrentHeader.Number.toUInt64

/-- Whether the local chain has a header, by sync mode: `HasBlock`,
`HasFastBlock` or `HasHeader`. -/
def Downloader.known (d : Downloader) (h : Hash) (n : UInt64) : Bool :=
  match d.mode with
  | .FullSync => d.chain.HasBlock h n
  | .FastSync => d.chain.HasFastBlock h n
  | .LightSync => d.chain.HasHeader h n

/-- The loop that finds the first header of a light chain: from the head
down through the parents, until a header is at most one above `floor` or a
parent is missing; `d.genesis` is the number of the last header seen. -/
def findGenesis (chain : LocalChain) (floor : Int64) :
    Nat → Option Header → UInt64 → Option UInt64
  | _, none, genesis => some genesis
  | 0, some _, _ => none
  | fuel + 1, some header, _ =>
    let genesis := header.Number.toUInt64
    if floor ≥ genesis.toInt64 - 1 then some genesis
    else findGenesis chain floor fuel (chain.GbtpeaderByHash header.ParentHash) genesis

/-- The floor of the search, below which no ancestor is accepted, and the
downloader with `d.genesis` found in light mode. -/
def ancestorFloor (maxForkAncestry : UInt64) (d : Downloader) (fuel : Nat) :
    Option (Int64 × Downloader) :=
  let localHeight := d.localHeight
  let floor : Int64 :=
    if localHeight ≥ maxForkAncestry then (localHeight - maxForkAncestry).toInt64 else -1
  if d.mode = .LightSync then do
    let genesis ← if d.genesis = 0 then findGenesis d.chain floor fuel (some d.chain.CurrentHeader) 0
      else some d.genesis
    let floor := if floor < genesis.toInt64 - 1 then genesis.toInt64 - 1 else floor
    pure (floor, { d with genesis := genesis })
  else some (floor, d)

/-- Whether a reply conforms to the span request: header `i` is numbered
`from + i*(skip+1)`. -/
def conforms (origin skip : Int64) (headers : List Header) : Bool :=
  headers.zipIdx.all fun (header, i) => Int64.ofNat header.Number == origin + Int64.ofNat i * (skip + 1)

/-- The loop over the span reply from the last header down: the first header
within `[from, max]` that the local chain has gives the ancestor's number and
hash. -/
def scanKnown (d : Downloader) (origin : Int64) (max : UInt64) (headers : List Header) :
    Option (UInt64 × Hash) :=
  (headers.reverse.find? fun header =>
      !(Int64.ofNat header.Number < origin || header.Number.toUInt64 > max) &&
        d.known header.Hash header.Number.toUInt64).map
    fun header => (header.Number.toUInt64, header.Hash)

/-- The binary search between `start` and `end` (here `stop`), one header per
request, and the check of the result against the floor. -/
def binarySearch (d : Downloader) (peer : Peer) (floor : Int64) :
    Nat → UInt64 → UInt64 → Option (Except DownloadError UInt64)
  | 0, _, _ => none
  | fuel + 1, start, stop =>
    if start + 1 < stop then
      let check := (start + stop) / 2
      match peer ⟨check, 1, 0⟩ with
      | .canceled => some (.error .errCanceled)
      | .timeout => some (.error .errTimeout)
      | .headers [header] =>
        let h := header.Hash
        let n := header.Number.toUInt64
        if !d.known h n then binarySearch d peer floor fuel start check
        else
          -- independent of the sync mode, the header surely exists
          match d.chain.GbtpeaderByHash h with
          | none => some (.error .panic)
          | some stored =>
            if stored.Number.toUInt64 ≠ check then some (.error .errBadPeer)
            else binarySearch d peer floor fuel check stop
      | .headers _ => some (.error .errBadPeer)
    else if start.toInt64 ≤ floor then some (.error .errInvalidAncestor)
    else some (.ok start)

/-- What the search makes of the reply to the span request: an ancestor
found in it, or the binary search from the floor (or from `0`) to the remote
height. -/
def spanResult (d : Downloader) (peer : Peer) (floor : Int64) (remoteHeight : UInt64)
    (origin skip : Int64) (max : UInt64) (fuel : Nat) :
    Reply → Option (Except DownloadError UInt64)
  | .canceled => some (.error .errCanceled)
  | .timeout => some (.error .errTimeout)
  | .headers headers =>
    if headers.length = 0 then some (.error .errEmptyHeaderSet)
    else if !conforms origin skip headers then some (.error .errInvalidChain)
    else
      let (number, hash) := (scanKnown d origin max headers).getD (0, 0)
      if hash ≠ 0 then
        if number.toInt64 ≤ floor then some (.error .errInvalidAncestor)
        else some (.ok number)
      else
        let start : UInt64 := if floor > 0 then floor.toUInt64 else 0
        binarySearch d peer floor fuel start remoteHeight

/-- `Downloader.findAncestor`: the number of the common ancestor with the
peer whose head is `remoteHeader`, and the downloader after it. -/
def findAncestor (maxForkAncestry : UInt64) (d : Downloader) (peer : Peer)
    (remoteHeader : Header) (fuel : Nat) : Option (Except DownloadError UInt64 × Downloader) := do
  let remoteHeight := remoteHeader.Number.toUInt64
  let (floor, d) ← ancestorFloor maxForkAncestry d fuel
  let (origin, count, skip, max) := calculateRequestSpan remoteHeight d.localHeight
  let r ← spanResult d peer floor remoteHeight origin skip max fuel
    (peer ⟨origin.toUInt64, count, skip⟩)
  pure (r, d)

/-! ## The bounds of the span -/

/-- What `calculateRequestSpan` guarantees: two to twelve headers, two to
sixteen apart, from a height that is not negative; `max` the last of them and
at least the request head, which it is unless the span starts at `0`. -/
structure SpanBounds (requestHead : Int) (origin count skip : Int64) (max : UInt64) : Prop where
  two_le_count : 2 ≤ count.toInt
  count_le : count.toInt ≤ 12
  one_le_skip : 1 ≤ skip.toInt
  skip_le : skip.toInt ≤ 15
  origin_nonneg : 0 ≤ origin.toInt
  max_eq : (max.toNat : Int) = origin.toInt + (count.toInt - 1) * (skip.toInt + 1)
  head_le_max : requestHead ≤ max.toNat
  max_eq_head : origin.toInt = 0 ∨ (max.toNat : Int) = requestHead

theorem calculateRequestSpan_bounds (remoteHeight localHeight : UInt64) {origin count skip : Int64}
    {max : UInt64} (h : calculateRequestSpan remoteHeight localHeight = (origin, count, skip, max)) :
    SpanBounds (Max.max (remoteHeight.toInt64 - 1).toInt 0) origin count skip max := by
  simp only [calculateRequestSpan, Prod.mk.injEq] at h
  obtain ⟨rfl, rfl, rfl, rfl⟩ := h
  have h0 : (0 : Int64).toInt = 0 := rfl
  have h1 : (1 : Int64).toInt = 1 := rfl
  have h2 : (2 : Int64).toInt = 2 := rfl
  have h16 : (16 : Int64).toInt = 16 := rfl
  have h12 : (MaxHeaderFetch / 16).toInt = 12 := rfl
  -- the words of the source, inner first, each with what is known of its value
  generalize hhead : (if remoteHeight.toInt64 - 1 < 0 then 0 else remoteHeight.toInt64 - 1) = head
  have hhead' : head.toInt = Max.max (remoteHeight.toInt64 - 1).toInt 0 := by
    rw [← hhead, toInt_raise, h0]
  generalize hbottom : (if (localHeight - 1).toInt64 < 0 then 0 else (localHeight - 1).toInt64) = bottom
  have hbottom' : 0 ≤ bottom.toInt := by
    rw [← hbottom, toInt_raise, h0]
    omega
  have hheadlt := Int64.toInt_lt head
  have hbottomlt := Int64.toInt_lt bottom
  generalize 1 + (head - bottom) / (MaxHeaderFetch / 16) = span0
  generalize hspan1 : (if span0 < 2 then 2 else span0) = span1
  generalize hspan : (if span1 > 16 then 16 else span1) = span
  have hspan' : 2 ≤ span.toInt ∧ span.toInt ≤ 16 := by
    rw [← hspan, toInt_cap, ← hspan1, toInt_raise, h2, h16]
    omega
  generalize 1 + (head - bottom) / span = count0
  generalize hcount1 : (if count0 > MaxHeaderFetch / 16 then MaxHeaderFetch / 16 else count0) = count1
  generalize hcount : (if count1 < 2 then 2 else count1) = count
  have hcount' : 2 ≤ count.toInt ∧ count.toInt ≤ 12 := by
    rw [← hcount, toInt_raise, ← hcount1, toInt_cap, h2, h12]
    omega
  -- the distance from the first header to the last
  have hc : (count - 1).toInt = count.toInt - 1 := by
    rw [toInt_sub_of_range] <;> omega
  have hd : ((count - 1) * span).toInt = (count.toInt - 1) * span.toInt := by
    rw [toInt_mul_of_range] <;> rw [hc] <;> nlinarith
  generalize hd' : (count - 1) * span = dist at hd
  have hdist : 2 ≤ dist.toInt ∧ dist.toInt ≤ 176 := by
    rw [hd]
    constructor <;> nlinarith
  generalize horigin : (if head - dist < 0 then 0 else head - dist) = origin
  have horigin' : origin.toInt = Max.max (head.toInt - dist.toInt) 0 := by
    rw [← horigin, toInt_raise, h0, toInt_sub_of_range] <;> omega
  have hmax : (origin + dist).toInt = origin.toInt + dist.toInt := by
    rw [toInt_add_of_range] <;> omega
  have hskip : (span - 1).toInt = span.toInt - 1 := by
    rw [toInt_sub_of_range] <;> omega
  have hmaxNat : ((origin + dist).toUInt64.toNat : Int) = origin.toInt + dist.toInt := by
    rw [toNat_toUInt64 (by omega), hmax]
    omega
  refine ⟨hcount'.1, hcount'.2, by omega, by omega, by omega, ?_, by omega, by omega⟩
  rw [hmaxNat, hskip, hd]
  ring

/-! ## The binary search, round by round -/

section Search

variable {d : Downloader} {peer : Peer} {floor : Int64} {fuel : Nat} {start stop : UInt64}

/-- The search ends once the interval is down to one height. -/
theorem binarySearch_done (h : ¬ start + 1 < stop) :
    binarySearch d peer floor (fuel + 1) start stop =
      if start.toInt64 ≤ floor then some (.error .errInvalidAncestor) else some (.ok start) := by
  rw [binarySearch, if_neg h]

/-- A header the local chain lacks lowers the top of the interval. -/
theorem binarySearch_unknown {header : Header} (h : start + 1 < stop)
    (hp : peer ⟨(start + stop) / 2, 1, 0⟩ = .headers [header])
    (hk : d.known header.Hash header.Number.toUInt64 = false) :
    binarySearch d peer floor (fuel + 1) start stop =
      binarySearch d peer floor fuel start ((start + stop) / 2) := by
  rw [binarySearch, if_pos h]
  simp only [hp, hk, Bool.not_false, if_true]

/-- A header the local chain has at the height asked for raises the bottom
of the interval. -/
theorem binarySearch_known {header stored : Header} (h : start + 1 < stop)
    (hp : peer ⟨(start + stop) / 2, 1, 0⟩ = .headers [header])
    (hk : d.known header.Hash header.Number.toUInt64 = true)
    (hs : d.chain.GbtpeaderByHash header.Hash = some stored)
    (hn : stored.Number.toUInt64 = (start + stop) / 2) :
    binarySearch d peer floor (fuel + 1) start stop =
      binarySearch d peer floor fuel ((start + stop) / 2) stop := by
  rw [binarySearch, if_pos h]
  simp only [hp, hk, hs, hn, Bool.not_true, ne_eq, not_true_eq_false, if_false]
  rfl

/-- One round of the search that ends in an ancestor, by what it can have
done. -/
theorem binarySearch_succ_ok {n : UInt64} (h : binarySearch d peer floor (fuel + 1) start stop = some (.ok n)) :
    (¬ start + 1 < stop ∧ floor < start.toInt64 ∧ n = start) ∨
    (start + 1 < stop ∧ ∃ header, peer ⟨(start + stop) / 2, 1, 0⟩ = .headers [header] ∧
      ((d.known header.Hash header.Number.toUInt64 = false ∧
          binarySearch d peer floor fuel start ((start + stop) / 2) = some (.ok n)) ∨
        (∃ stored, d.known header.Hash header.Number.toUInt64 = true ∧
          d.chain.GbtpeaderByHash header.Hash = some stored ∧
          stored.Number.toUInt64 = (start + stop) / 2 ∧
          binarySearch d peer floor fuel ((start + stop) / 2) stop = some (.ok n)))) := by
  by_cases hlt : start + 1 < stop
  · refine .inr ⟨hlt, ?_⟩
    rw [binarySearch, if_pos hlt] at h
    dsimp only at h
    split at h
    · cases h
    · cases h
    · rename_i header hp
      refine ⟨header, hp, ?_⟩
      split at h
      next hk => exact .inl ⟨by simpa using hk, h⟩
      next hk =>
        split at h
        · cases h
        · rename_i stored hs
          split at h
          · cases h
          next hn => exact .inr ⟨stored, by simpa using hk, hs, by simpa using hn, h⟩
    · cases h
  · rw [binarySearch_done hlt] at h
    split at h
    · cases h
    · rename_i hfloor
      rw [Int64.le_iff_toInt_le] at hfloor
      exact .inl ⟨hlt, Int64.lt_iff_toInt_lt.2 (by omega), (Except.ok.inj (Option.some.inj h)).symm⟩

/-- The height asked for lies below the top of the interval, also when
`start + stop` wraps. -/
theorem check_lt_stop (h : start + 1 < stop) : (start + stop) / 2 < stop := by
  have h1 : (1 : UInt64).toNat = 1 := rfl
  have h2 : (2 : UInt64).toNat = 2 := rfl
  have hs := UInt64.toNat_lt start
  have ht := UInt64.toNat_lt stop
  rw [UInt64.lt_iff_toNat_lt, UInt64.toNat_add, h1] at h
  rw [UInt64.lt_iff_toNat_lt, UInt64.toNat_div, UInt64.toNat_add, h2]
  omega

/-- The peer sent, when asked for height `n`, a header that the local chain
has, stored at height `n`. -/
def AskedAndStored (d : Downloader) (peer : Peer) (n : UInt64) : Prop :=
  ∃ header stored, peer ⟨n, 1, 0⟩ = .headers [header] ∧
    d.known header.Hash header.Number.toUInt64 = true ∧
    d.chain.GbtpeaderByHash header.Hash = some stored ∧ stored.Number.toUInt64 = n

/-- The heights the binary search accepts: above the floor, and either the
bottom it started from or a height below its top that was asked for and is
stored. -/
theorem binarySearch_ok : ∀ {fuel : Nat} {start stop n : UInt64},
    binarySearch d peer floor fuel start stop = some (.ok n) →
      floor < n.toInt64 ∧ (n = start ∨ n < stop ∧ AskedAndStored d peer n)
  | 0, _, _, _, h => by cases h
  | fuel + 1, start, stop, n, h => by
    rcases binarySearch_succ_ok h with ⟨-, hfloor, rfl⟩ | ⟨hlt, header, hp, ⟨-, hrec⟩ | ⟨stored, hk, hs, hn, hrec⟩⟩
    · exact ⟨hfloor, .inl rfl⟩
    · -- the top came down to the height asked for
      obtain ⟨hfloor, hn | ⟨hn, hasked⟩⟩ := binarySearch_ok hrec
      · exact ⟨hfloor, .inl hn⟩
      · have hc := check_lt_stop hlt
        rw [UInt64.lt_iff_toNat_lt] at hn hc
        exact ⟨hfloor, .inr ⟨UInt64.lt_iff_toNat_lt.2 (by omega), hasked⟩⟩
    · -- the bottom went up to the height asked for, whose header is stored
      obtain ⟨hfloor, rfl | ⟨hn', hasked⟩⟩ := binarySearch_ok hrec
      · exact ⟨hfloor, .inr ⟨check_lt_stop hlt, header, stored, hp, hk, hs, hn⟩⟩
      · exact ⟨hfloor, .inr ⟨hn', hasked⟩⟩

/-- What the scan of the span reply finds: a header of the reply, numbered at
most `max`, that the local chain has. -/
theorem scanKnown_some {origin : Int64} {max n : UInt64} {hash : Hash} {headers : List Header}
    (h : scanKnown d origin max headers = some (n, hash)) :
    ∃ header ∈ headers, header.Number.toUInt64 = n ∧ header.Hash = hash ∧
      d.known hash n = true ∧ n ≤ max := by
  unfold scanKnown at h
  obtain ⟨header, hfind, heq⟩ := Option.map_eq_some_iff.1 h
  have hmem := List.mem_reverse.1 (List.mem_of_find?_eq_some hfind)
  have hp := List.find?_some hfind
  simp only [Prod.mk.injEq] at heq
  obtain ⟨rfl, rfl⟩ := heq
  simp only [Bool.and_eq_true, Bool.not_eq_true', Bool.or_eq_false_iff, decide_eq_false_iff_not] at hp
  refine ⟨header, hmem, rfl, rfl, hp.2, ?_⟩
  have hle := hp.1.2
  rw [gt_iff_lt, UInt64.lt_iff_toNat_lt] at hle
  exact UInt64.le_iff_toNat_le.2 (by omega)

/-- The ancestors the search takes from the span reply or from the binary
search after it. -/
theorem spanResult_ok {remoteHeight max n : UInt64} {origin skip : Int64} {reply : Reply}
    (h : spanResult d peer floor remoteHeight origin skip max fuel reply = some (.ok n)) :
    floor < n.toInt64 ∧
      ((∃ headers header, reply = .headers headers ∧ header ∈ headers ∧
          header.Number.toUInt64 = n ∧ d.known header.Hash n = true ∧ n ≤ max) ∨
        n = (if floor > 0 then floor.toUInt64 else 0) ∨ (n < remoteHeight ∧ AskedAndStored d peer n)) := by
  cases reply with
  | canceled => cases h
  | timeout => cases h
  | headers headers =>
    rw [spanResult] at h
    by_cases hempty : headers.length = 0
    · rw [if_pos hempty] at h
      cases h
    rw [if_neg hempty] at h
    by_cases hconf : (!conforms origin skip headers) = true
    · rw [if_pos hconf] at h
      cases h
    rw [if_neg hconf] at h
    cases hscan : scanKnown d origin max headers with
    | none =>
      -- nothing known in the span: the binary search from the floor
      simp only [hscan, Option.getD_none, ne_eq, not_true_eq_false, if_false] at h
      obtain ⟨hfloor, hn | hn⟩ := binarySearch_ok h
      · exact ⟨hfloor, .inr (.inl hn)⟩
      · exact ⟨hfloor, .inr (.inr hn)⟩
    | some found =>
      obtain ⟨number, hash⟩ := found
      simp only [hscan, Option.getD_some] at h
      by_cases hhash : hash ≠ 0
      · rw [if_pos hhash] at h
        by_cases hfloor : number.toInt64 ≤ floor
        · rw [if_pos hfloor] at h
          cases h
        rw [if_neg hfloor] at h
        obtain ⟨header, hmem, hn, rfl, hk, hmax⟩ := scanKnown_some hscan
        cases h
        rw [Int64.le_iff_toInt_le] at hfloor
        exact ⟨Int64.lt_iff_toInt_lt.2 (by omega), .inl ⟨headers, header, rfl, hmem, hn, hk, hmax⟩⟩
      · -- a known header of hash zero counts as none
        rw [if_neg hhash] at h
        obtain ⟨hfloor, hn | hn⟩ := binarySearch_ok h
        · exact ⟨hfloor, .inr (.inl hn)⟩
        · exact ⟨hfloor, .inr (.inr hn)⟩

/-! ## What the search accepts, from any peer -/

/-- The parts of a run of `findAncestor`: the floor, the span it asked for
and what it made of the reply. -/
theorem findAncestor_eq_some {maxForkAncestry : UInt64} {remoteHeader : Header}
    {r : Except DownloadError UInt64} {d' : Downloader}
    (h : findAncestor maxForkAncestry d peer remoteHeader fuel = some (r, d')) :
    ∃ floor origin count skip max, ancestorFloor maxForkAncestry d fuel = some (floor, d') ∧
      calculateRequestSpan remoteHeader.Number.toUInt64 d'.localHeight = (origin, count, skip, max) ∧
      spanResult d' peer floor remoteHeader.Number.toUInt64 origin skip max fuel
        (peer ⟨origin.toUInt64, count, skip⟩) = some r := by
  unfold findAncestor at h
  simp only [Option.bind_eq_bind, Option.bind_eq_some_iff] at h
  obtain ⟨⟨floor, d₁⟩, hfloor, r₁, hspan, heq⟩ := h
  obtain ⟨rfl, rfl⟩ : r₁ = r ∧ d₁ = d' := by simpa using heq
  exact ⟨floor, _, _, _, _, hfloor, rfl, hspan⟩

/-- A height `findAncestor` may accept. -/
inductive Accepted (d : Downloader) (peer : Peer) (span : Request) (max remoteHeight : UInt64)
    (floor : Int64) : UInt64 → Prop
  /-- A header of the reply to the span request, numbered at most `max`, that
  the local chain has. -/
  | span {headers : List Header} {header : Header} : peer span = .headers headers →
      header ∈ headers → d.known header.Hash header.Number.toUInt64 = true →
      header.Number.toUInt64 ≤ max → Accepted d peer span max remoteHeight floor header.Number.toUInt64
  /-- A height below the remote head that the binary search asked for and
  the local chain has. -/
  | search {n : UInt64} : n < remoteHeight → AskedAndStored d peer n →
      Accepted d peer span max remoteHeight floor n
  /-- The bottom of the binary search, never asked about, when the floor is
  negative. -/
  | unchecked : floor < 0 → Accepted d peer span max remoteHeight floor 0

/-- Against any peer, `findAncestor` accepts a height above the floor, and
one the peer reported as a header the local chain has, or else `0`
unchecked. -/
theorem findAncestor_ok {maxForkAncestry : UInt64} {remoteHeader : Header} {n : UInt64}
    {d' : Downloader} (h : findAncestor maxForkAncestry d peer remoteHeader fuel = some (.ok n, d')) :
    ∃ floor origin count skip max, ancestorFloor maxForkAncestry d fuel = some (floor, d') ∧
      calculateRequestSpan remoteHeader.Number.toUInt64 d'.localHeight = (origin, count, skip, max) ∧
      floor < n.toInt64 ∧
      Accepted d' peer ⟨origin.toUInt64, count, skip⟩ max remoteHeader.Number.toUInt64 floor n := by
  obtain ⟨floor, origin, count, skip, max, hfloor, hspan, hres⟩ := findAncestor_eq_some h
  refine ⟨floor, origin, count, skip, max, hfloor, hspan, ?_⟩
  obtain ⟨hlt, ⟨headers, header, hp, hmem, rfl, hk, hmax⟩ | hn | ⟨hn, hasked⟩⟩ := spanResult_ok hres
  · exact ⟨hlt, .span hp hmem hk hmax⟩
  · -- the bottom of the binary search: the floor itself is refused, so it was `0`
    by_cases hpos : floor > 0
    · rw [if_pos hpos] at hn
      subst hn
      rw [Int64.toInt64_toUInt64, Int64.lt_iff_toInt_lt] at hlt
      omega
    · rw [if_neg hpos] at hn
      subst hn
      refine ⟨hlt, .unchecked ?_⟩
      rw [Int64.lt_iff_toInt_lt] at hlt ⊢
      exact hlt
  · exact ⟨hlt, .search hn hasked⟩

end Search

/-! ## Honest peers -/

/-- A peer serving a chain, `headerAt k` its header at height `k`, up to its
head: a request gets the headers at the heights it names that the peer has. -/
def servingPeer (headerAt : Nat → Header) (head : Nat) : Peer := fun req =>
  .headers ((((List.range req.amount.toNatClampNeg).map fun i =>
    req.origin.toNat + i * (req.skip.toNatClampNeg + 1)).filter (· ≤ head)).map headerAt)

/-- The setting of an honest peer: it serves the chain `headerAt`, numbered
by height, up to its head `head`, and the local chain has its headers exactly
up to `H`, stored at their heights. -/
structure Honest (d : Downloader) (headerAt : Nat → Header) (head H : Nat) : Prop where
  number : ∀ k, (headerAt k).Number = k
  head_lt : head < 2 ^ 63
  le_head : H ≤ head
  known : ∀ k ≤ head, d.known (headerAt k).Hash k.toUInt64 = decide (k ≤ H)
  stored : ∀ k ≤ H, ∃ stored, d.chain.GbtpeaderByHash (headerAt k).Hash = some stored ∧ stored.Number = k
  hash_ne : ∀ k ≤ H, (headerAt k).Hash ≠ 0

section HonestSearch

variable {d : Downloader} {headerAt : Nat → Header} {head H : Nat} {floor : Int64}

theorem servingPeer_one {c : UInt64} (hc : c.toNat ≤ head) :
    servingPeer headerAt head ⟨c, 1, 0⟩ = .headers [headerAt c.toNat] := by
  simp [servingPeer, hc]

/-- The halfway height, which does not wrap below `2^63`. -/
theorem check_toNat {start stop : UInt64} (hs : start.toNat < 2 ^ 63) (ht : stop.toNat < 2 ^ 63) :
    ((start + stop) / 2).toNat = (start.toNat + stop.toNat) / 2 := by
  have h2 : (2 : UInt64).toNat = 2 := rfl
  rw [UInt64.toNat_div, UInt64.toNat_add, Nat.mod_eq_of_lt (by omega), h2]

/-- A round of the binary search against an honest peer: the bottom moves up
to the halfway height when the local chain has the peer's header there, and
the top comes down to it when not. -/
theorem binarySearch_honest_step (hh : Honest d headerAt head H) {fuel : Nat} {start stop : UInt64}
    (hlt : start + 1 < stop) (hstop : stop.toNat ≤ head) :
    binarySearch d (servingPeer headerAt head) floor (fuel + 1) start stop =
      if ((start + stop) / 2).toNat ≤ H then
        binarySearch d (servingPeer headerAt head) floor fuel ((start + stop) / 2) stop
      else binarySearch d (servingPeer headerAt head) floor fuel start ((start + stop) / 2) := by
  have hc := check_lt_stop hlt
  rw [UInt64.lt_iff_toNat_lt] at hc
  have hp : servingPeer headerAt head ⟨(start + stop) / 2, 1, 0⟩ =
      .headers [headerAt ((start + stop) / 2).toNat] := servingPeer_one (by omega)
  have hnum : (headerAt ((start + stop) / 2).toNat).Number.toUInt64 = (start + stop) / 2 := by
    rw [hh.number]
    exact UInt64.ofNat_toNat
  have hk := hh.known _ (show ((start + stop) / 2).toNat ≤ head by omega)
  split_ifs with hcH
  · obtain ⟨stored, hs, hsn⟩ := hh.stored _ hcH
    refine binarySearch_known hlt hp ?_ hs ?_
    · rw [hh.number, hk, decide_eq_true hcH]
    · rw [hsn]
      exact UInt64.ofNat_toNat
  · refine binarySearch_unknown hlt hp ?_
    rw [hh.number, hk, decide_eq_false hcH]

theorem one_add_lt_iff {start stop : UInt64} (hs : start.toNat < 2 ^ 63) :
    start + 1 < stop ↔ start.toNat + 1 < stop.toNat := by
  have h1 : (1 : UInt64).toNat = 1 := rfl
  rw [UInt64.lt_iff_toNat_lt, UInt64.toNat_add, h1, Nat.mod_eq_of_lt (by omega)]

/-- The search stops at `H` once the interval is down to it. -/
theorem binarySearch_honest_done (hh : Honest d headerAt head H) {fuel : Nat} {start stop : UInt64}
    (hs : start.toNat ≤ H) (hH : H < stop.toNat) (hlt : ¬ start + 1 < stop) :
    binarySearch d (servingPeer headerAt head) floor (fuel + 1) start stop =
      if H.toUInt64.toInt64 ≤ floor then some (.error .errInvalidAncestor)
      else some (.ok H.toUInt64) := by
  have hhead := hh.head_lt
  have hle := hh.le_head
  rw [one_add_lt_iff (by omega)] at hlt
  obtain rfl : start = H.toUInt64 := by
    rw [← UInt64.ofNat_toNat (x := start)]
    congr 1
    omega
  rw [binarySearch_done (by rw [one_add_lt_iff (by omega)]; omega)]

/-- Against an honest peer, a binary search whose interval holds `H`, from
its bottom up, ends at `H` when it has a round for each halving. -/
theorem binarySearch_honest_finds (hh : Honest d headerAt head H) (n : Nat) :
    ∀ {start stop : UInt64}, start.toNat ≤ H → H < stop.toNat → stop.toNat ≤ head →
      stop.toNat - start.toNat ≤ 2 ^ n →
      binarySearch d (servingPeer headerAt head) floor (n + 1) start stop =
        if H.toUInt64.toInt64 ≤ floor then some (.error .errInvalidAncestor)
        else some (.ok H.toUInt64) := by
  have hhead := hh.head_lt
  induction n with
  | zero =>
    intro start stop hs hH hstop hlen
    -- one height is left, and it is `H`
    refine binarySearch_honest_done hh hs hH ?_
    rw [one_add_lt_iff (by omega)]
    simp at hlen
    omega
  | succ n ih =>
    intro start stop hs hH hstop hlen
    by_cases hlt : start + 1 < stop
    · -- each round halves the interval
      have hct : ((start + stop) / 2).toNat = (start.toNat + stop.toNat) / 2 :=
        check_toNat (by omega) (by omega)
      rw [pow_succ] at hlen
      rw [binarySearch_honest_step hh hlt hstop]
      by_cases hcH : ((start + stop) / 2).toNat ≤ H
      · rw [if_pos hcH]
        exact ih hcH hH hstop (by rw [hct]; omega)
      · rw [if_neg hcH]
        exact ih hs (by omega) (by omega) (by rw [hct]; omega)
    · exact binarySearch_honest_done hh hs hH hlt

/-- Against an honest peer, a binary search whose bottom is above `H` never
moves its bottom. -/
theorem binarySearch_honest_above (hh : Honest d headerAt head H) (n : Nat) :
    ∀ {start stop : UInt64}, H < start.toNat → start.toNat < 2 ^ 63 → stop.toNat ≤ head →
      stop.toNat - start.toNat ≤ 2 ^ n →
      binarySearch d (servingPeer headerAt head) floor (n + 1) start stop =
        if start.toInt64 ≤ floor then some (.error .errInvalidAncestor) else some (.ok start) := by
  have hhead := hh.head_lt
  induction n with
  | zero =>
    intro start stop hH hs hstop hlen
    refine binarySearch_done ?_
    rw [one_add_lt_iff hs]
    simp at hlen
    omega
  | succ n ih =>
    intro start stop hH hs hstop hlen
    by_cases hlt : start + 1 < stop
    · -- every height asked for is above `H`: the top comes down
      have hct : ((start + stop) / 2).toNat = (start.toNat + stop.toNat) / 2 :=
        check_toNat hs (by omega)
      rw [one_add_lt_iff hs] at hlt
      rw [pow_succ] at hlen
      rw [binarySearch_honest_step hh ((one_add_lt_iff hs).2 hlt) hstop,
        if_neg (by rw [hct]; omega)]
      exact ih hH hs (by rw [hct]; omega) (by rw [hct]; omega)
    · exact binarySearch_done hlt

end HonestSearch

/-- Filtering a list mapped from `0, …, c-1` by a predicate that holds
exactly below `k` keeps its first `k` elements. -/
theorem filter_map_range {α : Type} {g : Nat → α} {p : α → Bool} :
    ∀ {c k : Nat}, k ≤ c → (∀ i < c, p (g i) = decide (i < k)) →
      ((List.range c).map g).filter p = (List.range k).map g
  | 0, k, hk, _ => by
    obtain rfl : k = 0 := by omega
    rfl
  | c + 1, k, hk, hp => by
    rw [List.range_succ, List.map_append, List.filter_append]
    by_cases hkc : k = c + 1
    · subst hkc
      rw [filter_map_range (le_refl c) (fun i hi => by rw [hp i (by omega)]; simp; omega)]
      simp [hp c (by omega), List.range_succ]
    · rw [filter_map_range (by omega) (fun i hi => hp i (by omega))]
      simp [hp c (by omega)]
      omega

/-- The number of heights `o, o + s, o + 2s, …` up to `b`. -/
def below (o s b : Nat) : Nat := if o ≤ b then (b - o) / s + 1 else 0

theorem add_mul_le_iff {o s b i : Nat} (hs : 0 < s) : o + i * s ≤ b ↔ i < below o s b := by
  unfold below
  split_ifs with h
  · rw [Nat.lt_succ_iff, Nat.le_div_iff_mul_le hs]
    omega
  · omega

/-! ## The span against an honest peer -/

section HonestSpan

variable {d : Downloader} {headerAt : Nat → Header} {head H : Nat}

/-- The reply of an honest peer to the span request: its headers at
`o, o + s, …`, as many of the `c` asked for as it has. -/
theorem servingPeer_span {origin count skip : Int64} {o s c : Nat}
    (ho : origin.toInt = o) (hs : skip.toInt + 1 = s) (hc : count.toInt = c) (hs0 : 0 < s) :
    servingPeer headerAt head ⟨origin.toUInt64, count, skip⟩ =
      .headers ((List.range (min c (below o s head))).map fun i => headerAt (o + i * s)) := by
  have horigin : origin.toUInt64.toNat = o := by
    rw [toNat_toUInt64 (by omega), ho]
    rfl
  have hcount : count.toNatClampNeg = c := by
    show count.toInt.toNat = c
    omega
  have hskip : skip.toNatClampNeg + 1 = s := by
    show skip.toInt.toNat + 1 = s
    omega
  unfold servingPeer
  simp only [horigin, hcount, hskip]
  rw [filter_map_range (min_le_left _ _) (fun i hi => ?_), List.map_map]
  · rfl
  · rw [decide_eq_decide, add_mul_le_iff hs0]
    omega

/-- The headers at `o, o + s, …` conform to the span request from `o` with
`s - 1` skipped, when the heights stay below `2^63`. -/
theorem conforms_span (hh : Honest d headerAt head H) {origin skip : Int64} {o s k : Nat}
    (ho : origin.toInt = o) (hs : skip.toInt + 1 = s) (hs16 : s ≤ 16) (hk : k ≤ 12)
    (hlast : o + (k - 1) * s < 2 ^ 63) :
    conforms origin skip ((List.range k).map fun i => headerAt (o + i * s)) = true := by
  unfold conforms
  rw [List.all_eq_true]
  rintro ⟨header, i⟩ hmem
  rw [List.mem_zipIdx_iff_getElem?, List.getElem?_map] at hmem
  have hi : i < k := by
    by_contra hik
    rw [List.getElem?_eq_none (by simpa using hik)] at hmem
    cases hmem
  rw [List.getElem?_range hi] at hmem
  obtain rfl : headerAt (o + i * s) = header := Option.some.inj hmem
  -- both sides read as the height `o + i*s`
  have his : i * s ≤ (k - 1) * s := Nat.mul_le_mul_right s (by omega)
  have hskip : (skip + 1).toInt = s := by
    rw [toInt_add_of_range] <;> simp only [Int64.toInt_one] <;> omega
  have hmul : (Int64.ofNat i * (skip + 1)).toInt = i * s := by
    rw [toInt_mul_of_range, Int64.toInt_ofNat_of_lt (by omega), hskip] <;>
      rw [Int64.toInt_ofNat_of_lt (by omega), hskip] <;> push_cast <;> nlinarith
  simp only [hh.number, beq_iff_eq]
  rw [← Int64.toInt_inj, Int64.toInt_ofNat_of_lt (by omega),
    toInt_add_of_range (by rw [hmul]; omega) (by rw [hmul]; omega), hmul, ho]
  push_cast
  ring

/-- The number of heights of the progression up to `b` grows with `b`. -/
theorem below_mono {o s b b' : Nat} (h : b ≤ b') : below o s b ≤ below o s b' := by
  unfold below
  by_cases h1 : o ≤ b
  · rw [if_pos h1, if_pos (le_trans h1 h)]
    exact Nat.succ_le_succ (Nat.div_le_div_right (by omega))
  · rw [if_neg h1]
    exact Nat.zero_le _

/-- The scan of an honest span reply finds the highest height of the
progression that the local chain has, the last of those up to `H`. -/
theorem scanKnown_span (hh : Honest d headerAt head H) {origin : Int64} {max : UInt64} {o s k : Nat}
    (ho : origin.toInt = o) (hs0 : 0 < s) (hk : k ≤ below o s head)
    (hmax : o + (k - 1) * s ≤ max.toNat) (h63 : max.toNat < 2 ^ 63) :
    scanKnown d origin max ((List.range k).map fun i => headerAt (o + i * s)) =
      if min k (below o s H) = 0 then none
      else some ((o + (min k (below o s H) - 1) * s).toUInt64,
        (headerAt (o + (min k (below o s H) - 1) * s)).Hash) := by
  unfold scanKnown
  rw [← List.getLast?_filter,
    filter_map_range (min_le_left k (below o s H)) (fun i hi => ?_), List.getLast?_map, List.getLast?_range]
  · split_ifs <;> simp [hh.number]
  · -- a height of the reply is in the span, and the local chain has it up to `H`
    have his : i * s ≤ (k - 1) * s := Nat.mul_le_mul_right s (by omega)
    have hhead : o + i * s ≤ head := (add_mul_le_iff hs0).2 (by omega)
    have hlow : ¬ Int64.ofNat (o + i * s) < origin := by
      rw [Int64.lt_iff_toInt_lt, Int64.toInt_ofNat_of_lt (by omega), ho]
      omega
    have hhigh : ¬ (o + i * s).toUInt64 > max := by
      rw [gt_iff_lt, UInt64.lt_iff_toNat_lt, Nat.toUInt64, UInt64.toNat_ofNat', Nat.mod_eq_of_lt (by omega)]
      omega
    simp only [hh.number, hh.known _ hhead, hlow, hhigh, decide_false,
      Bool.or_false, Bool.not_false, Bool.true_and, decide_eq_decide]
    rw [add_mul_le_iff hs0]
    omega

/-- Against an honest peer, the binary search from the floor (or `0`) to the
peer's head ends at `H`, checked against the floor, when `H` is below the
head. -/
theorem binarySearch_honest_from_floor (hh : Honest d headerAt head H) {floor : Int64} {fuel : Nat}
    (hH : H < head) (hfuel : 64 ≤ fuel) :
    binarySearch d (servingPeer headerAt head) floor fuel
        (if floor > 0 then floor.toUInt64 else 0) head.toUInt64 =
      if H.toUInt64.toInt64 ≤ floor then some (.error .errInvalidAncestor)
      else some (.ok H.toUInt64) := by
  have hhead := hh.head_lt
  obtain ⟨m, rfl⟩ : ∃ m, fuel = m + 1 := ⟨fuel - 1, by omega⟩
  have hstop : head.toUInt64.toNat = head := by
    rw [Nat.toUInt64, UInt64.toNat_ofNat', Nat.mod_eq_of_lt (by omega)]
  have hpow : head ≤ 2 ^ m :=
    le_trans (le_of_lt hhead) (Nat.pow_le_pow_right (by norm_num) (by omega))
  have hH' : H.toUInt64.toInt64.toInt = H := toInt_toInt64_toUInt64 (by omega)
  by_cases hpos : floor > 0
  · rw [if_pos hpos]
    have hstart : floor.toUInt64.toNat = floor.toInt.toNat := toNat_toUInt64 (by
      rw [gt_iff_lt, Int64.lt_iff_toInt_lt] at hpos
      exact le_of_lt hpos)
    by_cases hfH : floor.toInt ≤ H
    · exact binarySearch_honest_finds hh m (by omega) (by omega) (by omega) (by omega)
    · -- the floor is above `H`: the bottom never moves and is refused
      have hlt := Int64.toInt_lt floor
      rw [binarySearch_honest_above hh m (by omega) (by omega) (by omega) (by omega),
        Int64.toInt64_toUInt64, if_pos (Int64.le_iff_toInt_le.2 (le_refl _)), if_pos]
      rw [Int64.le_iff_toInt_le, hH']
      omega
  · rw [if_neg hpos]
    exact binarySearch_honest_finds hh m (by simp) (by omega) (by omega) (by omega)

/-- Against an honest peer, the span reply and the binary search after it
give a height `n` between `H - 15` and `H`, and `H` itself when `H` is below the
span, checked against the floor. -/
theorem spanResult_honest (hh : Honest d headerAt head H) {floor origin count skip : Int64}
    {max : UInt64} (hb : SpanBounds (Max.max ((head : Int) - 1) 0) origin count skip max)
    {fuel : Nat} (hfuel : 64 ≤ fuel) :
    ∃ n : Nat, n ≤ H ∧ H ≤ n + 15 ∧ (H < origin.toInt → n = H) ∧
      spanResult d (servingPeer headerAt head) floor head.toUInt64 origin skip max fuel
          (servingPeer headerAt head ⟨origin.toUInt64, count, skip⟩) =
        if n.toUInt64.toInt64 ≤ floor then some (.error .errInvalidAncestor)
        else some (.ok n.toUInt64) := by
  have hhead := hh.head_lt
  have hHhead := hh.le_head
  -- the span as heights: `o, o + s, …`, `c` of them up to `max`
  obtain ⟨o, ho⟩ : ∃ o : Nat, origin.toInt = o :=
    ⟨origin.toInt.toNat, by have := hb.origin_nonneg; omega⟩
  obtain ⟨s, hs⟩ : ∃ s : Nat, skip.toInt + 1 = s :=
    ⟨(skip.toInt + 1).toNat, by have := hb.one_le_skip; omega⟩
  obtain ⟨c, hc⟩ : ∃ c : Nat, count.toInt = c :=
    ⟨count.toInt.toNat, by have := hb.two_le_count; omega⟩
  have hs2 : 2 ≤ s ∧ s ≤ 16 := by have := hb.one_le_skip; have := hb.skip_le; omega
  have hc2 : 2 ≤ c ∧ c ≤ 12 := by have := hb.two_le_count; have := hb.count_le; omega
  have hmaxNat : max.toNat = o + (c - 1) * s := by
    have hcast : ((o + (c - 1) * s : Nat) : Int) = o + ((c : Int) - 1) * s := by
      push_cast [Nat.cast_sub (show 1 ≤ c by omega)]
      ring
    have := hb.max_eq
    rw [ho, hs, hc] at this
    omega
  have hmaxHead : head ≤ max.toNat + 1 := by have := hb.head_le_max; omega
  have hmax63 : max.toNat < 2 ^ 63 := by
    rcases hb.max_eq_head with h0 | hm
    · have : (c - 1) * s ≤ 11 * 16 := Nat.mul_le_mul (by omega) (by omega)
      omega
    · omega
  have hoHead : o ≤ head := by
    rcases hb.max_eq_head with h0 | hm
    · omega
    · omega
  -- the reply: the heights of the span the peer has
  have hbelowHead : 1 ≤ below o s head := by
    unfold below
    rw [if_pos hoHead]
    exact Nat.le_add_left 1 _
  rw [servingPeer_span ho hs hc (by omega), spanResult]
  have hk := min_le_left c (below o s head)
  have hlast : o + (min c (below o s head) - 1) * s ≤ max.toNat := by
    rw [hmaxNat]
    exact Nat.add_le_add_left (Nat.mul_le_mul_right s (by omega)) o
  rw [if_neg (by simp; omega), conforms_span hh ho hs (by omega) (by omega) (by omega),
    Bool.not_true, if_neg Bool.false_ne_true,
    scanKnown_span hh ho (by omega) (min_le_right _ _) hlast hmax63]
  have hkH : min (min c (below o s head)) (below o s H) = min c (below o s H) := by
    have := below_mono (o := o) (s := s) hHhead
    omega
  rw [hkH]
  by_cases hoH : o ≤ H
  · -- the span reaches down to `H`: the last height of it up to `H`
    have hbelowH : 1 ≤ below o s H := by
      unfold below
      rw [if_pos hoH]
      exact Nat.le_add_left 1 _
    set k := min c (below o s H) with hk_def
    have hn : o + (k - 1) * s ≤ H := (add_mul_le_iff (by omega)).2 (by omega)
    refine ⟨o + (k - 1) * s, hn, ?_, fun hlt => by omega, ?_⟩
    · by_cases hkc : k = c
      · rw [hkc, ← hmaxNat]
        omega
      · -- the next height of the span is above `H`
        have hkb : k = (H - o) / s + 1 := by
          unfold below at hk_def
          rw [if_pos hoH] at hk_def
          omega
        have hdm := Nat.div_add_mod (H - o) s
        have hmod := Nat.mod_lt (H - o) (show 0 < s by omega)
        rw [hkb, Nat.add_sub_cancel, Nat.mul_comm]
        omega
    · rw [if_neg (by omega)]
      simp only [Option.getD_some]
      rw [if_pos (hh.hash_ne _ hn)]
  · -- nothing of the span is known: the binary search finds `H`
    have hbelowH : below o s H = 0 := by unfold below; rw [if_neg hoH]
    refine ⟨H, le_refl H, by omega, fun _ => rfl, ?_⟩
    rw [hbelowH, Nat.min_zero, if_pos rfl]
    simp only [Option.getD_none, ne_eq, not_true_eq_false, if_false]
    exact binarySearch_honest_from_floor hh (by omega) hfuel

/-- The floor computation only sets `d.genesis`. -/
theorem ancestorFloor_same {maxForkAncestry : UInt64} {fuel : Nat} {floor : Int64} {d' : Downloader}
    (h : ancestorFloor maxForkAncestry d fuel = some (floor, d')) :
    d'.mode = d.mode ∧ d'.chain = d.chain := by
  unfold ancestorFloor at h
  dsimp only at h
  by_cases hl : d.mode = .LightSync
  · -- a light chain: only `d.genesis` is set, found or kept
    rw [if_pos hl] at h
    split at h <;>
    · simp only [Option.bind_eq_bind, Option.bind_eq_some_iff, Option.pure_def,
        Option.some.injEq, Prod.mk.injEq] at h
      obtain ⟨genesis, -, -, rfl⟩ := h
      exact ⟨rfl, rfl⟩
  · rw [if_neg hl] at h
    obtain ⟨-, rfl⟩ := Prod.mk.inj (Option.some.inj h)
    exact ⟨rfl, rfl⟩

/-- The honest setting depends on the downloader only through its mode and
chain. -/
theorem Honest.of_same (hh : Honest d headerAt head H) {d' : Downloader}
    (hm : d'.mode = d.mode) (hc : d'.chain = d.chain) : Honest d' headerAt head H where
  number := hh.number
  head_lt := hh.head_lt
  le_head := hh.le_head
  known k hk := by
    have hknown : d'.known = d.known := by
      unfold Downloader.known
      rw [hm, hc]
    rw [hknown]
    exact hh.known k hk
  stored k hk := by
    rw [hc]
    exact hh.stored k hk
  hash_ne := hh.hash_ne

/-- A run of `findAncestor` from its parts: the floor and what the search
makes of the reply to the span request. -/
theorem findAncestor_of_floor {peer : Peer} {maxForkAncestry : UInt64} {remoteHeader : Header}
    {fuel : Nat} {floor origin count skip : Int64} {max : UInt64} {d' : Downloader}
    (hfloor : ancestorFloor maxForkAncestry d fuel = some (floor, d'))
    (hspan : calculateRequestSpan remoteHeader.Number.toUInt64 d'.localHeight = (origin, count, skip, max)) :
    findAncestor maxForkAncestry d peer remoteHeader fuel =
      (spanResult d' peer floor remoteHeader.Number.toUInt64 origin skip max fuel
        (peer ⟨origin.toUInt64, count, skip⟩)).map (·, d') := by
  simp only [findAncestor, hfloor, hspan, Option.bind_eq_bind, Option.bind_some]
  cases spanResult d' peer floor remoteHeader.Number.toUInt64 origin skip max fuel
    (peer ⟨origin.toUInt64, count, skip⟩) <;> rfl

/-- Against an honest peer serving a chain up to `head` that shares the
local chain's headers exactly up to `H`, `findAncestor` refuses when `H` is at
most the floor, accepts a height between `H - 15` and `H` when `H` is more than
fifteen above it, and accepts `H` itself when `H` is above the floor and below
the first height of the span. -/
theorem findAncestor_honest (hh : Honest d headerAt head H) {maxForkAncestry : UInt64} {fuel : Nat}
    {floor : Int64} {d' : Downloader} (hfloor : ancestorFloor maxForkAncestry d fuel = some (floor, d'))
    (hfuel : 64 ≤ fuel) :
    ∃ r, findAncestor maxForkAncestry d (servingPeer headerAt head) (headerAt head) fuel = some (r, d') ∧
      (H ≤ floor.toInt → r = .error .errInvalidAncestor) ∧
      (floor.toInt + 15 < H → ∃ n : UInt64, r = .ok n ∧ H ≤ n.toNat + 15 ∧ n.toNat ≤ H) ∧
      (floor.toInt < H → H < (calculateRequestSpan head.toUInt64 d'.localHeight).1.toInt →
        r = .ok H.toUInt64) := by
  obtain ⟨hm, hc⟩ := ancestorFloor_same hfloor
  have hh' := hh.of_same hm hc
  have hhead := hh.head_lt
  rcases hspanEq : calculateRequestSpan head.toUInt64 d'.localHeight with ⟨origin, count, skip, max⟩
  -- the request head is the peer's head less one
  have hreq : Max.max (head.toUInt64.toInt64 - 1).toInt 0 = Max.max ((head : Int) - 1) 0 := by
    have hto : head.toUInt64.toInt64.toInt = head := toInt_toInt64_toUInt64 hhead
    rw [toInt_sub_of_range] <;> simp only [hto, Int64.toInt_one] <;> omega
  have hb := calculateRequestSpan_bounds _ _ hspanEq
  rw [hreq] at hb
  obtain ⟨n, hnH, hHn, horigin, hres⟩ :=
    @spanResult_honest d' headerAt head H hh' floor origin count skip max hb fuel hfuel
  have hnum : (headerAt head).Number.toUInt64 = head.toUInt64 := by rw [hh.number]
  have hspan : calculateRequestSpan (headerAt head).Number.toUInt64 d'.localHeight =
      (origin, count, skip, max) := by
    rw [hnum]
    exact hspanEq
  rw [findAncestor_of_floor hfloor hspan, hnum, hres]
  have hn : n.toUInt64.toInt64.toInt = n := toInt_toInt64_toUInt64 (by have := hh.le_head; omega)
  have hnNat : n.toUInt64.toNat = n := by
    rw [Nat.toUInt64, UInt64.toNat_ofNat', Nat.mod_eq_of_lt (by have := hh.le_head; omega)]
  refine ⟨if n.toUInt64.toInt64 ≤ floor then .error .errInvalidAncestor else .ok n.toUInt64,
    by split_ifs <;> rfl, fun hle => ?_, fun hlt => ?_, fun hlt hbelow => ?_⟩
  · -- `n ≤ H ≤ floor`: refused
    rw [if_pos (by rw [Int64.le_iff_toInt_le, hn]; omega)]
  · -- `n` is within fifteen of `H`, above the floor
    rw [if_neg (by rw [Int64.le_iff_toInt_le, hn]; omega)]
    exact ⟨n.toUInt64, rfl, by omega, by omega⟩
  · -- below the span: the binary search found `H`
    obtain rfl := horigin hbelow
    rw [if_neg (by rw [Int64.le_iff_toInt_le, hn]; omega)]

end HonestSpan

/-! ## Ancestors nobody reported -/

/-- A genesis header of hash `1`. -/
def genesisHeader : Header := ⟨0, 0, 1⟩

/-- The header at height `k` of a chain of another genesis, of hash `100 + k`. -/
def strangerHeader (k : Nat) : Header := ⟨k, BitVec.ofNat 256 (99 + k), BitVec.ofNat 256 (100 + k)⟩

/-- A header at height `2` of a side branch the local chain has. -/
def sideHeader : Header := ⟨2, 3, 4⟩

/-- A local chain of the genesis, a head at height `1` of hash `2`, and a side
branch of hash `3` at height `1` and hash `4` at height `2`. -/
def forkedChain : LocalChain where
  CurrentBlock := ⟨1, 1, 2⟩
  CurrentFastBlock := ⟨1, 1, 2⟩
  CurrentHeader := ⟨1, 1, 2⟩
  HasBlock h n := (h == 1 && n == 0) || (h == 2 && n == 1) || (h == 3 && n == 1) || (h == 4 && n == 2)
  HasFastBlock h n := (h == 1 && n == 0) || (h == 2 && n == 1) || (h == 3 && n == 1) || (h == 4 && n == 2)
  HasHeader h n := (h == 1 && n == 0) || (h == 2 && n == 1) || (h == 3 && n == 1) || (h == 4 && n == 2)
  GbtpeaderByHash h :=
    if h = 1 then some genesisHeader else if h = 2 then some ⟨1, 1, 2⟩
    else if h = 3 then some ⟨1, 1, 3⟩ else if h = 4 then some sideHeader else none

/-- A full-sync downloader on `forkedChain`. -/
def forkedDownloader : Downloader := ⟨.FullSync, 0, forkedChain⟩

/-- `findAncestor` takes the genesis as the common ancestor with a peer of
another chain, none of whose headers the local chain has: the binary search
ends at its bottom `0` without asking for it. And it takes a height above
the peer's head from a span reply: a peer whose head is at `1` is asked for
heights `0` and `2`, and its header at `2`, one of the local side branch, is
accepted. -/
theorem findAncestor_accepts_unreported_ancestors :
    (findAncestor 90000 forkedDownloader (servingPeer strangerHeader 4) (strangerHeader 4) 8).map
        Prod.fst = some (.ok 0) ∧
      (∀ k, k ≤ 4 → forkedDownloader.known (strangerHeader k).Hash k.toUInt64 = false) ∧
      (findAncestor 90000 forkedDownloader (fun _ => .headers [genesisHeader, sideHeader])
        ⟨1, 0, 5⟩ 8).map Prod.fst = some (.ok 2) := by
  refine ⟨by decide, by decide, by decide⟩

end Btp.Downloader
