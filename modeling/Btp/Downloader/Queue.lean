import Mathlib
import Btp.Common.Types
import Btp.Lib.GoSlice
import Btp.Lib.Prque
import Btp.Downloader.Ancestor

/-!
# Filling the header skeleton

The header part of `queue` in `btp/downloader/queue.go`. A sync first fetches
a skeleton, every `MaxHeaderFetch`-th header of the remote chain, and then
fills the gaps: `ScheduleSkeleton` makes one task per skeleton header, keyed
by the number of the first header of its gap, the skeleton index;
`ReserveHeaders` hands a task to a peer, `CancelHeaders` and `ExpireHeaders`
hand it back, and `DeliverHeaders` checks what a peer sent against the
skeleton header and either files the batch in `headerResults` or hands the
task back and notes that the peer misses it.

A task's index is in the task queue or in the request of one peer until its
batch is filled (`FillInv`), as long as every cancelled request is the one its
peer has pending (the fetcher cancels only the request it holds for a peer)
and the skeleton's headers are numbered below `2^64`.

A request of a skeleton fill carries no headers, and its time is read only by
the expiry, which is given the requests that ran out of time. The non-blocking
send of ready headers to the processor is given as whether it went through.
-/

namespace Btp.Downloader

/-- A `fetchRequest` of a skeleton fill: the peer and the skeleton index. -/
structure FetchRequest where
  Peer : String
  From : UInt64
  deriving DecidableEq, Repr

/-- The errors of `DeliverHeaders`. -/
inductive QueueError
  | errNoFetchesPending
  /-- "delivery not accepted". -/
  | deliveryNotAccepted
  deriving DecidableEq, Repr

/-- The skeleton-filling part of `queue`. -/
structure HeaderQueue where
  headerTaskPool : GoMap UInt64 Header
  headerTaskQueue : Prque UInt64
  headerPeerMiss : GoMap String (List UInt64)
  headerPendPool : GoMap String FetchRequest
  /-- `none` for the `nil` of no skeleton in progress. -/
  headerResults : Option (List (Option Header))
  headerProced : Nat
  headerOffset : UInt64

/-- The header part of `newQueue`, and of the queue after `Reset`, which
leaves no request pending. -/
def newQueue : HeaderQueue := ⟨∅, Prque.new, ∅, ∅, none, 0, 0⟩

/-- Pushing a skeleton index, at the priority of its number. -/
def pushIndex (queue : Prque UInt64) (index : UInt64) : Prque UInt64 :=
  queue.push index (-index.toInt64)

/-- Returning the index of a request that was not satisfied to the queue;
`0` is the sentinel of no index. -/
def requeue (queue : Prque UInt64) (request : FetchRequest) : Prque UInt64 :=
  if request.From > 0 then pushIndex queue request.From else queue

/-- `Hash()` of a nil header: RLP encodes a nil header as the empty list,
whose hash is that of an empty uncle list. -/
def EmptyUncleHash : Hash := 0x1dcc4de8dec75d7aab85b567b6ccd41ad312451b948a7413f0a142fd40d49347#256

/-- The skeleton index of the `i`-th skeleton header. -/
def skeletonIndex (origin : UInt64) (i : Nat) : UInt64 :=
  origin + (i * MaxHeaderFetch.toNatClampNeg).toUInt64

/-- `ScheduleSkeleton(from, skeleton)` (here `origin` for `from`); `none` for
the panic of a skeleton already in progress. -/
def HeaderQueue.ScheduleSkeleton (q : HeaderQueue) (origin : UInt64) (skeleton : List Header) :
    Option HeaderQueue :=
  if q.headerResults.isSome then none
  else
    let tasks := skeleton.zipIdx.map fun (header, i) => (skeletonIndex origin i, header)
    some { q with
      headerTaskPool := tasks.foldl (fun pool (index, header) => pool.insert index header) ∅
      headerTaskQueue := tasks.foldl (fun queue (index, _) => pushIndex queue index) Prque.new
      headerPeerMiss := ∅
      headerResults := some (List.replicate (skeleton.length * MaxHeaderFetch.toNatClampNeg) none)
      headerProced := 0
      headerOffset := origin }

/-- The loop of `ReserveHeaders`: indexes are popped until one the peer is not
known to miss, which is sent, or the queue runs out; an index `0` pops
without being sent. Each round pops one item, so the items are enough
rounds. -/
def reserveLoop (missed : UInt64 → Bool) :
    Nat → UInt64 → List UInt64 → Prque UInt64 → UInt64 × List UInt64 × Prque UInt64
  | 0, send, skip, queue => (send, skip, queue)
  | fuel + 1, send, skip, queue =>
    if send = 0 then
      match queue.pop with
      | none => (send, skip, queue)
      | some (index, queue) =>
        if missed index then reserveLoop missed fuel send (skip ++ [index]) queue
        else reserveLoop missed fuel index skip queue
    else (send, skip, queue)

/-- `ReserveHeaders`: the next task the peer is not known to miss, unless the
peer has a request pending. -/
def HeaderQueue.ReserveHeaders (q : HeaderQueue) (p : String) : HeaderQueue × Option FetchRequest :=
  if (q.headerPendPool.lookup p).isSome then (q, none)
  else
    let missed := fun index => ((q.headerPeerMiss.lookup p).map fun miss => miss.contains index).getD false
    let (send, skip, queue) :=
      reserveLoop missed q.headerTaskQueue.items.length 0 [] q.headerTaskQueue
    -- merge all the skipped batches back
    let queue := skip.foldl pushIndex queue
    if send = 0 then ({ q with headerTaskQueue := queue }, none)
    else
      let request : FetchRequest := ⟨p, send⟩
      ({ q with headerTaskQueue := queue, headerPendPool := q.headerPendPool.insert p request },
        some request)

/-- `CancelHeaders`: the request's index back to the queue, and the request of
its peer dropped. -/
def HeaderQueue.CancelHeaders (q : HeaderQueue) (request : FetchRequest) : HeaderQueue :=
  { q with
    headerTaskQueue := requeue q.headerTaskQueue request
    headerPendPool := q.headerPendPool.erase request.Peer }

/-- A round of the loop of `expire`: a request that ran out of time back to
the queue, and its peer reported. -/
def expireEntry (expired : FetchRequest → Bool) (acc : HeaderQueue × GoMap String Nat)
    (entry : (_ : String) × FetchRequest) : HeaderQueue × GoMap String Nat :=
  if expired entry.2 then
    ({ acc.1 with
        headerTaskQueue := requeue acc.1.headerTaskQueue entry.2
        headerPendPool := acc.1.headerPendPool.erase entry.1 },
      acc.2.insert entry.1 0)
  else acc

/-- `ExpireHeaders`: the requests that ran out of time back to the queue, with
the peers that held them. -/
def HeaderQueue.ExpireHeaders (q : HeaderQueue) (expired : FetchRequest → Bool) :
    HeaderQueue × GoMap String Nat :=
  q.headerPendPool.entries.foldl (expireEntry expired) (q, ∅)

/-- The ordering and ancestry checks of `DeliverHeaders` on each header after
the first: numbered one above the one before, and its child. -/
def chainedFrom (origin : UInt64) (headers : List Header) : Bool :=
  (headers.zip headers.tail).zipIdx.all fun ((parent, header), i) =>
    header.Number.toUInt64 == origin + 1 + i.toUInt64 && parent.Hash == header.ParentHash

/-- The checks of `DeliverHeaders`: `MaxHeaderFetch` headers, from the
request's index, chained, up to the skeleton header. -/
def acceptsFill (origin : UInt64) (target : Hash) (headers : List Header) : Bool :=
  headers.length == MaxHeaderFetch.toNatClampNeg &&
    (headers.head?.map fun header => header.Number.toUInt64) == some origin &&
    (headers.getLast?.map fun header => header.Hash) == some target &&
    chainedFrom origin headers

/-- The loop counting the headers ready from `headerProced`: whole batches
whose first header is in. Each round moves past a header, so the length of
the results is enough rounds. -/
def readyLoop (results : List (Option Header)) (proced : Nat) : Nat → Nat → Nat
  | 0, ready => ready
  | fuel + 1, ready =>
    if proced + ready < results.length ∧ (results.getD (proced + ready) none).isSome then
      readyLoop results proced fuel (ready + MaxHeaderFetch.toNatClampNeg)
    else ready

/-- `DeliverHeaders` of the headers `id` sent, `sent` telling whether the
ready headers went through to the processor; `none` for the panic of a slice
out of range. -/
def HeaderQueue.DeliverHeaders (q : HeaderQueue) (id : String) (headers : List Header) (sent : Bool) :
    Option (HeaderQueue × Except QueueError Nat) :=
  match q.headerPendPool.lookup id with
  | none => some (q, .error .errNoFetchesPending)
  | some request =>
    let q := { q with headerPendPool := q.headerPendPool.erase id }
    -- a missing task reads as a nil header
    let target := ((q.headerTaskPool.lookup request.From).map Header.Hash).getD EmptyUncleHash
    if !acceptsFill request.From target headers then
      -- mark the batch as unavailable from this peer
      let miss := (q.headerPeerMiss.lookup id).getD []
      some ({ q with
          headerPeerMiss := q.headerPeerMiss.insert id (miss.insert request.From)
          headerTaskQueue := pushIndex q.headerTaskQueue request.From },
        .error .deliveryNotAccepted)
    else
      let results := q.headerResults.getD []
      let lo := (request.From - q.headerOffset).toNat
      if results.length < lo then none
      else
        let results := GoSlice.write results lo ((headers.map some).take (results.length - lo))
        let ready := readyLoop results q.headerProced results.length 0
        -- the ready headers are sliced out only when there are some
        if 0 < ready ∧ results.length < q.headerProced + ready then none
        else
          some ({ q with
              headerResults := q.headerResults.map fun _ => results
              headerTaskPool := q.headerTaskPool.erase request.From
              headerProced := if 0 < ready ∧ sent then q.headerProced + ready else q.headerProced },
            .ok headers.length)

/-- The calls a download makes on the skeleton fill. -/
inductive HeaderOp
  | reserve (p : String)
  | cancel (request : FetchRequest)
  | expire (expired : FetchRequest → Bool)
  | deliver (id : String) (headers : List Header) (sent : Bool)

/-- One call; `none` for a panic. -/
def HeaderQueue.step (q : HeaderQueue) : HeaderOp → Option HeaderQueue
  | .reserve p => some (q.ReserveHeaders p).1
  | .cancel request => some (q.CancelHeaders request)
  | .expire expired => some (q.ExpireHeaders expired).1
  | .deliver id headers sent => (q.DeliverHeaders id headers sent).map Prod.fst

/-! ## Skeleton indexes

While the skeleton's headers are numbered below `2^64`, the `i`-th skeleton
index is `from + 192 i` with no wrap: the indexes are distinct and, as `from`
is not `0`, none of them is the sentinel.
-/

@[simp] theorem toNatClampNeg_MaxHeaderFetch : MaxHeaderFetch.toNatClampNeg = 192 := rfl

section Indexes

variable {origin : UInt64} {n i : Nat}

theorem toNat_skeletonIndex (fits : origin.toNat + n * 192 ≤ 2 ^ 64) (hi : i < n) :
    (skeletonIndex origin i).toNat = origin.toNat + i * 192 := by
  have hlt : i * 192 + 192 ≤ n * 192 := by nlinarith
  simp only [skeletonIndex, toNatClampNeg_MaxHeaderFetch, UInt64.toNat_add, Nat.toUInt64_eq, UInt64.toNat_ofNat']
  rw [Nat.mod_eq_of_lt (by omega : i * 192 < 2 ^ 64), Nat.mod_eq_of_lt (by omega)]

theorem skeletonIndex_inj (fits : origin.toNat + n * 192 ≤ 2 ^ 64) {j : Nat} (hi : i < n)
    (hj : j < n) (h : skeletonIndex origin i = skeletonIndex origin j) : i = j := by
  have h' := congrArg UInt64.toNat h
  rw [toNat_skeletonIndex fits hi, toNat_skeletonIndex fits hj] at h'
  omega

theorem skeletonIndex_ne_zero (fits : origin.toNat + n * 192 ≤ 2 ^ 64) (pos : 0 < origin)
    (hi : i < n) : skeletonIndex origin i ≠ 0 := by
  intro h
  have h' := congrArg UInt64.toNat h
  rw [toNat_skeletonIndex fits hi] at h'
  have : 0 < origin.toNat := UInt64.lt_iff_toNat_lt.1 pos
  simp at h'
  omega

/-- The slot of the `i`-th batch in the results. -/
theorem toNat_skeletonIndex_sub (fits : origin.toNat + n * 192 ≤ 2 ^ 64) (hi : i < n) :
    (skeletonIndex origin i - origin).toNat = i * 192 := by
  have hle : origin ≤ skeletonIndex origin i := by
    rw [UInt64.le_iff_toNat_le, toNat_skeletonIndex fits hi]
    omega
  rw [UInt64.toNat_sub_of_le _ _ hle, toNat_skeletonIndex fits hi]
  omega

end Indexes

/-! ## The outstanding indexes

The indexes a skeleton fill still waits for are those in the task queue and
those of the pending requests, counted with their multiplicity.
-/

/-- The indexes of the pending requests. -/
def pendingFroms (pool : GoMap String FetchRequest) : Multiset UInt64 :=
  (pool.entries.map fun entry => entry.2.From : List UInt64)

/-- The indexes in the task queue or pending. -/
def HeaderQueue.outstanding (q : HeaderQueue) : Multiset UInt64 :=
  q.headerTaskQueue.contents + pendingFroms q.headerPendPool

@[simp] theorem pendingFroms_empty : pendingFroms ∅ = 0 := rfl

theorem pendingFroms_insert {pool : GoMap String FetchRequest} {p : String} {request : FetchRequest}
    (fresh : p ∉ pool) : pendingFroms (pool.insert p request) = request.From ::ₘ pendingFroms pool := by
  unfold pendingFroms
  rw [AList.entries_insert_of_notMem fresh, List.map_cons, Multiset.cons_coe]

/-- Dropping a pending request drops its index. -/
theorem pendingFroms_erase {pool : GoMap String FetchRequest} {p : String} {request : FetchRequest}
    (h : pool.lookup p = some request) :
    pendingFroms pool = request.From ::ₘ pendingFroms (pool.erase p) := by
  have hmem : p ∈ pool.entries.keys := AList.mem_keys.1 (AList.lookup_isSome.1 (by simp [h]))
  obtain ⟨b, l₁, l₂, hnot, heq, hker⟩ := List.exists_of_kerase hmem
  -- the entry of `p` sits between `l₁` and `l₂`, and holds `request`
  have hb : b = request := by
    have hlook : pool.entries.dlookup p = some request := h
    rw [heq, List.dlookup_append, List.dlookup_eq_none.2 hnot, Option.none_or,
      List.dlookup_cons_eq] at hlook
    exact Option.some.inj hlook
  subst hb
  have herase : (pool.erase p).entries = l₁ ++ l₂ := hker
  simp only [pendingFroms, heq, herase, List.map_append, List.map_cons, ← Multiset.coe_add]
  rw [← Multiset.cons_coe, Multiset.add_cons]

theorem mem_pendingFroms {pool : GoMap String FetchRequest} {p : String} {request : FetchRequest}
    (h : pool.lookup p = some request) : request.From ∈ pendingFroms pool := by
  rw [pendingFroms_erase h]
  exact Multiset.mem_cons_self _ _

theorem contents_foldl_pushIndex (skip : List UInt64) (queue : Prque UInt64) :
    (skip.foldl pushIndex queue).contents = queue.contents + skip := by
  induction skip generalizing queue with
  | nil => simp
  | cons index skip ih =>
    rw [List.foldl_cons, ih, pushIndex, Prque.contents_push, ← Multiset.cons_coe, add_assoc,
      Multiset.singleton_add]

/-- The index `ReserveHeaders` sends, none for the sentinel. -/
def sentIndex (send : UInt64) : Multiset UInt64 := if send = 0 then 0 else {send}

/-- Every stop of the loop of `ReserveHeaders` has lost no index but zeros: the
sent one, the skipped ones and the queue hold what they held. -/
theorem reserveLoop_outstanding (missed : UInt64 → Bool) :
    ∀ (fuel : Nat) (send : UInt64) (skip : List UInt64) (queue : Prque UInt64),
      (0 : UInt64) ∉ queue.contents →
      let r := reserveLoop missed fuel send skip queue
      sentIndex r.1 + (r.2.1 : Multiset UInt64) + r.2.2.contents =
        sentIndex send + skip + queue.contents
  | 0, _, _, _, _ => rfl
  | fuel + 1, send, skip, queue, nozero => by
    simp only [reserveLoop]
    split_ifs with hsend
    · split
      · rfl
      · next index queue' hpop =>
        have hcontents := Prque.contents_pop hpop
        have nozero' : (0 : UInt64) ∉ queue'.contents := fun h =>
          nozero (hcontents ▸ Multiset.mem_cons_of_mem h)
        have hindex : index ≠ 0 := fun h => nozero (hcontents ▸ h ▸ Multiset.mem_cons_self _ _)
        split_ifs
        · rw [reserveLoop_outstanding missed fuel send _ queue' nozero', hcontents,
            ← Multiset.coe_add, Multiset.coe_singleton, ← Multiset.singleton_add]
          abel
        · rw [reserveLoop_outstanding missed fuel index skip queue' nozero', hcontents]
          simp only [sentIndex, hindex, hsend, if_false, if_true, ← Multiset.singleton_add]
          abel
    · rfl

/-! ## Calls that only move indexes

`ReserveHeaders`, `CancelHeaders`, `ExpireHeaders` and a rejected delivery
move indexes between the task queue and the pending requests: they leave the
task pool, the results and the processed count alone, and, as long as no
index is the sentinel, lose or add none.
-/

/-- `q'` differs from `q` by indexes moved between the queue and the pending
requests. -/
structure Moves (q q' : HeaderQueue) : Prop where
  pool : q'.headerTaskPool = q.headerTaskPool
  results : q'.headerResults = q.headerResults
  proced : q'.headerProced = q.headerProced
  offset : q'.headerOffset = q.headerOffset
  outstanding : q'.outstanding = q.outstanding

theorem Moves.refl (q : HeaderQueue) : Moves q q := ⟨rfl, rfl, rfl, rfl, rfl⟩

theorem Moves.trans {q q' q'' : HeaderQueue} (h : Moves q q') (h' : Moves q' q'') : Moves q q'' :=
  ⟨h'.pool.trans h.pool, h'.results.trans h.results, h'.proced.trans h.proced,
    h'.offset.trans h.offset, h'.outstanding.trans h.outstanding⟩

theorem ReserveHeaders_moves {q : HeaderQueue} (p : String)
    (nozero : (0 : UInt64) ∉ q.headerTaskQueue.contents) : Moves q (q.ReserveHeaders p).1 := by
  unfold HeaderQueue.ReserveHeaders
  split_ifs with hpend
  · exact Moves.refl q
  · dsimp only
    generalize (fun index => ((q.headerPeerMiss.lookup p).map fun miss => miss.contains index).getD
      false) = missed
    -- what the loop stopped with holds what the queue held
    have hloop := reserveLoop_outstanding missed q.headerTaskQueue.items.length 0 [] _ nozero
    generalize reserveLoop missed q.headerTaskQueue.items.length 0 [] q.headerTaskQueue = r at hloop ⊢
    obtain ⟨send, skip, queue⟩ := r
    dsimp only
    simp only [sentIndex, if_true, zero_add, Multiset.coe_nil, add_zero] at hloop
    have fresh : p ∉ q.headerPendPool := fun h => hpend (AList.lookup_isSome.2 h)
    split_ifs with hsend
    · refine ⟨rfl, rfl, rfl, rfl, ?_⟩
      simp only [HeaderQueue.outstanding, contents_foldl_pushIndex, ← hloop, hsend, if_true, zero_add]
      abel
    · refine ⟨rfl, rfl, rfl, rfl, ?_⟩
      simp only [HeaderQueue.outstanding, contents_foldl_pushIndex, pendingFroms_insert fresh,
        ← hloop, hsend, if_false, ← Multiset.singleton_add]
      abel

/-- A pending request dropped, and its index back in the queue. -/
theorem requeue_moves {q : HeaderQueue} {id : String} {request : FetchRequest}
    (pending : q.headerPendPool.lookup id = some request) (nonzero : request.From ≠ 0) :
    Moves q { q with
      headerTaskQueue := requeue q.headerTaskQueue request
      headerPendPool := q.headerPendPool.erase id } := by
  refine ⟨rfl, rfl, rfl, rfl, ?_⟩
  have hpos : request.From > 0 := UInt64.pos_iff_ne_zero.2 nonzero
  simp only [HeaderQueue.outstanding, requeue, hpos, if_true, pushIndex, Prque.contents_push,
    pendingFroms_erase pending, ← Multiset.singleton_add]
  abel

/-- A cancel of the request its peer has pending. -/
theorem CancelHeaders_moves {q : HeaderQueue} {request : FetchRequest}
    (pending : q.headerPendPool.lookup request.Peer = some request) (nonzero : request.From ≠ 0) :
    Moves q (q.CancelHeaders request) :=
  requeue_moves pending nonzero

/-- The loop of `expire` over entries still pending, with distinct peers. -/
theorem foldl_expireEntry_moves (expired : FetchRequest → Bool) :
    ∀ (entries : List ((_ : String) × FetchRequest)) (q : HeaderQueue) (expiries : GoMap String Nat),
      entries.NodupKeys →
      (∀ entry ∈ entries, q.headerPendPool.lookup entry.1 = some entry.2 ∧ entry.2.From ≠ 0) →
      Moves q (entries.foldl (expireEntry expired) (q, expiries)).1
  | [], q, _, _, _ => Moves.refl q
  | entry :: entries, q, expiries, nodup, pending => by
    obtain ⟨fresh, nodup'⟩ := List.nodupKeys_cons.1 nodup
    obtain ⟨hlookup, nonzero⟩ := pending entry List.mem_cons_self
    rw [List.foldl_cons, expireEntry]
    split_ifs
    · dsimp only
      refine (requeue_moves hlookup nonzero).trans
        (foldl_expireEntry_moves expired entries _ _ nodup' ?_)
      -- the other peers' requests are still pending
      intro other hother
      have hne : other.1 ≠ entry.1 := fun h => fresh (h ▸ List.mem_keys_of_mem hother)
      obtain ⟨hl, hz⟩ := pending other (List.mem_cons_of_mem _ hother)
      exact ⟨by rw [AList.lookup_erase_ne hne]; exact hl, hz⟩
    · exact foldl_expireEntry_moves expired entries q expiries nodup'
        fun other hother => pending other (List.mem_cons_of_mem _ hother)

theorem ExpireHeaders_moves {q : HeaderQueue} (expired : FetchRequest → Bool)
    (nonzero : (0 : UInt64) ∉ pendingFroms q.headerPendPool) : Moves q (q.ExpireHeaders expired).1 := by
  apply foldl_expireEntry_moves expired _ q ∅ q.headerPendPool.nodupKeys
  intro entry hentry
  refine ⟨AList.mem_lookup_iff.2 hentry, fun h => nonzero ?_⟩
  rw [← h]
  exact Multiset.mem_coe.2 (List.mem_map_of_mem hentry)

/-! ## What a delivery must be -/

/-- The delivery that fills the gap at `From` below the skeleton header of hash
`target`: `MaxHeaderFetch` headers numbered `From`, `From + 1`, … (numbers as
`Uint64` reads them, modulo `2^64`), each the child of the one before, the
last hashing to the skeleton header. -/
def FillSpec (From : UInt64) (target : Hash) (headers : List Header) : Prop :=
  headers.length = 192 ∧
    (∀ i (hi : i < headers.length), headers[i].Number % 2 ^ 64 = From.toNat + i) ∧
    (∀ i (hi : i + 1 < headers.length), headers[i + 1].ParentHash = headers[i].Hash) ∧
    headers.getLast?.map Header.Hash = some target

theorem toUInt64_eq_iff {n : Nat} {x : UInt64} : n.toUInt64 = x ↔ n % 2 ^ 64 = x.toNat := by
  rw [← UInt64.toNat_inj]
  simp

theorem toNat_add_one_add {From : UInt64} {k : Nat} (h : From.toNat + 1 + k < 2 ^ 64) :
    (From + 1 + k.toUInt64).toNat = From.toNat + 1 + k := by
  simp only [UInt64.toNat_add, Nat.toUInt64_eq, UInt64.toNat_ofNat', UInt64.toNat_one]
  rw [Nat.mod_eq_of_lt (by omega : From.toNat + 1 < 2 ^ 64), Nat.mod_eq_of_lt (by omega : k < 2 ^ 64),
    Nat.mod_eq_of_lt h]

theorem chainedFrom_iff {origin : UInt64} {headers : List Header} :
    chainedFrom origin headers = true ↔
      ∀ i (hi : i + 1 < headers.length),
        headers[i + 1].Number.toUInt64 = origin + 1 + i.toUInt64 ∧
          headers[i].Hash = headers[i + 1].ParentHash := by
  simp only [chainedFrom, List.all_eq_true, Prod.forall, List.mem_zipIdx_iff_getElem?,
    List.getElem?_zip_eq_some, List.getElem?_tail, Bool.and_eq_true, beq_iff_eq]
  constructor
  · intro h i hi
    exact h _ _ i ⟨List.getElem?_eq_getElem (by omega), List.getElem?_eq_getElem hi⟩
  · rintro h parent header i ⟨hparent, hheader⟩
    obtain ⟨hi, rfl⟩ := List.getElem?_eq_some_iff.1 hheader
    obtain ⟨_, rfl⟩ := List.getElem?_eq_some_iff.1 hparent
    exact h i hi

/-- `DeliverHeaders` accepts exactly the deliveries of `FillSpec`, for a gap
whose numbers stay below `2^64`. -/
theorem acceptsFill_iff {From : UInt64} {target : Hash} {headers : List Header}
    (fits : From.toNat + 192 ≤ 2 ^ 64) :
    acceptsFill From target headers = true ↔ FillSpec From target headers := by
  simp only [acceptsFill, FillSpec, Bool.and_eq_true, beq_iff_eq, chainedFrom_iff,
    toNatClampNeg_MaxHeaderFetch, toUInt64_eq_iff]
  constructor
  · rintro ⟨⟨⟨hlen, hhead⟩, hlast⟩, hchain⟩
    refine ⟨hlen, ?_, fun i hi => (hchain i hi).2.symm, hlast⟩
    intro i hi
    cases i with
    | zero =>
      rw [List.head?_eq_getElem?, List.getElem?_eq_getElem hi, Option.map_some, Option.some_inj] at hhead
      rw [toUInt64_eq_iff.1 hhead, Nat.add_zero]
    | succ k =>
      rw [(hchain k hi).1, toNat_add_one_add (by omega)]
      omega
  · rintro ⟨hlen, hnum, hparent, hlast⟩
    refine ⟨⟨⟨hlen, ?_⟩, hlast⟩, fun i hi => ⟨?_, (hparent i hi).symm⟩⟩
    · rw [List.head?_eq_getElem?, List.getElem?_eq_getElem (by omega)]
      simpa using (toUInt64_eq_iff.2 ((hnum 0 (by omega)).trans (by simp)))
    · rw [hnum (i + 1) hi, toNat_add_one_add (by omega)]
      omega

/-! ## The results -/

/-- The first `n` results are whole batches, all filled. -/
structure FilledPrefix (results : List (Option Header)) (n : Nat) : Prop where
  dvd : 192 ∣ n
  le : n ≤ results.length
  filled : ∀ j < n, (results.getD j none).isSome

theorem isSome_getD_write {α : Type} {rs : List (Option α)} {lo : Nat} {src : List α}
    (h : lo + src.length ≤ rs.length) (j : Nat) :
    ((GoSlice.write rs lo (src.map some)).getD j none).isSome =
      if lo ≤ j ∧ j < lo + src.length then true else (rs.getD j none).isSome := by
  have hmin : min lo rs.length = lo := Nat.min_eq_left (by omega)
  simp only [GoSlice.write, List.getD_eq_getElem?_getD, List.length_map]
  split_ifs with hj
  · rw [List.getElem?_append_left (by simp; omega), List.getElem?_append_right (by simp; omega)]
    simp only [List.length_take, hmin, List.getElem?_map]
    rw [List.getElem?_eq_getElem (by omega)]
    rfl
  · by_cases hlo : j < lo
    · rw [List.getElem?_append_left (by simp; omega), List.getElem?_append_left (by simp; omega)]
      simp [hlo]
    · rw [List.getElem?_append_right (by simp; omega)]
      simp only [List.length_append, List.length_take, List.length_map, hmin, List.getElem?_drop]
      congr 3
      omega

/-- The loop of `DeliverHeaders` counting the ready headers only walks over
whole filled batches, in results where a batch is filled as a whole. -/
theorem readyLoop_filledPrefix {results : List (Option Header)} {proced : Nat}
    (whole : 192 ∣ results.length)
    (batches : ∀ j < results.length, ∀ j' < results.length, j' / 192 = j / 192 →
      (results.getD j none).isSome → (results.getD j' none).isSome) :
    ∀ fuel ready, FilledPrefix results (proced + ready) →
      FilledPrefix results (proced + readyLoop results proced fuel ready)
  | 0, _, h => h
  | fuel + 1, ready, h => by
    simp only [readyLoop, toNatClampNeg_MaxHeaderFetch]
    split_ifs with hnext
    · apply readyLoop_filledPrefix whole batches fuel
      obtain ⟨hlt, hsome⟩ := hnext
      have hdvd := h.dvd
      -- the batch at `proced + ready` is in as a whole
      refine ⟨by omega, by omega, fun j hj => ?_⟩
      by_cases hlow : j < proced + ready
      · exact h.filled j hlow
      · exact batches _ hlt j (by omega) (by omega) hsome
    · exact h

/-! ## The invariant of a skeleton fill -/

/-- The results of `q` read as a list. -/
def HeaderQueue.results (q : HeaderQueue) : List (Option Header) := q.headerResults.getD []

/-- What holds while `skeleton` is filled from `origin`. -/
structure FillInv (origin : UInt64) (skeleton : List Header) (q : HeaderQueue) : Prop where
  offset : q.headerOffset = origin
  started : q.headerResults.isSome
  length_results : q.results.length = skeleton.length * 192
  /-- Every task is the gap below its skeleton header. -/
  task : ∀ index header, q.headerTaskPool.lookup index = some header →
    ∃ i < skeleton.length, index = skeletonIndex origin i ∧ skeleton[i]? = some header
  /-- Every task is once in the queue or pending, and nothing else is. -/
  outstanding : q.outstanding = (q.headerTaskPool.keys : Multiset UInt64)
  /-- A result is in exactly when the task of its batch is done. -/
  filled : ∀ j < q.results.length,
    (q.results.getD j none).isSome ↔ skeletonIndex origin (j / 192) ∉ q.headerTaskPool
  proced : FilledPrefix q.results q.headerProced

section Invariant

variable {origin : UInt64} {skeleton : List Header} {q : HeaderQueue}

theorem FillInv.of_moves {q' : HeaderQueue} (inv : FillInv origin skeleton q) (moves : Moves q q') :
    FillInv origin skeleton q' := by
  have hresults : q'.results = q.results := by rw [HeaderQueue.results, moves.results]; rfl
  refine ⟨moves.offset ▸ inv.offset, moves.results ▸ inv.started, hresults ▸ inv.length_results,
    moves.pool ▸ inv.task, ?_, ?_, ?_⟩
  · rw [moves.outstanding, moves.pool]
    exact inv.outstanding
  · rw [hresults, moves.pool]
    exact inv.filled
  · rw [hresults, moves.proced]
    exact inv.proced

theorem FillInv.mem_of_outstanding (inv : FillInv origin skeleton q) {index : UInt64}
    (h : index ∈ q.outstanding) : index ∈ q.headerTaskPool := by
  rw [inv.outstanding, Multiset.mem_coe] at h
  exact AList.mem_keys.1 h

theorem FillInv.index_of_mem (inv : FillInv origin skeleton q) {index : UInt64}
    (h : index ∈ q.headerTaskPool) :
    ∃ i < skeleton.length, index = skeletonIndex origin i ∧
      ∃ header, skeleton[i]? = some header ∧ q.headerTaskPool.lookup index = some header := by
  obtain ⟨header, hlookup⟩ := Option.isSome_iff_exists.1 (AList.lookup_isSome.2 h)
  obtain ⟨i, hi, rfl, hskel⟩ := inv.task index header hlookup
  exact ⟨i, hi, rfl, header, hskel, hlookup⟩

section Fits

variable (pos : 0 < origin) (fits : origin.toNat + skeleton.length * 192 ≤ 2 ^ 64)
include pos fits

theorem FillInv.zero_not_mem (inv : FillInv origin skeleton q) : (0 : UInt64) ∉ q.outstanding := by
  intro h
  obtain ⟨i, hi, hzero, -⟩ := inv.index_of_mem (inv.mem_of_outstanding h)
  exact skeletonIndex_ne_zero fits pos hi hzero.symm

theorem FillInv.zero_not_mem_queue (inv : FillInv origin skeleton q) :
    (0 : UInt64) ∉ q.headerTaskQueue.contents := fun h =>
  inv.zero_not_mem pos fits (Multiset.mem_add.2 (Or.inl h))

theorem FillInv.zero_not_mem_pending (inv : FillInv origin skeleton q) :
    (0 : UInt64) ∉ pendingFroms q.headerPendPool := fun h =>
  inv.zero_not_mem pos fits (Multiset.mem_add.2 (Or.inr h))

end Fits

end Invariant

/-! ## Deliveries -/

section Deliver

variable {q : HeaderQueue} {id : String} {headers : List Header} {sent : Bool}

theorem DeliverHeaders_unrequested (h : q.headerPendPool.lookup id = none) :
    q.DeliverHeaders id headers sent = some (q, .error .errNoFetchesPending) := by
  rw [HeaderQueue.DeliverHeaders, h]

variable (sent) in
/-- A rejected delivery hands its index back to the queue and leaves the rest
of the fill alone. -/
theorem DeliverHeaders_reject {request : FetchRequest} (pending : q.headerPendPool.lookup id = some request)
    (reject : acceptsFill request.From
      (((q.headerTaskPool.lookup request.From).map Header.Hash).getD EmptyUncleHash) headers = false) :
    ∃ q', q.DeliverHeaders id headers sent = some (q', .error .deliveryNotAccepted) ∧ Moves q q' ∧
      q'.headerTaskQueue.contents = q.headerTaskQueue.contents + {request.From} := by
  rw [HeaderQueue.DeliverHeaders, pending]
  dsimp only
  rw [reject, Bool.not_false, if_pos rfl]
  refine ⟨_, rfl, ⟨rfl, rfl, rfl, rfl, ?_⟩, by simp [pushIndex]⟩
  simp only [HeaderQueue.outstanding, pushIndex, Prque.contents_push, pendingFroms_erase pending,
    ← Multiset.singleton_add]
  abel

theorem FilledPrefix.mono {rs rs' : List (Option Header)} {n : Nat} (h : FilledPrefix rs n)
    (hlen : rs'.length = rs.length) (keeps : ∀ j, (rs.getD j none).isSome → (rs'.getD j none).isSome) :
    FilledPrefix rs' n :=
  ⟨h.dvd, hlen ▸ h.le, fun j hj => keeps j (h.filled j hj)⟩

/-- A filled task leaves the outstanding indexes with its request. -/
theorem FillInv.outstanding_fill {origin : UInt64} {skeleton : List Header}
    (inv : FillInv origin skeleton q) {request : FetchRequest}
    (pending : q.headerPendPool.lookup id = some request) :
    q.headerTaskQueue.contents + pendingFroms (q.headerPendPool.erase id) =
      ((q.headerTaskPool.erase request.From).keys : Multiset UInt64) := by
  have h := inv.outstanding
  rw [HeaderQueue.outstanding, pendingFroms_erase pending, Multiset.add_cons] at h
  rw [AList.keys_erase, ← Multiset.coe_erase, ← h, Multiset.erase_cons_head]

section Accept

variable {origin : UInt64} {skeleton : List Header} {i : Nat}
  (fits : origin.toNat + skeleton.length * 192 ≤ 2 ^ 64)
include fits

/-- The results with the batch of task `i` written, against the pool
without task `i`. -/
theorem FillInv.filled_fill (inv : FillInv origin skeleton q) (hi : i < skeleton.length)
    {src : List Header} (hsrc : src.length = 192) :
    ∀ j < (GoSlice.write q.results (i * 192) (src.map some)).length,
      ((GoSlice.write q.results (i * 192) (src.map some)).getD j none).isSome ↔
        skeletonIndex origin (j / 192) ∉ q.headerTaskPool.erase (skeletonIndex origin i) := by
  have hfit : i * 192 + src.length ≤ q.results.length := by
    rw [inv.length_results, hsrc]
    nlinarith
  intro j hj
  rw [GoSlice.length_write (by simpa using hfit)] at hj
  have hjn : j / 192 < skeleton.length := by
    rw [inv.length_results] at hj
    exact Nat.div_lt_of_lt_mul (by linarith)
  have hsame : skeletonIndex origin (j / 192) = skeletonIndex origin i ↔ j / 192 = i :=
    ⟨skeletonIndex_inj fits hjn hi, fun h => h ▸ rfl⟩
  rw [isSome_getD_write (by simpa using hfit), AList.mem_erase, hsrc]
  split_ifs with hrange
  · -- the batch just written
    have : j / 192 = i := by omega
    simp [hsame.2 this]
  · have : j / 192 ≠ i := by omega
    rw [inv.filled j hj]
    simp [mt hsame.1 this]

variable (sent) in
/-- An accepted delivery writes its batch, drops its task, and moves the
processed count over whole filled batches only. -/
theorem FillInv.DeliverHeaders_accept (inv : FillInv origin skeleton q) {request : FetchRequest}
    (pending : q.headerPendPool.lookup id = some request) (hi : i < skeleton.length)
    (hindex : request.From = skeletonIndex origin i) {header : Header}
    (htask : q.headerTaskPool.lookup request.From = some header)
    (accept : acceptsFill request.From header.Hash headers = true) :
    ∃ q', q.DeliverHeaders id headers sent = some (q', .ok headers.length) ∧
      FillInv origin skeleton q' ∧ q.headerProced ≤ q'.headerProced ∧
      q'.headerTaskPool = q.headerTaskPool.erase request.From := by
  have hlen : headers.length = 192 := by
    simp only [acceptsFill, Bool.and_eq_true, beq_iff_eq, toNatClampNeg_MaxHeaderFetch] at accept
    exact accept.1.1.1
  obtain ⟨rs, hrs⟩ := Option.isSome_iff_exists.1 inv.started
  have hresults : q.results = rs := by rw [HeaderQueue.results, hrs]; rfl
  have hrslen : rs.length = skeleton.length * 192 := hresults ▸ inv.length_results
  have hlo : (request.From - q.headerOffset).toNat = i * 192 := by
    rw [inv.offset, hindex, toNat_skeletonIndex_sub fits hi]
  have hfit : i * 192 + 192 ≤ rs.length := by rw [hrslen]; nlinarith
  have htake : (headers.map some).take (rs.length - i * 192) = headers.map some :=
    List.take_of_length_le (by simp; omega)
  -- the results after the write, their batches whole, and the ready prefix
  set rs' := GoSlice.write rs (i * 192) (headers.map some) with hrs'
  have hlen' : rs'.length = rs.length := GoSlice.length_write (by simp; omega)
  have hfilled := inv.filled_fill fits hi hlen
  rw [hresults, ← hrs'] at hfilled
  have hprefix : FilledPrefix rs' q.headerProced := by
    refine (hresults ▸ inv.proced).mono hlen' fun j hj => ?_
    rw [hrs', isSome_getD_write (by omega)]
    split_ifs
    · rfl
    · exact hj
  have hready := readyLoop_filledPrefix (by rw [hlen', hrslen]; simp)
    (fun j hj j' hj' hbatch hsome => (hfilled j' hj').2 (hbatch ▸ (hfilled j hj).1 hsome))
    rs'.length 0 (by simpa using hprefix)
  have hready_le := hready.le
  rw [← hindex] at hfilled
  rw [HeaderQueue.DeliverHeaders, pending]
  dsimp only
  rw [htask, Option.map_some, Option.getD_some, accept, Bool.not_true, if_neg Bool.false_ne_true,
    hrs, Option.getD_some, hlo, if_neg (by omega), htake, ← hrs', if_neg (by omega)]
  refine ⟨_, rfl, ⟨inv.offset, rfl, by simp [HeaderQueue.results, hlen', hrslen], ?_,
    inv.outstanding_fill pending, by simpa [HeaderQueue.results] using hfilled, ?_⟩,
    by dsimp only; split_ifs <;> omega, rfl⟩
  · intro index header' hlookup
    by_cases hne : index = request.From
    · rw [hne, AList.lookup_erase] at hlookup
      cases hlookup
    · rw [AList.lookup_erase_ne hne] at hlookup
      exact inv.task index header' hlookup
  · simp only [HeaderQueue.results, Option.map_some, Option.getD_some]
    split_ifs
    · exact hready
    · exact hprefix

end Accept

end Deliver

/-! ## Scheduling -/

theorem keys_foldl_insert :
    ∀ (tasks : List (UInt64 × Header)) (pool : GoMap UInt64 Header), (tasks.map Prod.fst).Nodup →
      (∀ index ∈ tasks.map Prod.fst, index ∉ pool) →
      ((tasks.foldl (fun pool (index, header) => pool.insert index header) pool).keys : Multiset UInt64) =
        pool.keys + (tasks.map Prod.fst : List UInt64)
  | [], pool, _, _ => by simp
  | (index, header) :: tasks, pool, nodup, fresh => by
    obtain ⟨hnew, nodup'⟩ := List.nodup_cons.1 nodup
    have hindex : index ∉ pool := fresh index List.mem_cons_self
    rw [List.foldl_cons, keys_foldl_insert tasks _ nodup' fun other hother => ?_]
    · rw [AList.keys_insert, List.erase_of_not_mem (fun h => hindex (AList.mem_keys.1 h))]
      simp only [List.map_cons, ← Multiset.cons_coe, Multiset.cons_add, Multiset.add_cons]
    · -- the later indexes are new to the pool with `index` in
      rw [AList.mem_insert, not_or]
      exact ⟨fun h => hnew (h ▸ hother), fresh other (List.mem_cons_of_mem _ hother)⟩

theorem lookup_foldl_insert :
    ∀ (tasks : List (UInt64 × Header)) (pool : GoMap UInt64 Header) (index : UInt64) (header : Header),
      (tasks.foldl (fun pool (index, header) => pool.insert index header) pool).lookup index =
          some header →
        (index, header) ∈ tasks ∨ pool.lookup index = some header
  | [], _, _, _, h => Or.inr h
  | (index', header') :: tasks, pool, index, header, h => by
    rw [List.foldl_cons] at h
    rcases lookup_foldl_insert tasks _ index header h with hmem | hlookup
    · exact Or.inl (List.mem_cons_of_mem _ hmem)
    · by_cases hsame : index = index'
      · subst hsame
        rw [AList.lookup_insert, Option.some_inj] at hlookup
        exact Or.inl (hlookup ▸ List.mem_cons_self)
      · rw [AList.lookup_insert_ne hsame] at hlookup
        exact Or.inr hlookup

theorem contents_foldl_task (tasks : List (UInt64 × Header)) (queue : Prque UInt64) :
    (tasks.foldl (fun queue (index, _) => pushIndex queue index) queue).contents =
      queue.contents + (tasks.map Prod.fst : List UInt64) := by
  rw [← contents_foldl_pushIndex, List.foldl_map]

/-- `ScheduleSkeleton` on a queue with no request pending starts a fill of
the invariant. -/
theorem FillInv.ScheduleSkeleton {origin : UInt64} {skeleton : List Header}
    (fits : origin.toNat + skeleton.length * 192 ≤ 2 ^ 64) {q₀ q : HeaderQueue}
    (idle : q₀.headerPendPool = ∅) (h : q₀.ScheduleSkeleton origin skeleton = some q) :
    FillInv origin skeleton q := by
  unfold HeaderQueue.ScheduleSkeleton at h
  split_ifs at h
  obtain rfl := Option.some.inj h
  -- the tasks, keyed by distinct skeleton indexes
  generalize htasks : skeleton.zipIdx.map (fun (header, i) => (skeletonIndex origin i, header)) = tasks
  have hsnd : skeleton.zipIdx.map Prod.snd = List.range skeleton.length := by
    simp [List.range_eq_range']
  have hfst : tasks.map Prod.fst = (List.range skeleton.length).map (skeletonIndex origin) := by
    rw [← htasks, List.map_map, ← hsnd, List.map_map]
    rfl
  have hnodup : (tasks.map Prod.fst).Nodup := by
    rw [hfst]
    exact List.nodup_range.map_on fun x hx y hy hxy =>
      skeletonIndex_inj fits (List.mem_range.1 hx) (List.mem_range.1 hy) hxy
  have hkeys := keys_foldl_insert tasks ∅ hnodup fun _ _ => AList.notMem_empty _
  rw [AList.keys_empty, Multiset.coe_nil, zero_add] at hkeys
  refine ⟨rfl, rfl, by simp [HeaderQueue.results], ?_, ?_, ?_, ⟨by simp, by simp, by simp⟩⟩
  · -- every task is the gap below its skeleton header
    intro index header hlookup
    rcases lookup_foldl_insert tasks ∅ index header hlookup with hmem | hempty
    · rw [← htasks] at hmem
      obtain ⟨⟨header', i⟩, hzip, hpair⟩ := List.mem_map.1 hmem
      obtain ⟨rfl, rfl⟩ := Prod.mk.inj hpair
      have hget := List.mem_zipIdx_iff_getElem?.1 hzip
      exact ⟨i, (List.getElem?_eq_some_iff.1 hget).1, rfl, hget⟩
    · simp at hempty
  · simp only [HeaderQueue.outstanding, contents_foldl_task, idle, pendingFroms_empty, hkeys,
      Prque.contents_new, zero_add, add_zero]
  · -- nothing is filled, and every batch has its task
    intro j hj
    have hjn : j / 192 < skeleton.length := Nat.div_lt_of_lt_mul (by simpa [HeaderQueue.results,
      mul_comm] using hj)
    have hmem : skeletonIndex origin (j / 192) ∈ (tasks.map Prod.fst : Multiset UInt64) := by
      rw [hfst, Multiset.mem_coe]
      exact List.mem_map_of_mem (List.mem_range.2 hjn)
    rw [← hkeys] at hmem
    have hnone : (List.replicate (skeleton.length * MaxHeaderFetch.toNatClampNeg)
        (none : Option Header)).getD j none = none := by simp
    simp only [HeaderQueue.results, Option.getD_some, hnone, Option.isSome_none, Bool.false_eq_true,
      false_iff, not_not]
    exact AList.mem_keys.1 (Multiset.mem_coe.1 hmem)

/-! ## Runs -/

/-- The calls of a run: a cancel is of the request its peer has pending. -/
def Legal (q : HeaderQueue) : HeaderOp → Prop
  | .cancel request => q.headerPendPool.lookup request.Peer = some request
  | _ => True

section Run

variable {origin : UInt64} {skeleton : List Header}
  (pos : 0 < origin) (fits : origin.toNat + skeleton.length * 192 ≤ 2 ^ 64)
include pos fits

omit pos in
/-- A delivery of a pending request at a state of the invariant: the request
is for a task of the pool, and the delivery does not panic, keeps the
invariant, does not move the processed count back, is accepted exactly when
it is the `FillSpec` fill of the task, and when rejected leaves the results
alone and hands the index back to the queue. -/
theorem FillInv.DeliverHeaders_pending {q : HeaderQueue} (inv : FillInv origin skeleton q)
    {id : String} {request : FetchRequest} (pending : q.headerPendPool.lookup id = some request)
    (headers : List Header) (sent : Bool) :
    ∃ i header, i < skeleton.length ∧ skeleton[i]? = some header ∧
      request.From = skeletonIndex origin i ∧ q.headerTaskPool.lookup request.From = some header ∧
      ∃ q' result, q.DeliverHeaders id headers sent = some (q', result) ∧
        FillInv origin skeleton q' ∧ q.headerProced ≤ q'.headerProced ∧
        (FillSpec request.From header.Hash headers → result = .ok headers.length) ∧
        (¬FillSpec request.From header.Hash headers →
          result = .error .deliveryNotAccepted ∧ q'.headerResults = q.headerResults ∧
            q'.headerTaskQueue.contents = q.headerTaskQueue.contents + {request.From}) := by
  -- the request is for a task of the pool
  obtain ⟨i, hi, hindex, header, hskel, htask⟩ :=
    inv.index_of_mem (inv.mem_of_outstanding (Multiset.mem_add.2 (Or.inr (mem_pendingFroms pending))))
  have hfits : request.From.toNat + 192 ≤ 2 ^ 64 := by
    rw [hindex, toNat_skeletonIndex fits hi]
    nlinarith
  refine ⟨i, header, hi, hskel, hindex, htask, ?_⟩
  cases haccept : acceptsFill request.From header.Hash headers with
  | true =>
    obtain ⟨q', hq', inv', hproced, -⟩ :=
      inv.DeliverHeaders_accept sent fits pending hi hindex htask haccept
    have hspec := (acceptsFill_iff hfits).1 haccept
    exact ⟨q', _, hq', inv', hproced, fun _ => rfl, fun hnot => absurd hspec hnot⟩
  | false =>
    obtain ⟨q', hq', moves, hqueue⟩ := DeliverHeaders_reject sent pending
      (by rw [htask, Option.map_some, Option.getD_some]; exact haccept)
    have hspec : ¬FillSpec request.From header.Hash headers := fun h =>
      Bool.false_ne_true (haccept.symm.trans ((acceptsFill_iff hfits).2 h))
    exact ⟨q', _, hq', inv.of_moves moves, moves.proced.ge, fun h => absurd h hspec,
      fun _ => ⟨rfl, moves.results, hqueue⟩⟩

omit pos in
/-- A delivery at a state of the invariant does not panic, keeps the
invariant and does not move the processed count back. -/
theorem FillInv.DeliverHeaders {q : HeaderQueue} (inv : FillInv origin skeleton q) (id : String)
    (headers : List Header) (sent : Bool) :
    ∃ q' result, q.DeliverHeaders id headers sent = some (q', result) ∧
      FillInv origin skeleton q' ∧ q.headerProced ≤ q'.headerProced := by
  cases hlookup : q.headerPendPool.lookup id with
  | none => exact ⟨q, _, DeliverHeaders_unrequested hlookup, inv, le_refl _⟩
  | some request =>
    obtain ⟨-, -, -, -, -, -, q', result, hq', inv', hproced, -⟩ :=
      inv.DeliverHeaders_pending fits hlookup headers sent
    exact ⟨q', result, hq', inv', hproced⟩

/-- One call of a run keeps the invariant, panics never, and does not move
the processed count back. -/
theorem FillInv.step {q : HeaderQueue} (inv : FillInv origin skeleton q) {op : HeaderOp}
    (legal : Legal q op) :
    ∃ q', q.step op = some q' ∧ FillInv origin skeleton q' ∧ q.headerProced ≤ q'.headerProced := by
  cases op with
  | reserve p =>
    have moves := ReserveHeaders_moves p (inv.zero_not_mem_queue pos fits)
    exact ⟨_, rfl, inv.of_moves moves, moves.proced.ge⟩
  | cancel request =>
    have hnonzero : request.From ≠ 0 := fun h =>
      inv.zero_not_mem_pending pos fits (h ▸ mem_pendingFroms legal)
    have moves := CancelHeaders_moves legal hnonzero
    exact ⟨_, rfl, inv.of_moves moves, moves.proced.ge⟩
  | expire expired =>
    have moves := ExpireHeaders_moves expired (inv.zero_not_mem_pending pos fits)
    exact ⟨_, rfl, inv.of_moves moves, moves.proced.ge⟩
  | deliver id headers sent =>
    obtain ⟨q', result, hq', inv', hproced⟩ := inv.DeliverHeaders fits id headers sent
    exact ⟨q', by simp [HeaderQueue.step, hq'], inv', hproced⟩

/-- The states of a fill of `skeleton` from `origin`: scheduled on a queue
with no request pending, then any legal calls that do not panic. -/
inductive Reach (origin : UInt64) (skeleton : List Header) : HeaderQueue → Prop
  | schedule {q₀ q : HeaderQueue} : q₀.headerPendPool = ∅ →
      q₀.ScheduleSkeleton origin skeleton = some q → Reach origin skeleton q
  | step {q q' : HeaderQueue} {op : HeaderOp} : Reach origin skeleton q → Legal q op →
      q.step op = some q' → Reach origin skeleton q'

/-- The run lemma: every state of a fill keeps the invariant. -/
theorem Reach.fillInv {q : HeaderQueue} (reach : Reach origin skeleton q) :
    FillInv origin skeleton q := by
  induction reach with
  | schedule idle hq => exact FillInv.ScheduleSkeleton fits idle hq
  | step _ legal hstep inv =>
    obtain ⟨q'', hq'', inv', -⟩ := inv.step pos fits legal
    rw [hstep, Option.some_inj] at hq''
    exact hq'' ▸ inv'

omit pos fits in
/-- A batch is still to fill exactly when its task is in the pool. -/
theorem FillInv.unfilled_iff {q : HeaderQueue} (inv : FillInv origin skeleton q) {i : Nat}
    (hi : i < skeleton.length) :
    q.results.getD (i * 192) none = none ↔ skeletonIndex origin i ∈ q.headerTaskPool := by
  have hj : i * 192 < q.results.length := by rw [inv.length_results]; nlinarith
  have hfilled := inv.filled (i * 192) hj
  rw [Nat.mul_div_cancel i (by norm_num)] at hfilled
  rw [← Option.not_isSome_iff_eq_none, hfilled, not_not]

omit pos fits in
/-- Every task in the pool is outstanding once. -/
theorem FillInv.count_outstanding {q : HeaderQueue} (inv : FillInv origin skeleton q) {index : UInt64}
    (h : index ∈ q.headerTaskPool) : q.outstanding.count index = 1 := by
  rw [inv.outstanding, Multiset.coe_count]
  exact List.count_eq_one_of_mem q.headerTaskPool.keys_nodup (AList.mem_keys.2 h)

end Run

/-- Every state of a fill of a skeleton numbered below `2^64` from a non-zero
index, scheduled on a queue with no request pending and run by any calls
whose cancels are of pending requests: each index of a batch not yet filled
is once in the task queue or the pending requests, and nothing else is there;
a pending request is for a task of the pool, and its delivery does not panic,
is accepted exactly when it is the fill of `FillSpec`, and when rejected
leaves the results alone and puts the index back in the queue; the processed
headers are whole filled batches, and no call panics or moves them back. -/
theorem skeleton_fill_keeps_every_task {origin : UInt64} {skeleton : List Header} {q : HeaderQueue}
    (pos : 0 < origin) (fits : origin.toNat + skeleton.length * 192 ≤ 2 ^ 64)
    (reach : Reach origin skeleton q) :
    (∀ i < skeleton.length, q.results.getD (i * 192) none = none →
      q.outstanding.count (skeletonIndex origin i) = 1) ∧
    (∀ index ∈ q.outstanding, ∃ i < skeleton.length,
      index = skeletonIndex origin i ∧ q.results.getD (i * 192) none = none) ∧
    (∀ id request, q.headerPendPool.lookup id = some request → ∀ headers sent,
      ∃ header, (∃ i < skeleton.length, skeleton[i]? = some header ∧
          request.From = skeletonIndex origin i) ∧
        q.headerTaskPool.lookup request.From = some header ∧
        ∃ q' result, q.DeliverHeaders id headers sent = some (q', result) ∧
          (FillSpec request.From header.Hash headers → result = .ok headers.length) ∧
          (¬FillSpec request.From header.Hash headers →
            result = .error .deliveryNotAccepted ∧ q'.headerResults = q.headerResults ∧
              q'.headerTaskQueue.contents = q.headerTaskQueue.contents + {request.From})) ∧
    FilledPrefix q.results q.headerProced ∧
    (∀ op, Legal q op → ∃ q', q.step op = some q' ∧ q.headerProced ≤ q'.headerProced) := by
  have inv := reach.fillInv pos fits
  refine ⟨fun i hi hnone => inv.count_outstanding ((inv.unfilled_iff hi).1 hnone), ?_, ?_,
    inv.proced, fun op legal => ?_⟩
  · intro index hindex
    obtain ⟨i, hi, rfl, -⟩ := inv.index_of_mem (inv.mem_of_outstanding hindex)
    exact ⟨i, hi, rfl, (inv.unfilled_iff hi).2 (inv.mem_of_outstanding hindex)⟩
  · intro id request pending headers sent
    obtain ⟨i, header, hi, hskel, hindex, htask, q', result, hq', -, -, hok, hreject⟩ :=
      inv.DeliverHeaders_pending fits pending headers sent
    exact ⟨header, ⟨i, hi, hskel, hindex⟩, htask, q', result, hq', hok, hreject⟩
  · obtain ⟨q', hq', -, hproced⟩ := inv.step pos fits legal
    exact ⟨q', hq', hproced⟩

/-- A skeleton of two headers from `1`, whose batches the peers `a` and `b`
have reserved: a delivery of nothing from `a` is rejected and hands the index
`1` back to the queue. -/
theorem skeleton_fill_keeps_every_task_on_two_batches :
    let q := ((((newQueue.ScheduleSkeleton 1 [genesisHeader, sideHeader]).getD
      newQueue).ReserveHeaders "a").1.ReserveHeaders "b").1
    Reach 1 [genesisHeader, sideHeader] q ∧
      ∃ q' result, q.DeliverHeaders "a" [] true = some (q', result) ∧
        result = .error .deliveryNotAccepted ∧
        q'.headerTaskQueue.contents = q.headerTaskQueue.contents + {1} := by
  intro q
  have scheduled := @Reach.schedule 1 [genesisHeader, sideHeader] newQueue _ rfl rfl
  have reserved := @Reach.step 1 _ _ _ (.reserve "a") scheduled trivial rfl
  have reach : Reach 1 [genesisHeader, sideHeader] q :=
    @Reach.step 1 _ _ _ (.reserve "b") reserved trivial rfl
  have hpend : q.headerPendPool.lookup "a" = some ⟨"a", 1⟩ := by decide +kernel
  obtain ⟨-, -, hdeliver, -⟩ := skeleton_fill_keeps_every_task (by decide) (by decide) reach
  obtain ⟨header, -, -, q', result, hq', -, hreject⟩ := hdeliver "a" _ hpend [] true
  -- an empty delivery is not the batch of 192 headers the task asks for
  have hnot : ¬FillSpec 1 header.Hash [] := fun h => absurd h.1 (by decide)
  obtain ⟨hresult, -, hqueue⟩ := hreject hnot
  exact ⟨reach, q', result, hq', hresult, hqueue⟩

end Btp.Downloader
