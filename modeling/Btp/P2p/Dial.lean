import Mathlib
import Btp.Lib.GoHeap
import Btp.P2p.Discover.Table
import Btp.P2p.Peer

/-!
# The dial scheduler

`dialstate` of `p2p/dial.go`: the part of the server that decides which nodes
to dial. On every pass of the server loop `newTasks` looks at the connected
peers and its own bookkeeping and hands back new tasks: a dial for each
static node that is not connected, a bootnode when there are no peers at all,
random nodes of the discovery table and results of earlier lookups for the
dynamic dials still needed, a discovery lookup when more candidates are
needed, and a timer when there is nothing else to wait for. `taskDone`
takes a finished task back: a dial goes into the history `hist`, whose
entries keep a node from being dialed again until they expire, and a lookup
hands over its results.

A candidate passes `checkDial` only if it is not being dialed, not connected,
not the local node, inside the `NetRestrict` whitelist and not in the
history. The tasks' `Do` (resolving, dialing, the lookups of the discovery
table) run outside the scheduler; what the discovery table returns is a
parameter of `newTasks` and of the completion of a lookup. A dial task keeps
its flags and destination; the resolve backoff it keeps for `Do` is left out.

Times are nanoseconds. The history is the `expHeap` of `p2p/util.go`, a
`container/heap` of node IDs ordered by expiry (`Btp.Lib.GoHeap`).
-/

namespace Btp

namespace Enode

/-- `enode.Node`, with the fields the scheduler reads: its ID and its IP. -/
structure Node where
  ID : ID
  IP : Netutil.IP
  deriving DecidableEq, Repr

end Enode

namespace P2p

open Enode

/-! ## Times, flags and peers -/

/-- `time.Time` and `time.Duration`, in nanoseconds. -/
abbrev Time := Int

/-- `time.Second`. -/
def Second : Int := 1000000000

/-- `inboundThrottleTime` of `server.go`. -/
def inboundThrottleTime : Int := 30 * Second

/-- `dialHistoryExpiration`. -/
def dialHistoryExpiration : Int := inboundThrottleTime + 5 * Second

/-- `fallbackInterval`. -/
def fallbackInterval : Int := 20 * Second

/-- `connFlag`: a bit set of the four flags `server.go` declares, one field
for each bit. -/
structure connFlag where
  dyn : Bool
  static : Bool
  inbound : Bool
  trusted : Bool
  deriving DecidableEq, Repr

/-- `dynDialedConn`. -/
def dynDialedConn : connFlag := ⟨true, false, false, false⟩
/-- `staticDialedConn`. -/
def staticDialedConn : connFlag := ⟨false, true, false, false⟩
/-- `inboundConn`. -/
def inboundConn : connFlag := ⟨false, false, true, false⟩
/-- `trustedConn`. -/
def trustedConn : connFlag := ⟨false, false, false, true⟩

namespace connFlag

/-- `f | g`. -/
def or (f g : connFlag) : connFlag :=
  ⟨f.dyn || g.dyn, f.static || g.static, f.inbound || g.inbound, f.trusted || g.trusted⟩

/-- `flags&f != 0`. -/
def is (flags f : connFlag) : Bool :=
  (flags.dyn && f.dyn) || (flags.static && f.static) || (flags.inbound && f.inbound) ||
    (flags.trusted && f.trusted)

/-- The flags `conn.set(f, val)` leaves: `flags | f`, or `flags &^ f`. -/
def set (flags f : connFlag) (val : Bool) : connFlag :=
  if val then flags.or f
  else ⟨flags.dyn && !f.dyn, flags.static && !f.static, flags.inbound && !f.inbound,
    flags.trusted && !f.trusted⟩

@[simp] theorem is_dynDialedConn (flags : connFlag) : flags.is dynDialedConn = flags.dyn := by
  simp [is, dynDialedConn]

@[simp] theorem is_inboundConn (flags : connFlag) : flags.is inboundConn = flags.inbound := by
  simp [is, inboundConn]

/-- Setting or clearing the trusted bit leaves the others. -/
@[simp] theorem set_trustedConn_dyn (flags : connFlag) (val : Bool) :
    (flags.set trustedConn val).dyn = flags.dyn := by
  cases val <;> simp [set, or, trustedConn]

@[simp] theorem set_trustedConn_inbound (flags : connFlag) (val : Bool) :
    (flags.set trustedConn val).inbound = flags.inbound := by
  cases val <;> simp [set, or, trustedConn]

end connFlag

/-- `conn`, with the fields the server loop reads: the remote node, the flags
and the capabilities it announced. -/
structure conn where
  node : Node
  flags : connFlag
  caps : List Cap

/-- `conn.is`. -/
def conn.is (c : conn) (f : connFlag) : Bool := c.flags.is f

/-- `Peer`: its connection and the protocols `newPeer` matched. -/
structure Peer where
  rw : conn
  running : GoMap String protoRW

/-- `Peer.ID`. -/
def Peer.ID (p : Peer) : ID := p.rw.node.ID

/-- `Peer.Inbound`. -/
def Peer.Inbound (p : Peer) : Bool := p.rw.is inboundConn

/-- The node of the test runs whose ID holds `i` in every byte, with no IP. -/
def testNode (i : UInt8) : Node := ⟨Vector.replicate 32 i, []⟩

/-! ## The dial history -/

/-- `expItem`: a node ID, for the string of its bytes, and when it expires. -/
structure expItem where
  item : ID
  exp : Time
  deriving DecidableEq, Repr

/-- `expHeap`. -/
abbrev expHeap := Array expItem

namespace expHeap

/-- `expHeap.Less`. -/
def Less (a b : expItem) : Bool := decide (a.exp < b.exp)

/-- `nextExpiry`; Go panics on an empty heap, which no caller reaches. -/
def nextExpiry (h : expHeap) : Option Time := h[0]?.map (·.exp)

/-- `add`. -/
def add (h : expHeap) (item : ID) (exp : Time) : expHeap := GoHeap.Push Less h ⟨item, exp⟩

/-- `contains`. -/
def contains (h : expHeap) (item : ID) : Bool := h.toList.any (·.item = item)

/-- `expire`: pop while the next expiry is before `now`. -/
def expire (h : expHeap) (now : Time) : expHeap :=
  if h0 : 0 < h.size then
    if h[0].exp < now then expire (GoHeap.Pop Less h h0).1 now else h
  else h
termination_by h.size
decreasing_by simp only [GoHeap.size_Pop]; omega

theorem keyedBy_Less : GoHeap.KeyedBy Less expItem.exp := fun a b => by simp [Less]

/-- A well-formed history: a heap by expiry. -/
def Valid (h : expHeap) : Prop := GoHeap.IsHeap expItem.exp h h.size

theorem valid_empty : Valid #[] := fun _ hj => absurd hj (by simp)

theorem Valid.add {h : expHeap} (hh : h.Valid) (item : ID) (exp : Time) : (h.add item exp).Valid :=
  hh.Push keyedBy_Less _

theorem add_perm (h : expHeap) (item : ID) (exp : Time) :
    (h.add item exp).toList.Perm (h.toList ++ [⟨item, exp⟩]) := by
  simpa [add] using (@GoHeap.Push_perm _ Less h ⟨item, exp⟩).toList

/-- `expire` keeps a heap, and keeps exactly the entries that expire at `now`
or later: the root is the least, so popping stops at the first entry that
has not expired. -/
theorem Valid.expire {h : expHeap} (hh : h.Valid) (now : Time) :
    (h.expire now).Valid ∧ (h.expire now).toList.Perm (h.toList.filter fun x => now ≤ x.exp) := by
  fun_induction expHeap.expire h now with
  | case1 h h0 hlt ih =>
    obtain ⟨hroot, hheap, hperm⟩ := hh.Pop keyedBy_Less h0
    obtain ⟨hv, hp⟩ := ih hheap
    refine ⟨hv, hp.trans ?_⟩
    -- the popped root has expired, so filtering drops it
    have hf := hperm.filter fun x => decide (now ≤ x.exp)
    rw [List.filter_append, hroot] at hf
    simpa [not_le.2 hlt] using hf
  | case2 h h0 hge =>
    refine ⟨hh, ?_⟩
    rw [List.filter_eq_self.2]
    intro x hx
    obtain ⟨j, hj, rfl⟩ := List.getElem_of_mem hx
    have hroot := GoHeap.IsHeap.root_le hh j (by simpa using hj) (by simpa using hj)
    simp only [Array.getElem_toList] at hroot ⊢
    exact decide_eq_true (le_trans (not_lt.1 hge) hroot)
  | case3 h h0 =>
    have : h = #[] := Array.eq_empty_of_size_eq_zero (by omega)
    subst this
    exact ⟨hh, by simp⟩

theorem contains_iff (h : expHeap) (item : ID) :
    h.contains item = true ↔ ∃ x ∈ h.toList, x.item = item := by
  simp only [contains, List.any_eq_true, decide_eq_true_eq]

/-- After `expire now`, a node is in the history exactly when one of its
entries expires at `now` or later. -/
theorem Valid.contains_expire {h : expHeap} (hh : h.Valid) (now : Time) (item : ID) :
    (h.expire now).contains item = true ↔ ∃ x ∈ h.toList, x.item = item ∧ now ≤ x.exp := by
  rw [contains_iff]
  constructor
  · rintro ⟨x, hx, rfl⟩
    have hx' := (hh.expire now).2.subset hx
    rw [List.mem_filter, decide_eq_true_iff] at hx'
    exact ⟨x, hx'.1, rfl, hx'.2⟩
  · rintro ⟨x, hx, rfl, hle⟩
    exact ⟨x, (hh.expire now).2.symm.subset (List.mem_filter.2 ⟨hx, by simpa using hle⟩), rfl⟩

end expHeap

/-! ## Tasks and the scheduler's state -/

/-- `dialTask`, without the resolve backoff that only its `Do` reads. -/
structure dialTask where
  flags : connFlag
  dest : Node
  deriving DecidableEq, Repr

/-- The three kinds of `task`. A `discoverTask` holds the results its `Do`
stored in it. -/
inductive task
  | dialTask (t : dialTask)
  | discoverTask (results : List Node)
  | waitExpireTask (d : Int)
  deriving DecidableEq, Repr

/-- The errors of `checkDial`. -/
inductive DialError
  | errSelf
  | errAlreadyDialing
  | errAlreadyConnected
  | errRecentlyDialed
  | errNotWhitelisted
  deriving DecidableEq, Repr

/-- `dialstate`, with the fields `newTasks` and `taskDone` read. The buffer
`randomNodes` is left out: its length, `maxDynDials / 2`, is all that
outlives a call. -/
structure dialstate where
  maxDynDials : Nat
  netrestrict : Option (List Netutil.IPNet)
  self : ID
  bootnodes : List Node
  start : Option Time
  lookupRunning : Bool
  dialing : GoMap ID connFlag
  lookupBuf : List Node
  static : GoMap ID dialTask
  hist : expHeap

namespace dialstate

/-- `addStatic`: a new task, so that a later dial resolves the node again. -/
def addStatic (s : dialstate) (n : Node) : dialstate :=
  { s with static := s.static.insert n.ID ⟨staticDialedConn, n⟩ }

/-- `removeStatic`. -/
def removeStatic (s : dialstate) (n : Node) : dialstate :=
  { s with static := s.static.erase n.ID }

/-- `checkDial`: why `n` may not be dialed now, if it may not. -/
def checkDial (s : dialstate) (n : Node) (peers : GoMap ID Peer) : Option DialError :=
  if (s.dialing.lookup n.ID).isSome then some .errAlreadyDialing
  else if (peers.lookup n.ID).isSome then some .errAlreadyConnected
  else if n.ID = s.self then some .errSelf
  else if s.netrestrict.any (fun l => !Netutil.Contains l n.IP) then some .errNotWhitelisted
  else if s.hist.contains n.ID then some .errRecentlyDialed
  else none

end dialstate

/-- `newDialState`, for a configuration's `NetRestrict`, `BootstrapNodes` and
`StaticNodes`. -/
def newDialState (self : ID) (maxdyn : Nat) (netrestrict : Option (List Netutil.IPNet))
    (bootnodes staticNodes : List Node) : dialstate :=
  staticNodes.foldl dialstate.addStatic
    { maxDynDials := maxdyn, netrestrict, self, bootnodes, start := none, lookupRunning := false,
      dialing := ∅, lookupBuf := [], static := ∅, hist := #[] }

/-! ## `newTasks` -/

/-- What the body of `newTasks` has built up at a point: the scheduler's
state, the tasks so far and `needDynDials`. -/
structure Plan where
  s : dialstate
  newtasks : List task
  needDynDials : Int

namespace Plan

variable (peers : GoMap ID Peer)

/-- `addDial`: record the dial and add its task, if `checkDial` lets it
through. -/
def addDial (p : Plan) (flag : connFlag) (n : Node) : Bool × Plan :=
  match p.s.checkDial n peers with
  | some _ => (false, p)
  | none =>
    (true, { p with
      s := { p.s with dialing := p.s.dialing.insert n.ID flag }
      newtasks := p.newtasks ++ [.dialTask ⟨flag, n⟩] })

/-- A dynamic dial: `if addDial(dynDialedConn, n) { needDynDials-- }`. -/
def dynDial (p : Plan) (n : Node) : Plan :=
  let (ok, p) := p.addDial peers dynDialedConn n
  if ok then { p with needDynDials := p.needDynDials - 1 } else p

/-- One entry of the loop over the static nodes: a node that may never be
dialed is dropped, one that may be dialed now gets its task. -/
def staticDial (p : Plan) (e : (_ : ID) × dialTask) : Plan :=
  match p.s.checkDial e.2.dest peers with
  | some .errNotWhitelisted | some .errSelf =>
    { p with s := { p.s with static := p.s.static.erase e.2.dest.ID } }
  | none =>
    { p with
      s := { p.s with dialing := p.s.dialing.insert e.1 e.2.flags }
      newtasks := p.newtasks ++ [.dialTask e.2] }
  | some _ => p

/-- The bootnode fallback: with no peers at all and `fallbackInterval` past
the start, the first bootnode moves to the end and is dialed. -/
def bootDial (p : Plan) (elapsed : Int) : Plan :=
  match p.s.bootnodes with
  | bootnode :: rest =>
    if peers.entries.length = 0 ∧ 0 < p.needDynDials ∧ elapsed > fallbackInterval then
      dynDial peers { p with s := { p.s with bootnodes := rest ++ [bootnode] } } bootnode
    else p
  | [] => p

/-- Random nodes of the table for half of the dynamic dials needed;
`random` is what `ReadRandomNodes` wrote into the buffer. -/
def randomDials (p : Plan) (random : List Node) : Plan :=
  let randomCandidates := p.needDynDials.tdiv 2
  if 0 < randomCandidates then (random.take randomCandidates.toNat).foldl (dynDial peers) p
  else p

/-- The loop over the lookup results: it stops when no dynamic dial is
needed, and hands back the results it did not try. -/
def lookupLoop : Plan → List Node → Plan × List Node
  | p, [] => (p, [])
  | p, n :: rest => if 0 < p.needDynDials then lookupLoop (dynDial peers p n) rest else (p, n :: rest)

/-- Dynamic dials from the lookup results, keeping the untried ones. -/
def lookupDials (p : Plan) : Plan :=
  let r := lookupLoop peers p p.s.lookupBuf
  { r.1 with s := { r.1.s with lookupBuf := r.2 } }

end Plan

namespace Plan

/-- A discovery lookup, if more candidates are needed and none is running. -/
def startLookup (p : Plan) : Plan :=
  if (p.s.lookupBuf.length : Int) < p.needDynDials ∧ p.s.lookupRunning = false then
    { p with s := { p.s with lookupRunning := true }, newtasks := p.newtasks ++ [.discoverTask []] }
  else p

/-- A timer for the next expiry of the history, if nothing runs and nothing
else was scheduled. -/
def waitExpire (p : Plan) (nRunning : Nat) (now : Time) : Plan :=
  match p.s.hist.nextExpiry with
  | some exp =>
    if nRunning = 0 ∧ p.newtasks = [] then
      { p with newtasks := p.newtasks ++ [.waitExpireTask (exp - now)] }
    else p
  | none => p

end Plan

/-- The connected peers that were dialed as dynamic dials. -/
def dynPeers (peers : GoMap ID Peer) : Nat := (peers.entries.filter (·.2.rw.is dynDialedConn)).length

/-- The dials under way that are dynamic. -/
def dynDialing (dialing : GoMap ID connFlag) : Nat := (dialing.entries.filter (·.2.is dynDialedConn)).length

namespace dialstate

/-- `newTasks`. `random` is what `ntab.ReadRandomNodes` writes into the
buffer `randomNodes`, of length `maxDynDials / 2`. -/
def newTasks (s : dialstate) (nRunning : Nat) (peers : GoMap ID Peer) (now : Time)
    (random : List Node) : dialstate × List task :=
  let start := s.start.getD now
  -- Compute number of dynamic dials necessary at this point.
  let needDynDials : Int := s.maxDynDials - dynPeers peers - dynDialing s.dialing
  -- Expire the dial history on every invocation.
  let s := { s with start := some start, hist := s.hist.expire now }
  let p := s.static.entries.foldl (Plan.staticDial peers) ⟨s, [], needDynDials⟩
  let p := p.bootDial peers (now - start)
  let p := p.randomDials peers (random.take (s.maxDynDials / 2))
  let p := p.lookupDials peers
  let p := p.startLookup
  let p := p.waitExpire nRunning now
  (p.s, p.newtasks)

/-- `taskDone`: a dial goes into the history, a lookup hands over its
results. -/
def taskDone (s : dialstate) (t : task) (now : Time) : dialstate :=
  match t with
  | .dialTask t =>
    { s with
      hist := s.hist.add t.dest.ID (now + dialHistoryExpiration)
      dialing := s.dialing.erase t.dest.ID }
  | .discoverTask results => { s with lookupRunning := false, lookupBuf := s.lookupBuf ++ results }
  | .waitExpireTask _ => s

end dialstate

/-! ## What `newTasks` adds -/

/-- The destination and flags of a dial task. -/
def task.dial? : task → Option (ID × connFlag)
  | .dialTask t => some (t.dest.ID, t.flags)
  | _ => none

/-- Whether a task is a discovery lookup. -/
def task.isLookup : task → Bool
  | .discoverTask _ => true
  | _ => false

/-- The destinations and flags of the dial tasks among `ts`. -/
def dials (ts : List task) : List (ID × connFlag) := ts.filterMap task.dial?

/-- The number of dynamic dials among `ts`. -/
def dynCount (ts : List task) : Nat := ((dials ts).filter (·.2.dyn)).length

/-- The number of discovery lookups among `ts`. -/
def lookups (ts : List task) : Nat := ts.countP task.isLookup

@[simp] theorem dials_nil : dials [] = [] := rfl

@[simp] theorem dials_append (a b : List task) : dials (a ++ b) = dials a ++ dials b :=
  List.filterMap_append

@[simp] theorem dials_dialTask (t : dialTask) : dials [.dialTask t] = [(t.dest.ID, t.flags)] := rfl

@[simp] theorem dials_discoverTask (r : List Node) : dials [.discoverTask r] = [] := rfl

@[simp] theorem dials_waitExpireTask (d : Int) : dials [.waitExpireTask d] = [] := rfl

@[simp] theorem dynCount_nil : dynCount [] = 0 := rfl

@[simp] theorem dynCount_append (a b : List task) : dynCount (a ++ b) = dynCount a + dynCount b := by
  simp [dynCount]

@[simp] theorem dynCount_dialTask (t : dialTask) :
    dynCount [.dialTask t] = if t.flags.dyn then 1 else 0 := by
  cases h : t.flags.dyn <;> simp [dynCount, h]

@[simp] theorem dynCount_discoverTask (r : List Node) : dynCount [.discoverTask r] = 0 := rfl

@[simp] theorem dynCount_waitExpireTask (d : Int) : dynCount [.waitExpireTask d] = 0 := rfl

@[simp] theorem lookups_nil : lookups [] = 0 := rfl

@[simp] theorem lookups_append (a b : List task) : lookups (a ++ b) = lookups a + lookups b :=
  List.countP_append

@[simp] theorem lookups_dialTask (t : dialTask) : lookups [.dialTask t] = 0 := rfl

@[simp] theorem lookups_discoverTask (r : List Node) : lookups [.discoverTask r] = 1 := rfl

@[simp] theorem lookups_waitExpireTask (d : Int) : lookups [.waitExpireTask d] = 0 := rfl

theorem dials_cons (t : task) (ts : List task) : dials (t :: ts) = t.dial?.toList ++ dials ts := by
  cases t <;> rfl

theorem lookups_cons (t : task) (ts : List task) :
    lookups (t :: ts) = (if t.isLookup then 1 else 0) + lookups ts := by
  cases t <;> simp [lookups, task.isLookup, List.countP_cons, Nat.add_comm]

/-- A dial among `ts` comes from one of its dial tasks. -/
theorem mem_dials {ts : List task} {x : ID × connFlag} :
    x ∈ dials ts ↔ ∃ t, .dialTask t ∈ ts ∧ x = (t.dest.ID, t.flags) := by
  simp only [dials, List.mem_filterMap]
  constructor
  · rintro ⟨t, ht, hx⟩
    cases t with
    | dialTask d => exact ⟨d, ht, (Option.some.inj hx).symm⟩
    | discoverTask _ => cases hx
    | waitExpireTask _ => cases hx
  · rintro ⟨d, hd, rfl⟩
    exact ⟨_, hd, rfl⟩

namespace dialstate

/-- Every static node is stored under its own ID, as a static dial. -/
def StaticKeyed (s : dialstate) : Prop :=
  ∀ id t, s.static.lookup id = some t → t.dest.ID = id ∧ t.flags = staticDialedConn

theorem StaticKeyed.mem {s : dialstate} (h : s.StaticKeyed) {e : (_ : ID) × dialTask}
    (he : e ∈ s.static.entries) : e.2.dest.ID = e.1 ∧ e.2.flags = staticDialedConn :=
  h e.1 e.2 (AList.mem_lookup_iff.2 he)

theorem StaticKeyed.erase {s : dialstate} (h : s.StaticKeyed) (id : ID) :
    StaticKeyed { s with static := s.static.erase id } := by
  intro id' t ht
  by_cases hid : id' = id
  · subst hid
    simp at ht
  · exact h id' t (by simpa [AList.lookup_erase_ne hid] using ht)

theorem StaticKeyed.addStatic {s : dialstate} (h : s.StaticKeyed) (n : Node) :
    (s.addStatic n).StaticKeyed := by
  intro id t ht
  by_cases hid : id = n.ID
  · subst hid
    simp only [dialstate.addStatic, AList.lookup_insert, Option.some.injEq] at ht
    exact ht ▸ ⟨rfl, rfl⟩
  · exact h id t (by simpa [dialstate.addStatic, AList.lookup_insert_ne hid] using ht)

theorem StaticKeyed.removeStatic {s : dialstate} (h : s.StaticKeyed) (n : Node) :
    (s.removeStatic n).StaticKeyed :=
  h.erase n.ID

theorem checkDial_eq_none {s : dialstate} {n : Node} {peers : GoMap ID Peer} :
    s.checkDial n peers = none ↔
      s.dialing.lookup n.ID = none ∧ peers.lookup n.ID = none ∧ n.ID ≠ s.self ∧
        (∀ l, s.netrestrict = some l → Netutil.Contains l n.IP = true) ∧
        s.hist.contains n.ID = false := by
  unfold checkDial
  cases hd : s.dialing.lookup n.ID <;> cases hq : peers.lookup n.ID <;> cases hr : s.netrestrict <;>
    split_ifs <;> simp_all

/-- The state `newTasks` works on: the start recorded and the history
expired. -/
def expired (s : dialstate) (now : Time) : dialstate :=
  { s with start := some (s.start.getD now), hist := s.hist.expire now }

end dialstate

open dialstate

namespace Plan

variable {peers : GoMap ID Peer} {s₀ : dialstate} {p : Plan}

/-- What the body of `newTasks` keeps while it dials, against the state `s₀`
it started from: the dialing map gains exactly the dials added, each to a
node `checkDial` let through in `s₀` and none twice, and the fields the
checks read stay as they were. -/
structure Fresh (s₀ : dialstate) (peers : GoMap ID Peer) (p : Plan) : Prop where
  dialing : ∀ id f, p.s.dialing.lookup id = some f ↔
    s₀.dialing.lookup id = some f ∨ (id, f) ∈ dials p.newtasks
  nodup : ((dials p.newtasks).map Prod.fst).Nodup
  checked : ∀ t, .dialTask t ∈ p.newtasks → s₀.checkDial t.dest peers = none
  self : p.s.self = s₀.self
  netrestrict : p.s.netrestrict = s₀.netrestrict
  hist : p.s.hist = s₀.hist
  maxDynDials : p.s.maxDynDials = s₀.maxDynDials
  static : p.s.StaticKeyed
  lookupRunning : p.s.lookupRunning = s₀.lookupRunning
  noLookup : lookups p.newtasks = 0

theorem Fresh.init (h : s₀.StaticKeyed) (need : Int) : Fresh s₀ peers ⟨s₀, [], need⟩ :=
  ⟨by simp, by simp, by simp, rfl, rfl, rfl, rfl, h, rfl, rfl⟩

/-- A node `checkDial` lets through in the middle of `newTasks` would have
passed in `s₀` too, and has no dial yet. -/
theorem Fresh.checkDial (hp : p.Fresh s₀ peers) {n : Node} (hc : p.s.checkDial n peers = none) :
    s₀.checkDial n peers = none ∧ ∀ f, (n.ID, f) ∉ dials p.newtasks := by
  obtain ⟨hd, hpeer, hself, hnet, hhist⟩ := checkDial_eq_none.1 hc
  have hfree : ∀ f, ¬(s₀.dialing.lookup n.ID = some f ∨ (n.ID, f) ∈ dials p.newtasks) := by
    intro f hf
    rw [← hp.dialing, hd] at hf
    cases hf
  refine ⟨checkDial_eq_none.2 ⟨?_, hpeer, hp.self ▸ hself, hp.netrestrict ▸ hnet,
    hp.hist ▸ hhist⟩, fun f hf => hfree f (.inr hf)⟩
  cases h : s₀.dialing.lookup n.ID with
  | none => rfl
  | some f => exact absurd (.inl h) (hfree f)

/-- Recording a dial that `checkDial` let through. -/
theorem Fresh.add (hp : p.Fresh s₀ peers) {n : Node} (hc : p.s.checkDial n peers = none)
    (flag : connFlag) (need : Int) :
    Fresh s₀ peers ⟨{ p.s with dialing := p.s.dialing.insert n.ID flag },
      p.newtasks ++ [.dialTask ⟨flag, n⟩], need⟩ := by
  obtain ⟨hc₀, hnew⟩ := hp.checkDial hc
  have hs₀ : s₀.dialing.lookup n.ID = none := (checkDial_eq_none.1 hc₀).1
  refine ⟨fun id f => ?_, ?_, fun t ht => ?_, hp.self, hp.netrestrict, hp.hist, hp.maxDynDials,
    hp.static, hp.lookupRunning, by simpa using hp.noLookup⟩
  · by_cases hid : id = n.ID
    · subst hid
      simp only [AList.lookup_insert, dials_append, dials_dialTask, List.mem_append,
        List.mem_singleton, hs₀, Prod.mk.injEq, true_and, reduceCtorEq, false_or, Option.some.injEq]
      constructor
      · rintro rfl
        exact .inr rfl
      · rintro (hf | rfl)
        · exact absurd hf (hnew f)
        · rfl
    · simp only [AList.lookup_insert_ne hid, hp.dialing, dials_append, dials_dialTask,
        List.mem_append, List.mem_singleton, Prod.mk.injEq, hid, false_and, or_false]
  · have hfst : ∀ id f, (id, f) ∈ dials p.newtasks → id ≠ n.ID := fun id f hx h =>
      hnew f (h ▸ hx)
    simpa [List.nodup_append, hp.nodup] using hfst
  · rcases List.mem_append.1 ht with ht | ht
    · exact hp.checked t ht
    · simp only [List.mem_singleton, task.dialTask.injEq] at ht
      exact ht ▸ hc₀

section Phases

variable (peers : GoMap ID Peer)

/-- What `dynDial` does: nothing if `checkDial` refuses the node; otherwise
it records the dial and lowers `needDynDials`. -/
theorem dynDial_cases (p : Plan) (n : Node) :
    (p.s.checkDial n peers = none ∧ p.dynDial peers n =
      ⟨{ p.s with dialing := p.s.dialing.insert n.ID dynDialedConn },
        p.newtasks ++ [.dialTask ⟨dynDialedConn, n⟩], p.needDynDials - 1⟩) ∨
    (p.s.checkDial n peers ≠ none ∧ p.dynDial peers n = p) := by
  unfold dynDial addDial
  cases h : p.s.checkDial n peers <;> simp

/-- What `staticDial` does: the dial, dropping the node, or nothing. -/
theorem staticDial_cases (p : Plan) (e : (_ : ID) × dialTask) :
    (p.s.checkDial e.2.dest peers = none ∧ p.staticDial peers e =
      ⟨{ p.s with dialing := p.s.dialing.insert e.1 e.2.flags }, p.newtasks ++ [.dialTask e.2],
        p.needDynDials⟩) ∨
    p.staticDial peers e =
      ⟨{ p.s with static := p.s.static.erase e.2.dest.ID }, p.newtasks, p.needDynDials⟩ ∨
    p.staticDial peers e = p := by
  unfold staticDial
  split <;> simp_all

/-- A dynamic dial lowers `needDynDials` by the dial it adds, if any. -/
theorem dynDial_need (p : Plan) (n : Node) :
    (p.dynDial peers n).needDynDials + dynCount (p.dynDial peers n).newtasks =
        p.needDynDials + dynCount p.newtasks ∧
      p.needDynDials - 1 ≤ (p.dynDial peers n).needDynDials := by
  rcases dynDial_cases peers p n with ⟨-, h⟩ | ⟨-, h⟩ <;> rw [h]
  · simp only [dynCount_append, dynCount_dialTask, dynDialedConn, if_true]
    omega
  · omega

/-- A run of dynamic dials lowers `needDynDials` by one per dial added, and
by at most the number of candidates. -/
theorem foldl_dynDial_need (p : Plan) (l : List Node) :
    (l.foldl (Plan.dynDial peers) p).needDynDials + dynCount (l.foldl (Plan.dynDial peers) p).newtasks =
        p.needDynDials + dynCount p.newtasks ∧
      p.needDynDials - l.length ≤ (l.foldl (Plan.dynDial peers) p).needDynDials := by
  induction l generalizing p with
  | nil => simp
  | cons n l ih =>
    obtain ⟨heq, hle⟩ := ih (p.dynDial peers n)
    obtain ⟨heq₁, hle₁⟩ := dynDial_need peers p n
    simp only [List.foldl_cons, List.length_cons]
    omega

end Phases

section Fresh

variable {peers : GoMap ID Peer} {s₀ : dialstate} {p : Plan}

theorem Fresh.dynDial (hp : p.Fresh s₀ peers) (n : Node) : (p.dynDial peers n).Fresh s₀ peers := by
  rcases dynDial_cases peers p n with ⟨hc, h⟩ | ⟨-, h⟩
  · rw [h]
    exact hp.add hc _ _
  · rw [h]
    exact hp

theorem Fresh.staticDial (hp : p.Fresh s₀ peers) {e : (_ : ID) × dialTask}
    (he : e.2.dest.ID = e.1) : (p.staticDial peers e).Fresh s₀ peers := by
  rcases staticDial_cases peers p e with ⟨hc, h⟩ | h | h
  · have hadd := hp.add hc e.2.flags p.needDynDials
    rw [he] at hadd
    rw [h]
    exact hadd
  · rw [h]
    exact ⟨hp.dialing, hp.nodup, hp.checked, hp.self, hp.netrestrict, hp.hist, hp.maxDynDials,
      hp.static.erase _, hp.lookupRunning, hp.noLookup⟩
  · rw [h]
    exact hp

theorem Fresh.foldl_dynDial (hp : p.Fresh s₀ peers) (l : List Node) :
    (l.foldl (Plan.dynDial peers) p).Fresh s₀ peers := by
  induction l generalizing p with
  | nil => exact hp
  | cons n l ih => exact ih (hp.dynDial n)

theorem Fresh.foldl_staticDial (hp : p.Fresh s₀ peers) {l : List ((_ : ID) × dialTask)}
    (hl : ∀ e ∈ l, e.2.dest.ID = e.1) : (l.foldl (Plan.staticDial peers) p).Fresh s₀ peers := by
  induction l generalizing p with
  | nil => exact hp
  | cons e l ih =>
    exact ih (hp.staticDial (hl e List.mem_cons_self)) fun e' he' => hl e' (List.mem_cons_of_mem _ he')

theorem Fresh.bootDial (hp : p.Fresh s₀ peers) (elapsed : Int) :
    (p.bootDial peers elapsed).Fresh s₀ peers := by
  unfold Plan.bootDial
  split
  · next bootnode rest _ =>
    split_ifs
    · -- rotating the bootnodes touches nothing the dials read
      have hrot : Fresh s₀ peers { p with s := { p.s with bootnodes := rest ++ [bootnode] } } :=
        ⟨hp.dialing, hp.nodup, hp.checked, hp.self, hp.netrestrict, hp.hist, hp.maxDynDials,
          hp.static, hp.lookupRunning, hp.noLookup⟩
      exact hrot.dynDial bootnode
    · exact hp
  · exact hp

theorem Fresh.randomDials (hp : p.Fresh s₀ peers) (random : List Node) :
    (p.randomDials peers random).Fresh s₀ peers := by
  unfold Plan.randomDials
  dsimp only
  split_ifs
  · exact hp.foldl_dynDial _
  · exact hp

theorem Fresh.lookupLoop (hp : p.Fresh s₀ peers) (l : List Node) :
    (Plan.lookupLoop peers p l).1.Fresh s₀ peers := by
  induction l generalizing p with
  | nil => exact hp
  | cons n l ih =>
    rw [Plan.lookupLoop]
    split_ifs
    · exact ih (hp.dynDial n)
    · exact hp

theorem Fresh.lookupDials (hp : p.Fresh s₀ peers) : (p.lookupDials peers).Fresh s₀ peers := by
  have h := hp.lookupLoop p.s.lookupBuf
  exact ⟨h.dialing, h.nodup, h.checked, h.self, h.netrestrict, h.hist, h.maxDynDials, h.static,
    h.lookupRunning, h.noLookup⟩

end Fresh

/-- `needDynDials` went down by one for each dynamic dial added, and stayed
at zero or above if any was added. -/
def Budget (need₀ : Int) (p : Plan) : Prop :=
  need₀ = p.needDynDials + dynCount p.newtasks ∧ (dynCount p.newtasks = 0 ∨ 0 ≤ p.needDynDials)

section Budget

variable {peers : GoMap ID Peer} {need₀ : Int} {p : Plan}

theorem Budget.dynDial (hb : p.Budget need₀) (hpos : 0 < p.needDynDials) (n : Node) :
    (p.dynDial peers n).Budget need₀ := by
  obtain ⟨heq, hle⟩ := dynDial_need peers p n
  exact ⟨by rw [hb.1, heq], .inr (by omega)⟩

theorem Budget.staticDial (hb : p.Budget need₀) {e : (_ : ID) × dialTask}
    (he : e.2.flags = staticDialedConn) : (p.staticDial peers e).Budget need₀ := by
  rcases staticDial_cases peers p e with ⟨-, h⟩ | h | h
  · rw [h]
    simpa [Budget, he, staticDialedConn] using hb
  · rw [h]
    exact hb
  · rw [h]
    exact hb

theorem Budget.foldl_staticDial (hb : p.Budget need₀) {l : List ((_ : ID) × dialTask)}
    (hl : ∀ e ∈ l, e.2.flags = staticDialedConn) : (l.foldl (Plan.staticDial peers) p).Budget need₀ := by
  induction l generalizing p with
  | nil => exact hb
  | cons e l ih =>
    exact ih (hb.staticDial (hl e List.mem_cons_self)) fun e' he' => hl e' (List.mem_cons_of_mem _ he')

theorem Budget.bootDial (hb : p.Budget need₀) (elapsed : Int) :
    (p.bootDial peers elapsed).Budget need₀ := by
  unfold Plan.bootDial
  split
  · next bootnode rest _ =>
    split_ifs with hc
    · have hrot : Budget need₀ { p with s := { p.s with bootnodes := rest ++ [bootnode] } } := hb
      exact hrot.dynDial hc.2.1 bootnode
    · exact hb
  · exact hb

/-- Go's `needDynDials / 2`, when positive, leaves at least as many dials
needed as it hands to the random nodes. -/
theorem tdiv_two_le {a : Int} (h : 0 < a.tdiv 2) : a.tdiv 2 ≤ a - a.tdiv 2 := by
  rcases le_or_gt 0 a with ha | ha
  · rw [Int.tdiv_eq_ediv_of_nonneg ha] at h ⊢
    omega
  · rw [Int.tdiv_eq_ediv] at h
    split_ifs at h
    · omega
    · rw [show Int.sign 2 = 1 from rfl] at h
      omega

theorem Budget.randomDials (hb : p.Budget need₀) (random : List Node) :
    (p.randomDials peers random).Budget need₀ := by
  unfold Plan.randomDials
  dsimp only
  split_ifs with hrc
  · obtain ⟨heq, hle⟩ := foldl_dynDial_need peers p (random.take (p.needDynDials.tdiv 2).toNat)
    have hlen := List.length_take_le (p.needDynDials.tdiv 2).toNat random
    have hhalf := tdiv_two_le hrc
    have htoNat : ((p.needDynDials.tdiv 2).toNat : Int) = p.needDynDials.tdiv 2 :=
      Int.toNat_of_nonneg hrc.le
    exact ⟨by rw [hb.1]; omega, .inr (by omega)⟩
  · exact hb

theorem Budget.lookupLoop (hb : p.Budget need₀) (l : List Node) :
    (Plan.lookupLoop peers p l).1.Budget need₀ := by
  induction l generalizing p with
  | nil => exact hb
  | cons n l ih =>
    rw [Plan.lookupLoop]
    split_ifs with hpos
    · exact ih (hb.dynDial hpos n)
    · exact hb

theorem Budget.lookupDials (hb : p.Budget need₀) : (p.lookupDials peers).Budget need₀ :=
  hb.lookupLoop p.s.lookupBuf

end Budget

/-! The last two steps add no dial. -/

@[simp] theorem startLookup_dialing (p : Plan) : p.startLookup.s.dialing = p.s.dialing := by
  unfold startLookup
  split_ifs <;> rfl

@[simp] theorem startLookup_needDynDials (p : Plan) :
    p.startLookup.needDynDials = p.needDynDials := by
  unfold startLookup
  split_ifs <;> rfl

theorem startLookup_s (p : Plan) :
    p.startLookup.s = { p.s with lookupRunning := p.startLookup.s.lookupRunning } := by
  unfold startLookup
  split_ifs <;> rfl

@[simp] theorem dials_startLookup (p : Plan) : dials p.startLookup.newtasks = dials p.newtasks := by
  unfold startLookup
  split_ifs <;> simp

@[simp] theorem dynCount_startLookup (p : Plan) :
    dynCount p.startLookup.newtasks = dynCount p.newtasks := by
  unfold startLookup
  split_ifs <;> simp

/-- `startLookup` adds a lookup exactly when it marks one running. -/
theorem lookups_startLookup (p : Plan) :
    lookups p.startLookup.newtasks + (if p.s.lookupRunning then 1 else 0) =
      lookups p.newtasks + if p.startLookup.s.lookupRunning then 1 else 0 := by
  unfold startLookup
  split_ifs with h₁ h₂ <;> simp_all

@[simp] theorem waitExpire_s (p : Plan) (nRunning : Nat) (now : Time) :
    (p.waitExpire nRunning now).s = p.s := by
  unfold waitExpire
  split <;> (try split_ifs) <;> rfl

theorem waitExpire_newtasks (p : Plan) (nRunning : Nat) (now : Time) :
    ∃ extra, (p.waitExpire nRunning now).newtasks = p.newtasks ++ extra ∧ dials extra = [] ∧
      lookups extra = 0 := by
  unfold waitExpire
  split
  · split_ifs
    · exact ⟨_, rfl, rfl, rfl⟩
    · exact ⟨[], by simp, rfl, rfl⟩
  · exact ⟨[], by simp, rfl, rfl⟩

end Plan

namespace dialstate

/-- `newTasks` as its phases: the static nodes, the bootnode fallback, the
random nodes, the lookup results, a new lookup and the timer. -/
theorem newTasks_eq (s : dialstate) (nRunning : Nat) (peers : GoMap ID Peer) (now : Time)
    (random : List Node) :
    s.newTasks nRunning peers now random =
      let p := (((((s.expired now).static.entries.foldl (Plan.staticDial peers)
        ⟨s.expired now, [], s.maxDynDials - dynPeers peers - dynDialing s.dialing⟩).bootDial peers
          (now - s.start.getD now)).randomDials peers (random.take (s.maxDynDials / 2))).lookupDials
            peers).startLookup.waitExpire nRunning now;
      (p.s, p.newtasks) := rfl

/-- What `newTasks` hands back, against the state `s` it was called on: the
dialing map gains exactly the dials returned, one per node, each to a node
`checkDial` let through once the history expired; the dynamic ones fit in
`maxDynDials` with the dynamic peers and dials already counted; a lookup is
returned exactly when one is newly marked running; and the fields the
server reads stay. -/
structure NewTasks (s : dialstate) (peers : GoMap ID Peer) (now : Time) (s' : dialstate)
    (nt : List task) : Prop where
  dialing : ∀ id f, s'.dialing.lookup id = some f ↔ s.dialing.lookup id = some f ∨ (id, f) ∈ dials nt
  nodup : ((dials nt).map Prod.fst).Nodup
  checked : ∀ t, .dialTask t ∈ nt → (s.expired now).checkDial t.dest peers = none
  budget : dynCount nt = 0 ∨ dynPeers peers + dynDialing s.dialing + dynCount nt ≤ s.maxDynDials
  lookups : lookups nt + (if s.lookupRunning then 1 else 0) = if s'.lookupRunning then 1 else 0
  self : s'.self = s.self
  netrestrict : s'.netrestrict = s.netrestrict
  maxDynDials : s'.maxDynDials = s.maxDynDials
  static : s'.StaticKeyed
  hist : s'.hist = s.hist.expire now

theorem newTasks_spec {s : dialstate} (hs : s.StaticKeyed) (nRunning : Nat) (peers : GoMap ID Peer)
    (now : Time) (random : List Node) :
    NewTasks s peers now (s.newTasks nRunning peers now random).1
      (s.newTasks nRunning peers now random).2 := by
  rw [newTasks_eq]
  -- the four dialing phases keep `Fresh` and `Budget`; the last two add no dial
  generalize hneed : (s.maxDynDials : Int) - dynPeers peers - dynDialing s.dialing = need₀
  have hs₀ : (s.expired now).StaticKeyed := hs
  set p := ((((s.expired now).static.entries.foldl (Plan.staticDial peers)
    ⟨s.expired now, [], need₀⟩).bootDial peers (now - s.start.getD now)).randomDials peers
      (random.take (s.maxDynDials / 2))).lookupDials peers with hp
  have hfresh : p.Fresh (s.expired now) peers :=
    ((((Plan.Fresh.init hs₀ need₀).foldl_staticDial fun e he => (hs₀.mem he).1).bootDial _).randomDials
      _).lookupDials
  have hbudget : p.Budget need₀ :=
    ((((show Plan.Budget need₀ ⟨s.expired now, [], need₀⟩ by simp [Plan.Budget]).foldl_staticDial
      fun e he => (hs₀.mem he).2).bootDial _).randomDials _).lookupDials
  obtain ⟨extra, hextra, hdials, hlk⟩ := p.startLookup.waitExpire_newtasks nRunning now
  have hsl := Plan.startLookup_s p
  dsimp only
  rw [Plan.waitExpire_s, hextra]
  refine ⟨fun id f => ?_, ?_, fun t ht => ?_, ?_, ?_, ?_, ?_, ?_, ?_, ?_⟩
  · simpa [hdials, expired] using hfresh.dialing id f
  · simpa [hdials] using hfresh.nodup
  · -- a dial task comes from the dialing phases
    have hmem : task.dialTask t ∈ p.newtasks := by
      rcases List.mem_append.1 ht with ht | ht
      · unfold Plan.startLookup at ht
        split_ifs at ht
        · rcases List.mem_append.1 ht with ht | ht
          · exact ht
          · simp at ht
        · exact ht
      · have : (t.dest.ID, t.flags) ∈ dials extra := List.mem_filterMap.2 ⟨_, ht, rfl⟩
        simp [hdials] at this
    exact hfresh.checked t hmem
  · have hdyn : dynCount extra = 0 := by simp [dynCount, hdials]
    rcases hbudget with ⟨hnb, hsign⟩
    simp only [dynCount_append, Plan.dynCount_startLookup, hdyn, add_zero]
    rcases hsign with h0 | hpos
    · exact .inl h0
    · exact .inr (by omega)
  · have h := Plan.lookups_startLookup p
    rw [hfresh.noLookup, hfresh.lookupRunning] at h
    rw [zero_add] at h
    simp only [lookups_append, hlk, add_zero]
    exact h
  · rw [hsl]
    exact hfresh.self
  · rw [hsl]
    exact hfresh.netrestrict
  · rw [hsl]
    exact hfresh.maxDynDials
  · rw [hsl]
    exact hfresh.static
  · rw [hsl]
    exact hfresh.hist

/-- Every dial `newTasks` returns is to a node that was neither being dialed
nor connected. -/
theorem NewTasks.fresh {s s' : dialstate} {peers : GoMap ID Peer} {now : Time} {nt : List task}
    (hn : NewTasks s peers now s' nt) {x : ID × connFlag} (hx : x ∈ dials nt) :
    s.dialing.lookup x.1 = none ∧ peers.lookup x.1 = none := by
  obtain ⟨t, ht, rfl⟩ := mem_dials.1 hx
  obtain ⟨hd, hp, -⟩ := checkDial_eq_none.1 (hn.checked t ht)
  exact ⟨hd, hp⟩

/-! ## What `taskDone` takes back -/

@[simp] theorem taskDone_self (s : dialstate) (t : task) (now : Time) :
    (s.taskDone t now).self = s.self := by
  cases t <;> rfl

@[simp] theorem taskDone_maxDynDials (s : dialstate) (t : task) (now : Time) :
    (s.taskDone t now).maxDynDials = s.maxDynDials := by
  cases t <;> rfl

@[simp] theorem taskDone_static (s : dialstate) (t : task) (now : Time) :
    (s.taskDone t now).static = s.static := by
  cases t <;> rfl

theorem Valid_taskDone {s : dialstate} (h : s.hist.Valid) (t : task) (now : Time) :
    (s.taskDone t now).hist.Valid := by
  cases t with
  | dialTask t => exact h.add _ _
  | discoverTask _ => exact h
  | waitExpireTask _ => exact h

/-- A dial done leaves the dialing map and nothing else; a lookup done marks
no lookup running; a timer changes neither. -/
theorem taskDone_dialing (s : dialstate) (t : task) (now : Time) :
    (s.taskDone t now).dialing = match t.dial? with
      | some d => s.dialing.erase d.1
      | none => s.dialing := by
  cases t <;> rfl

theorem taskDone_lookupRunning (s : dialstate) (t : task) (now : Time) :
    (s.taskDone t now).lookupRunning = (s.lookupRunning && !t.isLookup) := by
  cases t <;> simp [taskDone, task.isLookup]

/-- Adding static nodes touches only the static nodes, and keys each by its
ID as a static dial. -/
theorem foldl_addStatic (ns : List Node) {s : dialstate} (h : s.StaticKeyed) :
    (ns.foldl addStatic s).dialing = s.dialing ∧
      (ns.foldl addStatic s).lookupRunning = s.lookupRunning ∧
      (ns.foldl addStatic s).hist = s.hist ∧ (ns.foldl addStatic s).self = s.self ∧
      (ns.foldl addStatic s).maxDynDials = s.maxDynDials ∧ (ns.foldl addStatic s).StaticKeyed := by
  induction ns generalizing s with
  | nil => exact ⟨rfl, rfl, rfl, rfl, rfl, h⟩
  | cons n ns ih => exact ih (h.addStatic n)

/-- `newDialState` starts with nothing dialed, no lookup and an empty
history, with its static nodes keyed by their IDs. -/
theorem newDialState_spec (self : ID) (maxdyn : Nat) (netrestrict : Option (List Netutil.IPNet))
    (bootnodes staticNodes : List Node) :
    (newDialState self maxdyn netrestrict bootnodes staticNodes).dialing = ∅ ∧
      (newDialState self maxdyn netrestrict bootnodes staticNodes).lookupRunning = false ∧
      (newDialState self maxdyn netrestrict bootnodes staticNodes).hist = #[] ∧
      (newDialState self maxdyn netrestrict bootnodes staticNodes).self = self ∧
      (newDialState self maxdyn netrestrict bootnodes staticNodes).maxDynDials = maxdyn ∧
      (newDialState self maxdyn netrestrict bootnodes staticNodes).StaticKeyed :=
  foldl_addStatic staticNodes fun _ _ h => by simp at h

/-! ## What a caller of the scheduler relies on -/

/-- Every dial `newTasks` asks for is to a node that is not being dialed, not
connected, not the local node, inside the whitelist and not in the history
once it expired; no two of them are to one node. -/
theorem newTasks_dials_checked {s : dialstate} (hs : s.StaticKeyed) (nRunning : Nat)
    (peers : GoMap ID Peer) (now : Time) (random : List Node) :
    (∀ t, .dialTask t ∈ (s.newTasks nRunning peers now random).2 →
      s.dialing.lookup t.dest.ID = none ∧ peers.lookup t.dest.ID = none ∧ t.dest.ID ≠ s.self ∧
        (∀ l, s.netrestrict = some l → Netutil.Contains l t.dest.IP = true) ∧
        (s.hist.expire now).contains t.dest.ID = false) ∧
      ((dials (s.newTasks nRunning peers now random).2).map Prod.fst).Nodup := by
  have hn := newTasks_spec hs nRunning peers now random
  exact ⟨fun t ht => checkDial_eq_none.1 (hn.checked t ht), hn.nodup⟩

/-- A scheduler of eight dynamic dials with the static node `testNode 2`,
offered the random nodes `2` and `4`: it dials the static node, skips the
random `2` it is already dialing, dials `4` and starts a lookup. -/
theorem newTasks_dials_checked_static_and_random :
    let s := newDialState (Vector.replicate 32 0) 8 none [] [testNode 2]
    s.StaticKeyed ∧
      ((∀ t, .dialTask t ∈ (s.newTasks 0 ∅ 0 [testNode 2, testNode 4]).2 →
        s.dialing.lookup t.dest.ID = none ∧ (∅ : GoMap ID Peer).lookup t.dest.ID = none ∧
          t.dest.ID ≠ s.self ∧ (∀ l, s.netrestrict = some l → Netutil.Contains l t.dest.IP = true) ∧
          (s.hist.expire 0).contains t.dest.ID = false) ∧
        ((dials (s.newTasks 0 ∅ 0 [testNode 2, testNode 4]).2).map Prod.fst).Nodup) ∧
      (s.newTasks 0 ∅ 0 [testNode 2, testNode 4]).2 =
        [.dialTask ⟨staticDialedConn, testNode 2⟩, .dialTask ⟨dynDialedConn, testNode 4⟩,
          .discoverTask []] := by
  intro s
  have hs : s.StaticKeyed := (newDialState_spec _ _ _ _ _).2.2.2.2.2
  exact ⟨hs, newTasks_dials_checked hs 0 ∅ 0 [testNode 2, testNode 4], by decide +kernel⟩

/-- A node whose dial is done is not dialed again by the next `newTasks`
before `dialHistoryExpiration` has passed: `taskDone` puts it in the
history, and `expire` keeps it there until then. -/
theorem no_redial_before_expiry {s : dialstate} (hs : s.StaticKeyed) (hv : s.hist.Valid)
    (t : dialTask) (now now' : Time) (hnow : now' ≤ now + dialHistoryExpiration) (nRunning : Nat)
    (peers : GoMap ID Peer) (random : List Node) :
    ∀ t', .dialTask t' ∈ ((s.taskDone (.dialTask t) now).newTasks nRunning peers now' random).2 →
      t'.dest.ID ≠ t.dest.ID := by
  intro t' ht' heq
  have hs' : (s.taskDone (.dialTask t) now).StaticKeyed := hs
  have hn := newTasks_spec hs' nRunning peers now' random
  obtain ⟨-, -, -, -, hh⟩ := checkDial_eq_none.1 (hn.checked t' ht')
  have hh' : ((s.taskDone (.dialTask t) now).hist.expire now').contains t'.dest.ID = false := hh
  -- the entry `taskDone` pushed expires at `now + dialHistoryExpiration`, not before `now'`
  have hin : (⟨t.dest.ID, now + dialHistoryExpiration⟩ : expItem) ∈
      (s.taskDone (.dialTask t) now).hist.toList :=
    (expHeap.add_perm _ _ _).mem_iff.2 (List.mem_append_right _ (List.mem_singleton_self _))
  have hc := ((Valid_taskDone hv (.dialTask t) now).contains_expire now' t'.dest.ID).2
    ⟨_, hin, heq.symm, hnow⟩
  rw [hh'] at hc
  exact Bool.false_ne_true hc

/-- The random node `testNode 4` is dialed by a fresh scheduler, but not one
second after a dial to it is done. -/
theorem no_redial_before_expiry_random_node :
    let s := newDialState (Vector.replicate 32 0) 8 none [] []
    (s.newTasks 0 ∅ 0 [testNode 4]).2 = [.dialTask ⟨dynDialedConn, testNode 4⟩, .discoverTask []] ∧
      ∀ t', .dialTask t' ∈
          ((s.taskDone (.dialTask ⟨dynDialedConn, testNode 4⟩) 0).newTasks 0 ∅ Second
            [testNode 4]).2 →
        t'.dest.ID ≠ (testNode 4).ID := by
  intro s
  have hs : s.StaticKeyed := (newDialState_spec _ _ _ _ _).2.2.2.2.2
  exact ⟨by decide +kernel, no_redial_before_expiry hs expHeap.valid_empty _ 0 Second (by decide)
    0 ∅ [testNode 4]⟩

end dialstate

end P2p

end Btp
