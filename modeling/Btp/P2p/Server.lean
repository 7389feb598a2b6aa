import Mathlib
import Btp.P2p.Dial

/-!
# The server loop

The loop of `Server.run` in `p2p/server.go`, with the dial scheduler of
`Btp.P2p.Dial`. Every pass of the loop starts queued tasks and asks the
scheduler for new ones (`scheduleTasks`), then handles one event of its
`select`: a static or trusted node added or removed, a task done, a
connection at the post-handshake or add-peer checkpoint, or a peer that
ended. At most `maxActiveDialTasks` tasks run; the rest wait in a queue.

The other goroutines of the server are the environment: they finish the
tasks the loop started, bring connections to the checkpoints and report the
peers that ended. What they can deliver is `Loop.Deliverable`: a task done
is a running one, a dynamically dialed connection comes from a running
dynamic dial to its node, and a peer that ends is one the loop holds. The
`quit` and `peerOp` cases change nothing the loop keeps and are left out,
as are logging, metrics and the peer goroutines.

Over every run (`Server.Reachable`) the loop keeps `Inv`: the dialing map
of the scheduler is exactly the dials in flight, one per node, and a lookup
is marked running exactly when one is in flight; every peer is stored under
its own ID and none is the local node; `inboundCount` counts the inbound
peers; and the nodes dialed or connected dynamically never exceed the
dynamic dial budget.
-/

namespace Btp

namespace GoMap

variable {K V : Type} [DecidableEq K]

/-- The keys of a map whose values satisfy `p`. -/
def keysWhere (m : GoMap K V) (p : V → Bool) : Finset K :=
  ((m.entries.filter fun e => p e.2).map Sigma.fst).toFinset

theorem mem_keysWhere {m : GoMap K V} {p : V → Bool} {k : K} :
    k ∈ m.keysWhere p ↔ ∃ v, m.lookup k = some v ∧ p v = true := by
  simp only [keysWhere, List.mem_toFinset, List.mem_map, List.mem_filter]
  constructor
  · rintro ⟨⟨k', v⟩, ⟨hm, hp⟩, rfl⟩
    exact ⟨v, AList.mem_lookup_iff.2 hm, hp⟩
  · rintro ⟨v, hm, hp⟩
    exact ⟨⟨k, v⟩, ⟨AList.mem_lookup_iff.1 hm, hp⟩, rfl⟩

/-- A loop over a map counting the values that satisfy `p` counts the keys
with such values. -/
theorem card_keysWhere (m : GoMap K V) (p : V → Bool) :
    (m.keysWhere p).card = (m.entries.filter fun e => p e.2).length := by
  rw [keysWhere, List.toFinset_card_of_nodup, List.length_map]
  exact List.NodupKeys.sublist List.filter_sublist m.nodupKeys

theorem keysWhere_insert (m : GoMap K V) (k : K) (v : V) (p : V → Bool) :
    keysWhere (m.insert k v) p =
      if p v then insert k ((m.keysWhere p).erase k) else (m.keysWhere p).erase k := by
  ext k'
  by_cases hk : k' = k
  · subst hk
    split_ifs with hv <;> simp [mem_keysWhere, hv]
  · split_ifs <;> simp [mem_keysWhere, hk, AList.lookup_insert_ne hk]

theorem keysWhere_erase (m : GoMap K V) (k : K) (p : V → Bool) :
    keysWhere (m.erase k) p = (m.keysWhere p).erase k := by
  ext k'
  by_cases hk : k' = k
  · subst hk
    simp [mem_keysWhere]
  · simp [mem_keysWhere, hk, AList.lookup_erase_ne hk]

/-- Adding a key that is not there counts it if its value satisfies `p`. -/
theorem card_keysWhere_insert {m : GoMap K V} {k : K} (hk : m.lookup k = none) (v : V)
    (p : V → Bool) :
    (keysWhere (m.insert k v) p).card = (m.keysWhere p).card + if p v then 1 else 0 := by
  have hnot : k ∉ m.keysWhere p := by simp [mem_keysWhere, hk]
  rw [keysWhere_insert, Finset.erase_eq_of_notMem hnot]
  split_ifs
  · exact Finset.card_insert_of_notMem hnot
  · rfl

/-- Deleting a key counts it out if its value satisfied `p`. -/
theorem card_keysWhere_erase {m : GoMap K V} {k : K} {v : V} (hk : m.lookup k = some v)
    (p : V → Bool) :
    (keysWhere (m.erase k) p).card + (if p v then 1 else 0) = (m.keysWhere p).card := by
  rw [keysWhere_erase]
  split_ifs with hv
  · exact Finset.card_erase_add_one (mem_keysWhere.2 ⟨v, hk, hv⟩)
  · have hnot : k ∉ m.keysWhere p := by simp [mem_keysWhere, hk, hv]
    rw [Finset.erase_eq_of_notMem hnot, add_zero]

/-- Replacing a value by one that `p` judges alike counts the same keys. -/
theorem keysWhere_insert_of_lookup {m : GoMap K V} {k : K} {v v' : V} (hk : m.lookup k = some v)
    {p : V → Bool} (hp : p v' = p v) : keysWhere (m.insert k v') p = m.keysWhere p := by
  ext k'
  by_cases hk' : k' = k
  · subst hk'
    simp [mem_keysWhere, hk, hp]
  · simp [mem_keysWhere, AList.lookup_insert_ne hk']

end GoMap

namespace P2p

open Enode dialstate

/-- `maxActiveDialTasks`. -/
def maxActiveDialTasks : Nat := 16

/-- `defaultDialRatio`. -/
def defaultDialRatio : Nat := 3

/-- `DiscReason`. -/
inductive DiscReason
  | DiscRequested
  | DiscNetworkError
  | DiscProtocolError
  | DiscUselessPeer
  | DiscTooManyPeers
  | DiscAlreadyConnected
  | DiscIncompatibleVersion
  | DiscInvalidIdentity
  | DiscQuitting
  | DiscUnexpectedIdentity
  | DiscSelf
  | DiscReadTimeout
  | DiscSubprotocolError
  deriving DecidableEq, Repr

/-- The fields of `Server` the loop reads: its `Config` and the ID of
`localnode`. Negative `MaxPeers` and `DialRatio` are left out: with them
`newDialState` makes a buffer of negative length, which panics. -/
structure Server where
  MaxPeers : Nat
  NoDiscovery : Bool
  NoDial : Bool
  DialRatio : Nat
  NetRestrict : Option (List Netutil.IPNet)
  BootstrapNodes : List Node
  StaticNodes : List Node
  TrustedNodes : List Node
  Protocols : List Protocol
  localnode : ID

namespace Server

/-- `maxDialedConns`. -/
def maxDialedConns (srv : Server) : Nat :=
  if srv.NoDiscovery || srv.NoDial then 0
  else srv.MaxPeers / (if srv.DialRatio = 0 then defaultDialRatio else srv.DialRatio)

/-- `maxInboundConns`. -/
def maxInboundConns (srv : Server) : Nat := srv.MaxPeers - srv.maxDialedConns

/-- `postHandshakeChecks`. -/
def postHandshakeChecks (srv : Server) (peers : GoMap ID Peer) (inboundCount : Int) (c : conn) :
    Option DiscReason :=
  if !c.is (trustedConn.or staticDialedConn) ∧ srv.MaxPeers ≤ peers.entries.length then
    some .DiscTooManyPeers
  else if !c.is trustedConn ∧ c.is inboundConn ∧ (srv.maxInboundConns : Int) ≤ inboundCount then
    some .DiscTooManyPeers
  else if (peers.lookup c.node.ID).isSome then some .DiscAlreadyConnected
  else if c.node.ID = srv.localnode then some .DiscSelf
  else none

/-- `addPeerChecks`: no protocol in common, then the post-handshake checks
again, as the peers may have changed since. -/
def addPeerChecks (srv : Server) (peers : GoMap ID Peer) (inboundCount : Int) (c : conn) :
    Option DiscReason :=
  if 0 < srv.Protocols.length ∧ countMatchingProtocols srv.Protocols c.caps = 0 then
    some .DiscUselessPeer
  else srv.postHandshakeChecks peers inboundCount c

end Server

/-- `newPeer`. -/
def newPeer (c : conn) (protocols : List Protocol) : Peer := ⟨c, matchProtocols protocols c.caps⟩

/-- The task a running task's `Do` hands back: a lookup holds the results it
stored. -/
def task.withResults (t : task) (results : List Node) : task :=
  match t with
  | .discoverTask _ => .discoverTask results
  | t => t

/-- The local variables of `run`. -/
structure Loop where
  peers : GoMap ID Peer
  inboundCount : Int
  trusted : GoMap ID Bool
  runningTasks : List task
  queuedTasks : List task
  dialstate : dialstate

/-- The events the `select` of the loop handles. -/
inductive Event
  | addstatic (n : Node)
  | removestatic (n : Node)
  | addtrusted (n : Node)
  | removetrusted (n : Node)
  | taskdone (t : task) (results : List Node) (now : Time)
  | checkpointPostHandshake (c : conn)
  | checkpointAddPeer (c : conn)
  | delpeer (pd : Peer)

/-- `startTasks`: start tasks until `maxActiveDialTasks` run; hand back
the running tasks and the rest. -/
def startTasks : List task → List task → List task × List task
  | running, [] => (running, [])
  | running, t :: ts =>
    if running.length < maxActiveDialTasks then startTasks (running ++ [t]) ts
    else (running, t :: ts)

/-- The flag a trusted node's peer gets or loses: `p.rw.set(trustedConn, val)`
on the peer of `id`, if there is one. -/
def setTrusted (peers : GoMap ID Peer) (id : ID) (val : Bool) : GoMap ID Peer :=
  match peers.lookup id with
  | some p => peers.insert id { p with rw := { p.rw with flags := p.rw.flags.set trustedConn val } }
  | none => peers

namespace Loop

/-- The tasks started or queued, not yet seen done. -/
def inflight (l : Loop) : List task := l.runningTasks ++ l.queuedTasks

/-- `scheduleTasks`, at time `now` and with `random` the nodes the table
hands to the scheduler. -/
def scheduleTasks (l : Loop) (now : Time) (random : List Node) : Loop :=
  -- Start from queue first.
  let r := startTasks l.runningTasks l.queuedTasks
  -- Query dialer for new tasks and start as many as possible now.
  if r.1.length < maxActiveDialTasks then
    let n := l.dialstate.newTasks (r.1.length + r.2.length) l.peers now random
    let r' := startTasks r.1 n.2
    { l with runningTasks := r'.1, queuedTasks := r.2 ++ r'.2, dialstate := n.1 }
  else { l with runningTasks := r.1, queuedTasks := r.2 }

/-- What the other goroutines can deliver to the `select`: a task done is a
running one, a dynamically dialed connection comes from a running dynamic
dial to its node, and a peer that ends is one the loop holds. -/
def Deliverable (l : Loop) : Event → Prop
  | .taskdone t _ _ => t ∈ l.runningTasks
  | .checkpointAddPeer c =>
    c.flags.dyn = true → ∃ f n, .dialTask ⟨f, n⟩ ∈ l.runningTasks ∧ n.ID = c.node.ID ∧ f.dyn = true
  | .delpeer pd => l.peers.lookup pd.ID = some pd
  | _ => True

end Loop

namespace Server

/-- One case of the `select`: the loop after it, and for a checkpoint the
error sent back on `c.cont`. -/
def handle (srv : Server) (l : Loop) : Event → Loop × Option (Option DiscReason)
  | .addstatic n => ({ l with dialstate := l.dialstate.addStatic n }, none)
  | .removestatic n =>
    -- the peer of the node, if any, is asked to disconnect and ends later
    ({ l with dialstate := l.dialstate.removeStatic n }, none)
  | .addtrusted n =>
    ({ l with trusted := l.trusted.insert n.ID true, peers := setTrusted l.peers n.ID true }, none)
  | .removetrusted n =>
    ({ l with trusted := l.trusted.erase n.ID, peers := setTrusted l.peers n.ID false }, none)
  | .taskdone t results now =>
    ({ l with
      dialstate := l.dialstate.taskDone (t.withResults results) now
      runningTasks := l.runningTasks.erase t }, none)
  | .checkpointPostHandshake c =>
    let c := if l.trusted.lookup c.node.ID = some true then { c with flags := c.flags.or trustedConn }
      else c
    (l, some (srv.postHandshakeChecks l.peers l.inboundCount c))
  | .checkpointAddPeer c =>
    match srv.addPeerChecks l.peers l.inboundCount c with
    | none =>
      let p := newPeer c srv.Protocols
      ({ l with
        peers := l.peers.insert c.node.ID p
        inboundCount := if p.Inbound then l.inboundCount + 1 else l.inboundCount }, some none)
    | some err => (l, some (some err))
  | .delpeer pd =>
    ({ l with
      peers := l.peers.erase pd.ID
      inboundCount := if pd.Inbound then l.inboundCount - 1 else l.inboundCount }, none)

/-- One pass of the loop: schedule, then handle the event the `select`
takes. -/
def iterate (srv : Server) (l : Loop) (now : Time) (random : List Node) (e : Event) :
    Loop × Option (Option DiscReason) :=
  srv.handle (l.scheduleTasks now random) e

/-- The loop as `run` starts it, with the scheduler `Start` made. -/
def initLoop (srv : Server) : Loop where
  peers := ∅
  inboundCount := 0
  trusted := srv.TrustedNodes.foldl (fun m n => m.insert n.ID true) ∅
  runningTasks := []
  queuedTasks := []
  dialstate := newDialState srv.localnode srv.maxDialedConns srv.NetRestrict srv.BootstrapNodes
    srv.StaticNodes

/-- The loop states of the runs of a server. -/
inductive Reachable (srv : Server) : Loop → Prop
  | init : Reachable srv srv.initLoop
  | step {l : Loop} {now : Time} {random : List Node} {e : Event} :
      Reachable srv l → (l.scheduleTasks now random).Deliverable e →
        Reachable srv (srv.iterate l now random e).1

end Server

/-! ## What every run keeps -/

namespace Loop

/-- The nodes dialed, or connected through a dial, as dynamic dials. -/
def dynNodes (l : Loop) : Finset ID :=
  l.dialstate.dialing.keysWhere (·.is dynDialedConn) ∪ l.peers.keysWhere (·.rw.is dynDialedConn)

/-- The inbound peers. -/
def inboundPeers (l : Loop) : Finset ID := l.peers.keysWhere Peer.Inbound

end Loop

theorem card_dynDialing (d : GoMap ID connFlag) :
    (d.keysWhere (·.is dynDialedConn)).card = dynDialing d :=
  GoMap.card_keysWhere d _

theorem card_dynPeers (peers : GoMap ID Peer) :
    (peers.keysWhere (·.rw.is dynDialedConn)).card = dynPeers peers :=
  GoMap.card_keysWhere peers _

theorem startTasks_append (running ts : List task) :
    (startTasks running ts).1 ++ (startTasks running ts).2 = running ++ ts := by
  induction ts generalizing running with
  | nil => simp [startTasks]
  | cons t ts ih =>
    rw [startTasks]
    split_ifs
    · rw [ih]
      simp
    · rfl

/-- Starting tasks never takes the running ones past `maxActiveDialTasks`. -/
theorem startTasks_length {running : List task} (h : running.length ≤ maxActiveDialTasks)
    (ts : List task) : (startTasks running ts).1.length ≤ maxActiveDialTasks := by
  induction ts generalizing running with
  | nil => simpa [startTasks] using h
  | cons t ts ih =>
    rw [startTasks]
    split_ifs with hlt
    · exact ih (by simp only [List.length_append, List.length_singleton]; omega)
    · exact h

@[simp] theorem dial?_withResults (t : task) (results : List Node) :
    (t.withResults results).dial? = t.dial? := by
  cases t <;> rfl

@[simp] theorem isLookup_withResults (t : task) (results : List Node) :
    (t.withResults results).isLookup = t.isLookup := by
  cases t <;> rfl

theorem setTrusted_cases (peers : GoMap ID Peer) (id : ID) (val : Bool) :
    setTrusted peers id val = peers ∨
      ∃ p, peers.lookup id = some p ∧ setTrusted peers id val =
        peers.insert id { p with rw := { p.rw with flags := p.rw.flags.set trustedConn val } } := by
  unfold setTrusted
  cases h : peers.lookup id with
  | none => exact .inl rfl
  | some p => exact .inr ⟨p, rfl, rfl⟩

namespace Server

/-- The post-handshake and add-peer checks pass only for a node that is not
connected and not the local node, with room under `MaxPeers` unless the
connection is trusted or static, and under `maxInboundConns` for an inbound
connection that is not trusted. -/
theorem addPeerChecks_eq_none {srv : Server} {peers : GoMap ID Peer} {ic : Int} {c : conn}
    (h : srv.addPeerChecks peers ic c = none) :
    peers.lookup c.node.ID = none ∧ c.node.ID ≠ srv.localnode ∧
      (c.is (trustedConn.or staticDialedConn) = false → peers.entries.length < srv.MaxPeers) ∧
      (c.is trustedConn = false → c.is inboundConn = true → ic < srv.maxInboundConns) := by
  unfold addPeerChecks postHandshakeChecks at h
  split_ifs at h with h₁ h₂ h₃ h₄ h₅
  refine ⟨by simpa using h₄, h₅, fun ht => ?_, fun ht hi => ?_⟩
  · simp only [ht, Bool.not_false, true_and, not_le] at h₂
    exact h₂
  · simp only [ht, hi, Bool.not_false, true_and, not_le] at h₃
    exact h₃

/-- What every run of the loop keeps: the dialing map is exactly the dials
in flight, one per node; a lookup is marked running exactly when one is in
flight; no more than `maxActiveDialTasks` tasks run; the scheduler's static
nodes and history stay well formed; every peer is stored under its own ID
and none is the local node; `inboundCount` counts the inbound peers; and the
nodes dialed or connected dynamically fit in `maxDialedConns`. -/
structure Inv (srv : Server) (l : Loop) : Prop where
  dialing : ∀ id f, l.dialstate.dialing.lookup id = some f ↔ (id, f) ∈ dials l.inflight
  nodup : ((dials l.inflight).map Prod.fst).Nodup
  lookups : lookups l.inflight = if l.dialstate.lookupRunning then 1 else 0
  running : l.runningTasks.length ≤ maxActiveDialTasks
  static : l.dialstate.StaticKeyed
  hist : l.dialstate.hist.Valid
  self : l.dialstate.self = srv.localnode
  maxDynDials : l.dialstate.maxDynDials = srv.maxDialedConns
  keyed : ∀ id p, l.peers.lookup id = some p → p.ID = id ∧ id ≠ srv.localnode
  inbound : l.inboundCount = l.inboundPeers.card
  budget : l.dynNodes.card ≤ srv.maxDialedConns

variable {srv : Server} {l : Loop}

theorem Inv.init (srv : Server) : srv.Inv srv.initLoop := by
  obtain ⟨hd, hl, hh, hs, hm, hk⟩ := newDialState_spec srv.localnode srv.maxDialedConns
    srv.NetRestrict srv.BootstrapNodes srv.StaticNodes
  refine ⟨fun id f => ?_, by simp [initLoop, Loop.inflight], ?_, by simp [initLoop],
    hk, ?_, hs, hm, fun id p h => by simp [initLoop] at h, ?_, ?_⟩
  · simp [initLoop, Loop.inflight, hd]
  · simp [initLoop, Loop.inflight, hl]
  · simp only [initLoop, hh]
    exact expHeap.valid_empty
  · simp [initLoop, Loop.inboundPeers, GoMap.keysWhere]
  · simp [initLoop, Loop.dynNodes, hd, GoMap.keysWhere]

/-- The invariant reads the tasks in flight only up to their order. -/
theorem Inv.ofPerm (h : srv.Inv l) {l' : Loop} (hp : l'.inflight.Perm l.inflight)
    (hr : l'.runningTasks.length ≤ maxActiveDialTasks) (hd : l'.dialstate = l.dialstate)
    (hpe : l'.peers = l.peers) (hi : l'.inboundCount = l.inboundCount) : srv.Inv l' := by
  have hdp : (dials l'.inflight).Perm (dials l.inflight) := hp.filterMap _
  refine ⟨fun id f => ?_, (hdp.map Prod.fst).nodup_iff.2 h.nodup, ?_, hr, hd ▸ h.static,
    hd ▸ h.hist, hd ▸ h.self, hd ▸ h.maxDynDials, hpe ▸ h.keyed, ?_, ?_⟩
  · rw [hd, h.dialing, hdp.mem_iff]
  · rw [hd, ← h.lookups]
    exact hp.countP_eq _
  · rw [hi, h.inbound, Loop.inboundPeers, Loop.inboundPeers, hpe]
  · rw [Loop.dynNodes, hd, hpe]
    exact h.budget

/-- New tasks from `newTasks` keep the invariant: the dials they add are to
nodes not dialed before, and the dynamic ones fit in the budget left. -/
theorem Inv.newTasks (h : srv.Inv l) {now : Time} {s' : dialstate} {nt : List task}
    (hn : NewTasks l.dialstate l.peers now s' nt) {l' : Loop}
    (hp : l'.inflight.Perm (l.inflight ++ nt)) (hr : l'.runningTasks.length ≤ maxActiveDialTasks)
    (hd : l'.dialstate = s') (hpe : l'.peers = l.peers) (hi : l'.inboundCount = l.inboundCount) :
    srv.Inv l' := by
  have hdp : (dials l'.inflight).Perm (dials l.inflight ++ dials nt) := by
    rw [← dials_append]
    exact hp.filterMap _
  -- a dial of `nt` is to a node with no dial in flight
  have hdisj : ∀ x ∈ dials nt, ∀ g, (x.1, g) ∉ dials l.inflight := fun x hx g hg => by
    have := (h.dialing x.1 g).2 hg
    rw [(hn.fresh hx).1] at this
    cases this
  refine ⟨fun id f => ?_, ?_, ?_, hr, hd ▸ hn.static, ?_, by rw [hd, hn.self, h.self],
    by rw [hd, hn.maxDynDials, h.maxDynDials], hpe ▸ h.keyed, ?_, ?_⟩
  · rw [hd, hn.dialing, h.dialing, hdp.mem_iff, List.mem_append]
  · refine (hdp.map Prod.fst).nodup_iff.2 ?_
    rw [List.map_append, List.nodup_append]
    refine ⟨h.nodup, hn.nodup, fun a ha b hb hab => ?_⟩
    obtain ⟨⟨id, g⟩, hg, rfl⟩ := List.mem_map.1 ha
    obtain ⟨x, hx, rfl⟩ := List.mem_map.1 hb
    exact hdisj x hx g (hab ▸ hg)
  · rw [show P2p.lookups l'.inflight = P2p.lookups (l.inflight ++ nt) from hp.countP_eq _,
      lookups_append,
      h.lookups, hd, ← hn.lookups, Nat.add_comm]
  · rw [hd, hn.hist]
    exact (h.hist.expire now).1
  · rw [hi, h.inbound, Loop.inboundPeers, Loop.inboundPeers, hpe]
  · -- the dynamic dials added fit in what `newTasks` found still needed
    have hsub : l'.dynNodes ⊆ l.dynNodes ∪
        (((dials nt).filter (·.2.dyn)).map Prod.fst).toFinset := by
      intro id hid
      simp only [Loop.dynNodes, Finset.mem_union, GoMap.mem_keysWhere, hd, hpe] at hid ⊢
      rcases hid with ⟨f, hf, hdyn⟩ | hpeer
      · rcases (hn.dialing id f).1 hf with hold | hnew
        · exact .inl (.inl ⟨f, hold, hdyn⟩)
        · refine .inr (List.mem_toFinset.2 (List.mem_map.2 ⟨(id, f), List.mem_filter.2 ⟨hnew, ?_⟩, rfl⟩))
          simpa using hdyn
      · exact .inl (.inr hpeer)
    rcases hn.budget with h0 | hfit
    · have hnil : (dials nt).filter (·.2.dyn) = [] := List.length_eq_zero_iff.1 h0
      rw [hnil, List.map_nil, List.toFinset_nil, Finset.union_empty] at hsub
      exact (Finset.card_le_card hsub).trans h.budget
    · have hdyn : l'.dynNodes.card ≤ dynDialing l.dialstate.dialing + dynCount nt + dynPeers l.peers := by
        calc l'.dynNodes.card
            ≤ (l.dialstate.dialing.keysWhere (·.is dynDialedConn) ∪
                (((dials nt).filter (·.2.dyn)).map Prod.fst).toFinset ∪
                l.peers.keysWhere (·.rw.is dynDialedConn)).card := by
              refine Finset.card_le_card fun id hid => ?_
              rcases Finset.mem_union.1 (hsub hid) with hold | hnew
              · rcases Finset.mem_union.1 hold with h₁ | h₂
                · exact Finset.mem_union_left _ (Finset.mem_union_left _ h₁)
                · exact Finset.mem_union_right _ h₂
              · exact Finset.mem_union_left _ (Finset.mem_union_right _ hnew)
          _ ≤ dynDialing l.dialstate.dialing + dynCount nt + dynPeers l.peers := by
              refine (Finset.card_union_le _ _).trans (add_le_add ((Finset.card_union_le _ _).trans
                (add_le_add (card_dynDialing _).le ?_)) (card_dynPeers _).le)
              exact (List.toFinset_card_le _).trans (by rw [List.length_map]; rfl)
      rw [← h.maxDynDials]
      omega

/-- Scheduling keeps the invariant: queued tasks start in order, and
`newTasks` adds only what its specification allows. -/
theorem Inv.scheduleTasks (h : srv.Inv l) (now : Time) (random : List Node) :
    srv.Inv (l.scheduleTasks now random) := by
  have happ := startTasks_append l.runningTasks l.queuedTasks
  have hlen := startTasks_length h.running l.queuedTasks
  unfold Loop.scheduleTasks
  dsimp only
  split_ifs with hlt
  · set r := startTasks l.runningTasks l.queuedTasks
    set n := l.dialstate.newTasks (r.1.length + r.2.length) l.peers now random
    have happ' := startTasks_append r.1 n.2
    refine h.newTasks (newTasks_spec h.static _ l.peers now random) ?_
      (startTasks_length hlen _) rfl rfl rfl
    -- the new tasks go after the old ones, some started and some queued
    calc List.Perm ((startTasks r.1 n.2).1 ++ (r.2 ++ (startTasks r.1 n.2).2))
          ((startTasks r.1 n.2).1 ++ ((startTasks r.1 n.2).2 ++ r.2)) :=
          List.perm_append_comm.append_left _
      _ = r.1 ++ (n.2 ++ r.2) := by rw [← List.append_assoc, happ', List.append_assoc]
      List.Perm _ (r.1 ++ (r.2 ++ n.2)) := List.perm_append_comm.append_left _
      _ = l.inflight ++ n.2 := by rw [← List.append_assoc, happ]; rfl
  · exact h.ofPerm (by simp only [Loop.inflight, happ]; rfl) hlen rfl rfl rfl

/-- A task done leaves the tasks in flight, and the scheduler takes it back:
a dial leaves the dialing map, a lookup is no longer running. -/
theorem Inv.taskdone (h : srv.Inv l) {t : task} (ht : t ∈ l.runningTasks) (results : List Node)
    (now : Time) : srv.Inv (srv.handle l (.taskdone t results now)).1 := by
  set l' := (srv.handle l (.taskdone t results now)).1 with hl'
  have hrest : l'.inflight = l.inflight.erase t := by
    simp [hl', handle, Loop.inflight, List.erase_append_left _ ht]
  have hperm : l.inflight.Perm (t :: l'.inflight) :=
    hrest ▸ List.perm_cons_erase (List.mem_append_left _ ht)
  have hdp : (dials l.inflight).Perm (t.dial?.toList ++ dials l'.inflight) := by
    rw [← dials_cons]
    exact hperm.filterMap _
  have hds : l'.dialstate = l.dialstate.taskDone (t.withResults results) now := rfl
  -- the dialing map loses the dial of the task, if it was one
  have hdial : (∀ id f, l'.dialstate.dialing.lookup id = some f ↔ (id, f) ∈ dials l'.inflight) ∧
      ((dials l'.inflight).map Prod.fst).Nodup := by
    rw [hds, taskDone_dialing, dial?_withResults]
    cases hx : t.dial? with
    | none =>
      rw [hx, Option.toList_none, List.nil_append] at hdp
      exact ⟨fun id f => by rw [h.dialing, hdp.mem_iff], (hdp.map Prod.fst).nodup_iff.1 h.nodup⟩
    | some x =>
      rw [hx, Option.toList_some, List.singleton_append] at hdp
      have hnd := (hdp.map Prod.fst).nodup_iff.1 h.nodup
      rw [List.map_cons, List.nodup_cons] at hnd
      refine ⟨fun id f => ?_, hnd.2⟩
      dsimp only
      by_cases hid : id = x.1
      · subst hid
        rw [AList.lookup_erase]
        simp only [reduceCtorEq, false_iff]
        exact fun hm => hnd.1 (List.mem_map.2 ⟨_, hm, rfl⟩)
      · rw [AList.lookup_erase_ne hid, h.dialing, hdp.mem_iff, List.mem_cons]
        constructor
        · rintro (rfl | hm)
          · exact absurd rfl hid
          · exact hm
        · exact .inr
  refine ⟨hdial.1, hdial.2, ?_, List.length_erase_le.trans h.running,
    fun id t' h' => h.static id t' (by rwa [hds, taskDone_static] at h'),
    Valid_taskDone h.hist _ _, by rw [hds, taskDone_self, h.self],
    by rw [hds, taskDone_maxDynDials, h.maxDynDials], h.keyed, h.inbound, ?_⟩
  · have hc : P2p.lookups l.inflight = P2p.lookups (t :: l'.inflight) := hperm.countP_eq _
    rw [lookups_cons, h.lookups] at hc
    rw [hds, taskDone_lookupRunning, isLookup_withResults]
    cases hb : t.isLookup <;> cases hr : l.dialstate.lookupRunning <;> simp [hb, hr] at hc ⊢ <;>
      omega
  · have hsub : l'.dialstate.dialing.keysWhere (·.is dynDialedConn) ⊆
        l.dialstate.dialing.keysWhere (·.is dynDialedConn) := by
      rw [hds, taskDone_dialing, dial?_withResults]
      cases t.dial? with
      | none => exact subset_rfl
      | some x =>
        rw [GoMap.keysWhere_erase]
        exact Finset.erase_subset _ _
    exact (Finset.card_le_card (Finset.union_subset_union hsub subset_rfl)).trans h.budget

/-- Setting or clearing the trusted flag of a peer changes neither which
peers are inbound nor which were dialed dynamically. -/
theorem Inv.trusted (h : srv.Inv l) (id : ID) (val : Bool) (trusted : GoMap ID Bool) :
    srv.Inv { l with trusted, peers := setTrusted l.peers id val } := by
  have hkeys : ∀ q : Peer → Bool,
      (∀ p : Peer, q { p with rw := { p.rw with flags := p.rw.flags.set trustedConn val } } = q p) →
        (setTrusted l.peers id val).keysWhere q = l.peers.keysWhere q := by
    intro q hq
    rcases setTrusted_cases l.peers id val with heq | ⟨p, hp, heq⟩
    · rw [heq]
    · rw [heq]
      exact GoMap.keysWhere_insert_of_lookup hp (hq p)
  refine ⟨h.dialing, h.nodup, h.lookups, h.running, h.static, h.hist, h.self, h.maxDynDials,
    fun id' p' hp' => ?_, ?_, ?_⟩
  · -- the peer keeps its connection's node
    rcases setTrusted_cases l.peers id val with heq | ⟨p, hp, heq⟩
    · rw [heq] at hp'
      exact h.keyed id' p' hp'
    · rw [heq] at hp'
      by_cases hid : id' = id
      · subst hid
        rw [AList.lookup_insert, Option.some.injEq] at hp'
        subst hp'
        exact h.keyed id' p hp
      · rw [AList.lookup_insert_ne hid] at hp'
        exact h.keyed id' p' hp'
  · show l.inboundCount = (GoMap.keysWhere (setTrusted l.peers id val) Peer.Inbound).card
    rw [hkeys _ fun p => by simp [Peer.Inbound, conn.is]]
    exact h.inbound
  · show (l.dialstate.dialing.keysWhere (·.is dynDialedConn) ∪
      (setTrusted l.peers id val).keysWhere (·.rw.is dynDialedConn)).card ≤ _
    rw [hkeys _ fun p => by simp [conn.is]]
    exact h.budget

/-- A peer the checks admit is new, not the local node, and stored under its
ID; a dynamically dialed one was already counted through its dial. -/
theorem Inv.addPeer (h : srv.Inv l) {c : conn} (hc : l.Deliverable (.checkpointAddPeer c)) :
    srv.Inv (srv.handle l (.checkpointAddPeer c)).1 := by
  simp only [handle]
  split
  · next hchk =>
    obtain ⟨hfresh, hself, -, -⟩ := addPeerChecks_eq_none hchk
    have hdyn : (newPeer c srv.Protocols).rw.is dynDialedConn = true →
        c.node.ID ∈ l.dialstate.dialing.keysWhere (·.is dynDialedConn) := by
      intro hd
      obtain ⟨f, n, hrun, hn, hf⟩ := hc (by simpa [newPeer, conn.is] using hd)
      have hmem : (n.ID, f) ∈ dials l.inflight :=
        mem_dials.2 ⟨⟨f, n⟩, List.mem_append_left _ hrun, rfl⟩
      exact GoMap.mem_keysWhere.2 ⟨f, hn ▸ (h.dialing _ _).2 hmem, by simpa using hf⟩
    refine ⟨h.dialing, h.nodup, h.lookups, h.running, h.static, h.hist, h.self, h.maxDynDials,
      fun id p hp => ?_, ?_, ?_⟩
    · by_cases hid : id = c.node.ID
      · subst hid
        rw [AList.lookup_insert, Option.some.injEq] at hp
        exact hp ▸ ⟨rfl, hself⟩
      · rw [AList.lookup_insert_ne hid] at hp
        exact h.keyed id p hp
    · show (if (newPeer c srv.Protocols).Inbound then l.inboundCount + 1 else l.inboundCount) =
        (GoMap.keysWhere (l.peers.insert c.node.ID (newPeer c srv.Protocols)) Peer.Inbound).card
      rw [GoMap.card_keysWhere_insert hfresh, h.inbound, Loop.inboundPeers]
      split_ifs <;> simp
    · refine (Finset.card_le_card fun id hid => ?_).trans h.budget
      simp only [Loop.dynNodes, Finset.mem_union, GoMap.keysWhere_insert] at hid ⊢
      rcases hid with hd | hp
      · exact .inl hd
      · split_ifs at hp with hpd
        · rcases Finset.mem_insert.1 hp with rfl | hp
          · exact .inl (hdyn hpd)
          · exact .inr (Finset.mem_of_mem_erase hp)
        · exact .inr (Finset.mem_of_mem_erase hp)
  · exact h

/-- A peer that ends leaves `peers`, and `inboundCount` with it. -/
theorem Inv.delpeer (h : srv.Inv l) {pd : Peer} (hpd : l.peers.lookup pd.ID = some pd) :
    srv.Inv (srv.handle l (.delpeer pd)).1 := by
  refine ⟨h.dialing, h.nodup, h.lookups, h.running, h.static, h.hist, h.self, h.maxDynDials,
    fun id p hp => ?_, ?_, ?_⟩
  · by_cases hid : id = pd.ID
    · subst hid
      simp [handle] at hp
    · exact h.keyed id p (by simpa [handle, AList.lookup_erase_ne hid] using hp)
  · show (if pd.Inbound then l.inboundCount - 1 else l.inboundCount) =
      (GoMap.keysWhere (l.peers.erase pd.ID) Peer.Inbound).card
    have hcard := GoMap.card_keysWhere_erase hpd Peer.Inbound
    rw [h.inbound, Loop.inboundPeers, ← hcard]
    split_ifs <;> simp
  · refine (Finset.card_le_card (Finset.union_subset_union subset_rfl ?_)).trans h.budget
    show GoMap.keysWhere (l.peers.erase pd.ID) _ ⊆ _
    rw [GoMap.keysWhere_erase]
    exact Finset.erase_subset _ _

/-- Every case of the `select` keeps the invariant, for what the rest of the
server can deliver. -/
theorem Inv.handle (h : srv.Inv l) {e : Event} (he : l.Deliverable e) :
    srv.Inv (srv.handle l e).1 := by
  cases e with
  | addstatic n =>
    exact ⟨h.dialing, h.nodup, h.lookups, h.running, h.static.addStatic n, h.hist, h.self,
      h.maxDynDials, h.keyed, h.inbound, h.budget⟩
  | removestatic n =>
    exact ⟨h.dialing, h.nodup, h.lookups, h.running, h.static.removeStatic n, h.hist, h.self,
      h.maxDynDials, h.keyed, h.inbound, h.budget⟩
  | addtrusted n => exact h.trusted n.ID true _
  | removetrusted n => exact h.trusted n.ID false _
  | taskdone t results now => exact h.taskdone he results now
  | checkpointPostHandshake c => exact h
  | checkpointAddPeer c => exact h.addPeer he
  | delpeer pd => exact h.delpeer he

/-- Every loop state of a run keeps the invariant. -/
theorem Reachable.inv {l : Loop} (hr : srv.Reachable l) : srv.Inv l := by
  induction hr with
  | init => exact Inv.init srv
  | step _ hdel ih => exact (ih.scheduleTasks _ _).handle hdel

/-! ## What the rest of the server relies on -/

/-- A server of at most 25 peers, eight of them dialed, with the static node
`testNode 2`. -/
def testServer : Server :=
  ⟨25, false, false, 0, none, [], [testNode 2], [], [], Vector.replicate 32 0⟩

/-- Two passes of its loop. The first starts dials to the static node and to
the random nodes `4` and `5` and a lookup, and takes the connection its dial
to `4` made; the second takes the end of that dial. -/
def busyLoop : Loop :=
  (testServer.iterate (testServer.iterate testServer.initLoop 0 [testNode 4, testNode 5]
      (.checkpointAddPeer ⟨testNode 4, dynDialedConn, []⟩)).1 1 []
    (.taskdone (.dialTask ⟨dynDialedConn, testNode 4⟩) [] 1)).1

theorem busyLoop_reachable : testServer.Reachable busyLoop :=
  .step (.step .init fun _ => ⟨dynDialedConn, testNode 4, by decide +kernel, rfl, rfl⟩) (by
    -- the task done is one of the running ones
    show _ ∈ _
    decide +kernel)

/-- On every run the scheduler's dialing map holds exactly the dial tasks
started or queued and not yet done, and no two of them dial one node. -/
theorem dialing_eq_inflight_dials {srv : Server} {l : Loop} (hr : srv.Reachable l) :
    (∀ id f, l.dialstate.dialing.lookup id = some f ↔
      ∃ n : Node, .dialTask ⟨f, n⟩ ∈ l.runningTasks ++ l.queuedTasks ∧ n.ID = id) ∧
      ((dials (l.runningTasks ++ l.queuedTasks)).map Prod.fst).Nodup := by
  have h := hr.inv
  refine ⟨fun id f => ?_, h.nodup⟩
  rw [h.dialing, mem_dials]
  constructor
  · rintro ⟨⟨f', n⟩, ht, hx⟩
    obtain ⟨rfl, rfl⟩ := Prod.mk.inj hx
    exact ⟨n, ht, rfl⟩
  · rintro ⟨n, ht, rfl⟩
    exact ⟨⟨f, n⟩, ht, rfl⟩

/-- After the two passes the static node and `5` are still dialed. -/
theorem dialing_eq_inflight_dials_busyLoop :
    testServer.Reachable busyLoop ∧
      ((∀ id f, busyLoop.dialstate.dialing.lookup id = some f ↔
        ∃ n : Node, .dialTask ⟨f, n⟩ ∈ busyLoop.runningTasks ++ busyLoop.queuedTasks ∧ n.ID = id) ∧
        ((dials (busyLoop.runningTasks ++ busyLoop.queuedTasks)).map Prod.fst).Nodup) ∧
      busyLoop.dialstate.dialing.lookup (testNode 2).ID = some staticDialedConn ∧
      busyLoop.dialstate.dialing.lookup (testNode 5).ID = some dynDialedConn :=
  ⟨busyLoop_reachable, dialing_eq_inflight_dials busyLoop_reachable, by decide +kernel,
    by decide +kernel⟩

/-- On every run at most one lookup is in flight, and `lookupRunning` is set
exactly when one is: `newTasks` starts a lookup only when none runs. -/
theorem lookupRunning_iff_one_lookup {srv : Server} {l : Loop} (hr : srv.Reachable l) :
    P2p.lookups (l.runningTasks ++ l.queuedTasks) ≤ 1 ∧
      (l.dialstate.lookupRunning = true ↔ P2p.lookups (l.runningTasks ++ l.queuedTasks) = 1) := by
  have h : P2p.lookups (l.runningTasks ++ l.queuedTasks) =
      if l.dialstate.lookupRunning then 1 else 0 := hr.inv.lookups
  split_ifs at h with hl <;> simp [hl, h]

/-- After the two passes the lookup of the first one still runs. -/
theorem lookupRunning_iff_one_lookup_busyLoop :
    testServer.Reachable busyLoop ∧
      (P2p.lookups (busyLoop.runningTasks ++ busyLoop.queuedTasks) ≤ 1 ∧
        (busyLoop.dialstate.lookupRunning = true ↔
          P2p.lookups (busyLoop.runningTasks ++ busyLoop.queuedTasks) = 1)) ∧
      busyLoop.dialstate.lookupRunning = true :=
  ⟨busyLoop_reachable, lookupRunning_iff_one_lookup busyLoop_reachable, by decide +kernel⟩

/-- On every run a peer is stored under its own node's ID, never under the
local node's, and `inboundCount` is the number of inbound peers. -/
theorem peers_keyed_inbound_counted {srv : Server} {l : Loop} (hr : srv.Reachable l) :
    (∀ id p, l.peers.lookup id = some p → p.ID = id ∧ id ≠ srv.localnode) ∧
      l.inboundCount = (l.peers.keysWhere Peer.Inbound).card :=
  ⟨hr.inv.keyed, hr.inv.inbound⟩

/-- After the two passes the node `4` is a peer, dialed and not inbound. -/
theorem peers_keyed_inbound_counted_busyLoop :
    testServer.Reachable busyLoop ∧
      ((∀ id p, busyLoop.peers.lookup id = some p → p.ID = id ∧ id ≠ testServer.localnode) ∧
        busyLoop.inboundCount = (busyLoop.peers.keysWhere Peer.Inbound).card) ∧
      (busyLoop.peers.lookup (testNode 4).ID).isSome ∧ busyLoop.inboundCount = 0 :=
  ⟨busyLoop_reachable, peers_keyed_inbound_counted busyLoop_reachable, by decide +kernel,
    by decide +kernel⟩

/-- On every run at most `maxActiveDialTasks` tasks run, and the nodes being
dialed dynamically or connected through a dynamic dial number at most
`maxDialedConns`; so do the dynamically dialed peers. -/
theorem dial_limits {srv : Server} {l : Loop} (hr : srv.Reachable l) :
    l.runningTasks.length ≤ maxActiveDialTasks ∧ l.dynNodes.card ≤ srv.maxDialedConns ∧
      dynPeers l.peers ≤ srv.maxDialedConns := by
  have h := hr.inv
  refine ⟨h.running, h.budget, ?_⟩
  calc dynPeers l.peers
      = (l.peers.keysWhere (·.rw.is dynDialedConn)).card := (card_dynPeers _).symm
    _ ≤ l.dynNodes.card := Finset.card_le_card Finset.subset_union_right
    _ ≤ srv.maxDialedConns := h.budget

/-- After the two passes three tasks run, and two of the eight dynamic dials
are used: the dial to `5` and the peer `4`. -/
theorem dial_limits_busyLoop :
    testServer.Reachable busyLoop ∧
      (busyLoop.runningTasks.length ≤ maxActiveDialTasks ∧
        busyLoop.dynNodes.card ≤ testServer.maxDialedConns ∧
          dynPeers busyLoop.peers ≤ testServer.maxDialedConns) ∧
      busyLoop.runningTasks.length = 3 ∧ busyLoop.dynNodes.card = 2 :=
  ⟨busyLoop_reachable, dial_limits busyLoop_reachable, by decide +kernel, by decide +kernel⟩

end Server

end P2p

end Btp
