import Mathlib
import Btp.Common.Types
import Btp.Lib.SortedRuns

/-!
# Sub-protocol negotiation

`p2p/peer.go` and `p2p/protocol.go`. After the handshake each side knows its
own protocols and the capabilities (name and version) the other side
announced. `matchProtocols` sorts those capabilities by name and version and
walks them, giving each name the highest version both sides run and a range
of message codes, one after the other from `baseProtocolLength`. A protocol
writes a message with its own code plus the offset of its range
(`protoRW.WriteMsg`); the receiving peer finds the range the code falls in
(`getProto`) and the protocol there reads its own code back (`ReadMsg`).

Offsets, lengths and codes are `uint64`, so their sums wrap. A protocol's
`Run`, `NodeInfo`, `PeerInfo` and `Attributes` and the channels of `protoRW`
play no part in the negotiation and are left out.
-/

namespace Btp.P2p

/-- `Cap`: a capability, as the other side announces it. -/
structure Cap where
  Name : String
  Version : Nat
  deriving DecidableEq, Repr

/-- `Protocol`, with the fields the negotiation reads. -/
structure Protocol where
  Name : String
  Version : Nat
  Length : UInt64
  deriving DecidableEq, Repr

/-- `Protocol.cap`. -/
def Protocol.cap (p : Protocol) : Cap := ⟨p.Name, p.Version⟩

/-- `capsByNameAndVersion.Less`. -/
def capsByNameAndVersion.Less (a b : Cap) : Bool :=
  decide (a.Name < b.Name) || (a.Name == b.Name && decide (a.Version < b.Version))

/-- `sort.Sort(capsByNameAndVersion(caps))`. `sort.Sort` is not stable, but
capabilities the order does not tell apart are equal, so every sort gives
this list. -/
def sortCaps (caps : List Cap) : List Cap :=
  caps.mergeSort fun a b => !capsByNameAndVersion.Less b a

/-- `baseProtocolLength`: the codes below it belong to the base protocol. -/
def baseProtocolLength : UInt64 := 16

/-- `protoRW`: a running protocol and the offset of its codes. -/
structure protoRW where
  Protocol : Protocol
  offset : UInt64
  deriving DecidableEq, Repr

/-- The first local protocol with the capability's name and version, as the
inner loop of `matchProtocols` finds it. -/
def findProtocol (protocols : List Protocol) (cap : Cap) : Option Protocol :=
  protocols.find? fun proto => proto.Name == cap.Name && proto.Version == cap.Version

/-- One capability of the outer loop of `matchProtocols`: a matching local
protocol takes the next range, and replaces an older version of its name,
whose range is given back first. -/
def matchStep (protocols : List Protocol) (st : UInt64 × GoMap String protoRW) (cap : Cap) :
    UInt64 × GoMap String protoRW :=
  match findProtocol protocols cap with
  | none => st
  | some proto =>
    let offset := match st.2.lookup cap.Name with
      | some old => st.1 - old.Protocol.Length
      | none => st.1
    (offset + proto.Length, st.2.insert cap.Name ⟨proto, offset⟩)

/-- `matchProtocols`. -/
def matchProtocols (protocols : List Protocol) (caps : List Cap) : GoMap String protoRW :=
  ((sortCaps caps).foldl (matchStep protocols) (baseProtocolLength, ∅)).2

/-- `countMatchingProtocols`. -/
def countMatchingProtocols (protocols : List Protocol) (caps : List Cap) : Nat :=
  caps.foldl (fun n cap =>
    protocols.foldl (fun n proto =>
      if proto.Name == cap.Name && proto.Version == cap.Version then n + 1 else n) n) 0

/-- The errors of this part of `p2p/peer.go`. -/
inductive PeerError
  | errInvalidMsgCode
  deriving DecidableEq, Repr

/-- `Peer.getProto`: the running protocol whose range holds `code`. The model
walks the map in its list order; Go's map order is random, and the results
below hold for every order because the ranges do not overlap. -/
def getProto (running : GoMap String protoRW) (code : UInt64) : Except PeerError protoRW :=
  match running.entries.find? fun e => code ≥ e.2.offset && code < e.2.offset + e.2.Protocol.Length with
  | some e => .ok e.2
  | none => .error .errInvalidMsgCode

/-- `protoRW.WriteMsg`: the code on the wire. The write itself, and the
`wstart` and `werr` hand-over with `Peer.run`, are not modelled. -/
def protoRW.WriteMsg (rw : protoRW) (code : UInt64) : Except PeerError UInt64 :=
  if code ≥ rw.Protocol.Length then .error .errInvalidMsgCode else .ok (code + rw.offset)

/-- `protoRW.ReadMsg`: the code the protocol reads. -/
def protoRW.ReadMsg (rw : protoRW) (code : UInt64) : UInt64 := code - rw.offset

def pingMsg : UInt64 := 0x02
def discMsg : UInt64 := 0x01

/-- Where `Peer.handle` sends a message. -/
inductive Delivery
  | pong
  | disconnect
  | discarded
  | toProtocol (rw : protoRW) (code : UInt64)
  deriving DecidableEq, Repr

/-- `Peer.handle`, by the code of the message. -/
def handle (running : GoMap String protoRW) (code : UInt64) : Except PeerError Delivery :=
  if code = pingMsg then .ok .pong
  else if code = discMsg then .ok .disconnect
  else if code < baseProtocolLength then .ok .discarded
  else (getProto running code).map fun rw => .toProtocol rw (rw.ReadMsg code)

/-! ## The order of the capabilities -/

theorem sortLe_iff (a b : Cap) :
    (!capsByNameAndVersion.Less b a) = true ↔ toLex (a.Name, a.Version) ≤ toLex (b.Name, b.Version) := by
  rw [Prod.Lex.toLex_le_toLex]
  simp only [capsByNameAndVersion.Less, Bool.not_eq_true', Bool.or_eq_false_iff, decide_eq_false_iff_not,
    Bool.and_eq_false_iff, beq_eq_false_iff_ne, ne_eq, not_lt]
  constructor
  · rintro ⟨h1, h2⟩
    rcases lt_or_eq_of_le h1 with h | h
    · exact Or.inl h
    · exact Or.inr ⟨h, h2.resolve_left (by rw [h]; exact not_not.2 rfl)⟩
  · rintro (h | ⟨h, h'⟩)
    · exact ⟨h.le, Or.inl (ne_of_gt h)⟩
    · exact ⟨h.le, Or.inr h'⟩

theorem sortCaps_perm (caps : List Cap) : (sortCaps caps).Perm caps := List.mergeSort_perm _ _

theorem sortCaps_sorted (caps : List Cap) :
    (sortCaps caps).Pairwise fun a b => toLex (a.Name, a.Version) ≤ toLex (b.Name, b.Version) := by
  have h := @List.pairwise_mergeSort _ (fun a b => !capsByNameAndVersion.Less b a)
    (fun a b c hab hbc => (sortLe_iff a c).2 (le_trans ((sortLe_iff a b).1 hab) ((sortLe_iff b c).1 hbc)))
    (fun a b => by
      rcases le_total (toLex (a.Name, a.Version)) (toLex (b.Name, b.Version)) with h | h
      · rw [(sortLe_iff a b).2 h, Bool.true_or]
      · rw [(sortLe_iff b a).2 h, Bool.or_true])
    caps
  exact h.imp fun hab => (sortLe_iff _ _).1 hab

/-! ## What each side selects

The loop of `matchProtocols` over the sorted capabilities is a
`SortedRuns.collapse` of the local protocols they match: each name keeps its
last match, which is its highest version. -/

theorem findProtocol_eq_some {protocols : List Protocol} {cap : Cap} {p : Protocol}
    (h : findProtocol protocols cap = some p) : p ∈ protocols ∧ p.cap = cap := by
  have hp := List.find?_some h
  simp only [Bool.and_eq_true, beq_iff_eq] at hp
  exact ⟨List.mem_of_find?_eq_some h, by rw [Protocol.cap, hp.1, hp.2]⟩

/-- The local protocols the capabilities match, in their order. -/
def matched (protocols : List Protocol) (caps : List Cap) : List Protocol :=
  caps.filterMap (findProtocol protocols)

/-- The protocols the loop keeps, newest first. -/
def chosen (protocols : List Protocol) (caps : List Cap) : List Protocol :=
  SortedRuns.collapse Protocol.Name (matched protocols caps)

section Chosen

variable (protocols : List Protocol) {caps : List Cap}
  (hs : caps.Pairwise fun a b => toLex (a.Name, a.Version) ≤ toLex (b.Name, b.Version))
include hs

theorem matched_sorted :
    (matched protocols caps).Pairwise fun x y => toLex (x.Name, x.Version) ≤ toLex (y.Name, y.Version) := by
  rw [matched, List.pairwise_filterMap]
  refine hs.imp fun {a b} hab x hx y hy => ?_
  obtain ⟨-, rfl⟩ := findProtocol_eq_some hx
  obtain ⟨-, rfl⟩ := findProtocol_eq_some hy
  exact hab

theorem collapsed_chosen :
    SortedRuns.Collapsed Protocol.Name Protocol.Version (matched protocols caps) (chosen protocols caps) := by
  refine SortedRuns.collapsed _ (matched_sorted protocols hs) fun x hx y hy hn hv => ?_
  obtain ⟨a, -, hxa⟩ := List.mem_filterMap.1 hx
  obtain ⟨b, -, hyb⟩ := List.mem_filterMap.1 hy
  -- a name and a version name one capability, and the first protocol it matches
  have hab : a = b := by
    rw [← (findProtocol_eq_some hxa).2, ← (findProtocol_eq_some hyb).2, Protocol.cap, Protocol.cap, hn, hv]
  rw [hab, hyb] at hxa
  exact (Option.some.inj hxa).symm

end Chosen

/-! ## The ranges the loop lays out -/

/-- The sum of the lengths, in `uint64`. -/
def sumLength (l : List Protocol) : UInt64 := (l.map (·.Length)).sum

/-- The map the loop builds from the protocols it keeps, newest first: each
protocol's range starts after the ranges of the ones kept before it. -/
def layout : List Protocol → List (Σ _ : String, protoRW)
  | [] => []
  | p :: t => ⟨p.Name, ⟨p, baseProtocolLength + sumLength t⟩⟩ :: layout t

theorem keys_layout (C : List Protocol) : (layout C).keys = C.map Protocol.Name := by
  induction C with
  | nil => rfl
  | cons p t ih => rw [layout, List.keys_cons, ih, List.map_cons]

/-- One capability of the loop, on a map laid out from `acc`. A name the
loop has seen can only be the newest one kept. -/
theorem matchStep_layout {protocols acc : List Protocol} {st : UInt64 × GoMap String protoRW} {cap : Cap}
    (h₁ : st.1 = baseProtocolLength + sumLength acc) (h₂ : st.2.entries = layout acc)
    (htail : cap.Name ∉ acc.tail.map Protocol.Name) :
    let acc' : List Protocol := match findProtocol protocols cap with
      | none => acc
      | some p => SortedRuns.collapseStep Protocol.Name acc p
    (matchStep protocols st cap).1 = baseProtocolLength + sumLength acc' ∧
      (matchStep protocols st cap).2.entries = layout acc' := by
  intro acc'
  cases hf : findProtocol protocols cap with
  | none => simp only [acc', matchStep, hf, h₁, h₂, and_self]
  | some p =>
    have hname : p.Name = cap.Name := by rw [← (findProtocol_eq_some hf).2]; rfl
    simp only [acc', matchStep, hf, AList.lookup, h₂, AList.entries_insert]
    match acc, htail with
    | [], _ =>
      simp only [layout, List.dlookup_nil, List.kerase_nil, SortedRuns.collapseStep, hname, h₁,
        sumLength, List.map_cons, List.map_nil, List.sum_cons, List.sum_nil]
      constructor <;> grind
    | b :: t, htail =>
      by_cases hb : b.Name = cap.Name
      · -- the newest kept has this name: its range is given back and taken again
        have hk : List.kerase cap.Name (layout (b :: t)) = layout t := by
          rw [layout, hb]
          exact List.kerase_cons_eq rfl
        have hl : List.dlookup cap.Name (layout (b :: t)) = some ⟨b, baseProtocolLength + sumLength t⟩ := by
          rw [layout, hb, List.dlookup_cons_eq]
        have hoff : baseProtocolLength + (b.Length + (t.map (·.Length)).sum) - b.Length =
            baseProtocolLength + (t.map (·.Length)).sum := by grind
        rw [hl, hk]
        simp only [SortedRuns.collapseStep, hb, hname, if_true, layout, h₁, sumLength,
          List.map_cons, List.sum_cons, hoff, and_true]
        grind
      · -- a new name: the next range
        have hfresh : cap.Name ∉ (layout (b :: t)).keys := by
          rw [keys_layout, List.map_cons, List.mem_cons, not_or]
          exact ⟨fun h => hb h.symm, htail⟩
        rw [List.dlookup_eq_none.2 hfresh, List.kerase_of_notMem_keys hfresh]
        simp only [SortedRuns.collapseStep, hname, hb, if_false, layout, h₁, sumLength,
          List.map_cons, List.sum_cons]
        constructor <;> grind

theorem chosen_snoc (protocols : List Protocol) (caps : List Cap) (cap : Cap) :
    chosen protocols (caps ++ [cap]) = match findProtocol protocols cap with
      | none => chosen protocols caps
      | some p => SortedRuns.collapseStep Protocol.Name (chosen protocols caps) p := by
  cases hf : findProtocol protocols cap with
  | none => simp only [chosen, matched, List.filterMap_append, List.filterMap_cons, hf,
      List.filterMap_nil, List.append_nil]
  | some p => simp only [chosen, matched, List.filterMap_append, List.filterMap_cons, hf,
      List.filterMap_nil, SortedRuns.collapse_snoc]

/-- The whole loop over sorted capabilities lays out the protocols it keeps;
the induction runs over the capabilities, and `Collapsed` gives at each step
that a name already seen can only be the newest kept. -/
theorem foldl_matchStep (protocols : List Protocol) (caps : List Cap)
    (hs : caps.Pairwise fun a b => toLex (a.Name, a.Version) ≤ toLex (b.Name, b.Version)) :
    (caps.foldl (matchStep protocols) (baseProtocolLength, ∅)).1 =
        baseProtocolLength + sumLength (chosen protocols caps) ∧
      (caps.foldl (matchStep protocols) (baseProtocolLength, ∅)).2.entries =
        layout (chosen protocols caps) := by
  induction caps using List.reverseRecOn with
  | nil => exact ⟨by simp [chosen, matched, SortedRuns.collapse, sumLength], rfl⟩
  | append_singleton caps cap ih =>
    rw [List.pairwise_append] at hs
    obtain ⟨h₁, h₂⟩ := ih hs.1
    have hc := collapsed_chosen protocols hs.1
    -- every name kept after the newest is below it, and the newest is at most `cap`'s name
    have htail : cap.Name ∉ (chosen protocols caps).tail.map Protocol.Name := by
      intro hmem
      obtain ⟨q, hq, hqn⟩ := List.mem_map.1 hmem
      cases hC : chosen protocols caps with
      | nil => rw [hC] at hq; exact List.not_mem_nil hq
      | cons b t =>
        rw [hC, List.tail_cons] at hq
        rw [hC] at hc
        have hqb : q.Name < b.Name := List.rel_of_pairwise_cons hc.desc hq
        obtain ⟨c', hc', hfc⟩ := List.mem_filterMap.1 ((hc.mem b).1 List.mem_cons_self).1
        have hbn : b.Name = c'.Name := by rw [← (findProtocol_eq_some hfc).2]; rfl
        have hle : c'.Name ≤ cap.Name :=
          (Prod.Lex.toLex_le_toLex.1 (hs.2.2 c' hc' cap (List.mem_singleton_self _))).elim le_of_lt
            fun h => h.1.le
        exact absurd hqn (ne_of_lt (lt_of_lt_of_le (hbn ▸ hqb) hle))
    rw [List.foldl_append, List.foldl_cons, List.foldl_nil, chosen_snoc]
    exact matchStep_layout h₁ h₂ htail

/-- `matchProtocols` lays out what it keeps of the sorted capabilities. -/
theorem matchProtocols_entries (protocols : List Protocol) (caps : List Cap) :
    (matchProtocols protocols caps).entries = layout (chosen protocols (sortCaps caps)) :=
  (foldl_matchStep protocols (sortCaps caps) (sortCaps_sorted caps)).2

/-! ## Both sides select the same protocols -/

section Agreement

variable {P Q : List Protocol}
  (hlen : ∀ p ∈ P ++ Q, ∀ q ∈ P ++ Q, p.cap = q.cap → p.Length = q.Length)
include hlen

/-- Where equal names and versions have equal lengths, a name and a version
name one protocol. -/
theorem eq_of_cap {p q : Protocol} (hp : p ∈ P ++ Q) (hq : q ∈ P ++ Q) (h : p.cap = q.cap) : p = q := by
  have hl := hlen p hp q hq h
  have hn : p.Name = q.Name := congrArg Cap.Name h
  have hv : p.Version = q.Version := congrArg Cap.Version h
  cases p
  cases q
  simp only at hl hn hv
  rw [hn, hv, hl]

/-- A side matches exactly the protocols both sides run. -/
theorem mem_matched_iff (q : Protocol) :
    q ∈ matched P (sortCaps (Q.map Protocol.cap)) ↔ q ∈ P ∧ q ∈ Q := by
  constructor
  · intro hq
    obtain ⟨c, hc, hf⟩ := List.mem_filterMap.1 hq
    obtain ⟨hqP, hqc⟩ := findProtocol_eq_some hf
    obtain ⟨r, hr, hrc⟩ := List.mem_map.1 ((sortCaps_perm _).subset hc)
    have hqr : q = r :=
      eq_of_cap hlen (List.mem_append_left _ hqP) (List.mem_append_right _ hr) (hqc.trans hrc.symm)
    exact ⟨hqP, hqr ▸ hr⟩
  · rintro ⟨hqP, hqQ⟩
    have hc : q.cap ∈ sortCaps (Q.map Protocol.cap) :=
      (sortCaps_perm _).symm.subset (List.mem_map_of_mem hqQ)
    obtain ⟨r, hr⟩ : ∃ r, findProtocol P q.cap = some r :=
      Option.isSome_iff_exists.1 (List.find?_isSome.2 ⟨q, hqP, by simp [Protocol.cap]⟩)
    obtain ⟨hrP, hrc⟩ := findProtocol_eq_some hr
    have hrq : r = q := eq_of_cap hlen (List.mem_append_left _ hrP) (List.mem_append_left _ hqP) hrc
    exact List.mem_filterMap.2 ⟨q.cap, hc, hrq ▸ hr⟩

/-- A side keeps, for each name both sides run, the protocol of the highest
version both run. -/
theorem mem_chosen_iff (p : Protocol) :
    p ∈ chosen P (sortCaps (Q.map Protocol.cap)) ↔
      (p ∈ P ∧ p ∈ Q) ∧ ∀ q, q ∈ P → q ∈ Q → q.Name = p.Name → q.Version ≤ p.Version := by
  rw [(collapsed_chosen P (sortCaps_sorted _)).mem p, mem_matched_iff hlen]
  constructor
  · rintro ⟨hp, hmax⟩
    exact ⟨hp, fun q hqP hqQ => hmax q ((mem_matched_iff hlen q).2 ⟨hqP, hqQ⟩)⟩
  · rintro ⟨hp, hmax⟩
    exact ⟨hp, fun q hq => hmax q ((mem_matched_iff hlen q).1 hq).1 ((mem_matched_iff hlen q).1 hq).2⟩

end Agreement

theorem chosen_desc (P Q : List Protocol) :
    (chosen P (sortCaps (Q.map Protocol.cap))).Pairwise fun x y => y.Name < x.Name :=
  (collapsed_chosen P (sortCaps_sorted _)).desc

/-- The two sides keep the same list: both are strictly ordered by name and
have the same members. -/
theorem chosen_comm {P Q : List Protocol}
    (hlen : ∀ p ∈ P ++ Q, ∀ q ∈ P ++ Q, p.cap = q.cap → p.Length = q.Length) :
    chosen P (sortCaps (Q.map Protocol.cap)) = chosen Q (sortCaps (P.map Protocol.cap)) := by
  have hlen' : ∀ p ∈ Q ++ P, ∀ q ∈ Q ++ P, p.cap = q.cap → p.Length = q.Length :=
    fun p hp q hq => hlen p (List.perm_append_comm.mem_iff.1 hp) q (List.perm_append_comm.mem_iff.1 hq)
  have hnd : ∀ l : List Protocol, l.Pairwise (fun x y => y.Name < x.Name) → l.Nodup :=
    fun l hl => hl.imp fun {a b} (h : b.Name < a.Name) (he : a = b) => by
      subst he
      exact lt_irrefl _ h
  have hmem : ∀ p, p ∈ chosen P (sortCaps (Q.map Protocol.cap)) ↔ p ∈ chosen Q (sortCaps (P.map Protocol.cap)) := by
    intro p
    rw [mem_chosen_iff hlen, mem_chosen_iff hlen']
    constructor
    · rintro ⟨⟨hP, hQ⟩, hmax⟩
      exact ⟨⟨hQ, hP⟩, fun q hqQ hqP => hmax q hqP hqQ⟩
    · rintro ⟨⟨hQ, hP⟩, hmax⟩
      exact ⟨⟨hP, hQ⟩, fun q hqP hqQ => hmax q hqQ hqP⟩
  exact List.Perm.eq_of_pairwise (fun a b _ _ hab hba => absurd (lt_trans hab hba) (lt_irrefl _))
    (chosen_desc P Q) (chosen_desc Q P)
    ((List.perm_ext_iff_of_nodup (hnd _ (chosen_desc P Q)) (hnd _ (chosen_desc Q P))).2 hmem)

/-! ## The ranges, when their lengths fit in `uint64` -/

/-- The sum of the lengths, as a number. -/
def lengthSum (l : List Protocol) : Nat := (l.map fun p => p.Length.toNat).sum

@[simp] theorem lengthSum_nil : lengthSum [] = 0 := rfl

@[simp] theorem lengthSum_cons (p : Protocol) (t : List Protocol) :
    lengthSum (p :: t) = p.Length.toNat + lengthSum t := by
  simp [lengthSum]

theorem toNat_sumLength (l : List Protocol) : (sumLength l).toNat = lengthSum l % 2 ^ 64 := by
  induction l with
  | nil => rfl
  | cons p t ih =>
    simp only [sumLength, List.map_cons, List.sum_cons, UInt64.toNat_add] at ih ⊢
    rw [ih, lengthSum_cons]
    omega

theorem toNat_offset {l : List Protocol} (h : 16 + lengthSum l < 2 ^ 64) :
    (baseProtocolLength + sumLength l).toNat = 16 + lengthSum l := by
  have hb : baseProtocolLength.toNat = 16 := rfl
  rw [UInt64.toNat_add, toNat_sumLength, hb]
  omega

theorem lengthSum_le_of_subperm {l l' : List Protocol} (h : l.Subperm l') : lengthSum l ≤ lengthSum l' := by
  obtain ⟨m, hm, hsub⟩ := h
  unfold lengthSum
  rw [← (hm.map _).sum_eq]
  exact (hsub.map _).sum_le_sum fun _ _ => Nat.zero_le _

theorem mem_layout {C : List Protocol} {e : Σ _ : String, protoRW} (he : e ∈ layout C) :
    e.2.Protocol ∈ C ∧ e.1 = e.2.Protocol.Name := by
  induction C with
  | nil => exact absurd he List.not_mem_nil
  | cons p t ih =>
    rcases List.mem_cons.1 he with rfl | he
    · exact ⟨List.mem_cons_self, rfl⟩
    · exact ⟨List.mem_cons_of_mem _ (ih he).1, (ih he).2⟩

theorem map_length_layout (C : List Protocol) :
    (layout C).map (fun e => e.2.Protocol.Length.toNat) = C.map fun p => p.Length.toNat := by
  induction C with
  | nil => rfl
  | cons p t ih => rw [layout, List.map_cons, ih, List.map_cons]

section Ranges

variable {C : List Protocol} (hdesc : C.Pairwise fun x y => y.Name < x.Name)
  (hC : 16 + lengthSum C < 2 ^ 64)

include hC in
/-- Every range ends within the total. -/
theorem layout_end : ∀ e ∈ layout C, e.2.offset.toNat + e.2.Protocol.Length.toNat ≤ 16 + lengthSum C := by
  induction C with
  | nil => exact fun e he => absurd he List.not_mem_nil
  | cons p t ih =>
    have ht : 16 + lengthSum t < 2 ^ 64 := by
      rw [lengthSum_cons] at hC
      omega
    intro e he
    rcases List.mem_cons.1 he with rfl | he
    · show (baseProtocolLength + sumLength t).toNat + p.Length.toNat ≤ 16 + lengthSum (p :: t)
      rw [toNat_offset ht, lengthSum_cons]
      omega
    · have := ih ht e he
      rw [lengthSum_cons]
      omega

include hdesc hC in
/-- A range laid out later lies wholly below one laid out earlier, and has a
smaller name. -/
theorem layout_pairwise :
    (layout C).Pairwise fun e₂ e₁ =>
      e₁.1 < e₂.1 ∧ e₁.2.offset.toNat + e₁.2.Protocol.Length.toNat ≤ e₂.2.offset.toNat := by
  induction C with
  | nil => exact List.Pairwise.nil
  | cons p t ih =>
    have ht : 16 + lengthSum t < 2 ^ 64 := by
      rw [lengthSum_cons] at hC
      omega
    rw [List.pairwise_cons] at hdesc
    refine List.Pairwise.cons (fun e he => ⟨?_, ?_⟩) (ih hdesc.2 ht)
    · obtain ⟨hp, hname⟩ := mem_layout he
      exact hname ▸ hdesc.1 _ hp
    · rw [toNat_offset ht]
      exact layout_end ht e he

include hdesc hC in
/-- A range starts after all the ranges of smaller names: the ranges are
contiguous from `baseProtocolLength`. -/
theorem offset_layout (n : String) (rw : protoRW) (h : (layout C).dlookup n = some rw) :
    rw.offset.toNat =
      16 + (((layout C).filter fun e => decide (e.1 < n)).map fun e => e.2.Protocol.Length.toNat).sum := by
  induction C with
  | nil => exact absurd h (by simp [layout])
  | cons p t ih =>
    have ht : 16 + lengthSum t < 2 ^ 64 := by
      rw [lengthSum_cons] at hC
      omega
    rw [List.pairwise_cons] at hdesc
    have hbelow : ∀ e ∈ layout t, e.1 < p.Name := fun e he => by
      obtain ⟨hq, hname⟩ := mem_layout he
      exact hname ▸ hdesc.1 _ hq
    by_cases hn : n = p.Name
    · -- the newest kept: every range after it has a smaller name
      subst hn
      rw [layout, List.dlookup_cons_eq, Option.some.injEq] at h
      subst h
      rw [layout, List.filter_cons, if_neg (by simp), List.filter_eq_self.2 (fun e he => by
        simpa using hbelow e he), map_length_layout, toNat_offset ht]
      rfl
    · have h' : (layout t).dlookup n = some rw := by
        rwa [layout, List.dlookup_cons_ne _ _ hn] at h
      have hlt : n < p.Name := hbelow _ (List.of_mem_dlookup h')
      rw [ih hdesc.2 ht h', layout, List.filter_cons,
        if_neg (by rw [decide_eq_true_eq]; exact not_lt.2 hlt.le)]

theorem pairwise_rel_or {β : Type} {R : β → β → Prop} {l : List β} (h : l.Pairwise R) :
    ∀ a ∈ l, ∀ b ∈ l, a ≠ b → R a b ∨ R b a := by
  induction h with
  | nil => exact fun a ha => absurd ha List.not_mem_nil
  | cons hr _ ih =>
    intro a ha b hb hab
    rcases List.mem_cons.1 ha with rfl | ha' <;> rcases List.mem_cons.1 hb with rfl | hb'
    · exact absurd rfl hab
    · exact Or.inl (hr b hb')
    · exact Or.inr (hr a ha')
    · exact ih a ha' b hb' hab

theorem find?_eq_some_of_unique {β : Type} {l : List β} {p : β → Bool} {e : β} (he : e ∈ l)
    (hp : p e = true) (huniq : ∀ x ∈ l, p x = true → x = e) : l.find? p = some e := by
  obtain ⟨x, hx⟩ := Option.isSome_iff_exists.1 (List.find?_isSome.2 ⟨e, he, hp⟩)
  rw [hx, huniq x (List.mem_of_find?_eq_some hx) (List.find?_some hx)]

/-- The test of `getProto`, on a range that does not wrap. -/
theorem inRange_iff (e : Σ _ : String, protoRW) (code : UInt64)
    (he : e.2.offset.toNat + e.2.Protocol.Length.toNat < 2 ^ 64) :
    (code ≥ e.2.offset && code < e.2.offset + e.2.Protocol.Length) = true ↔
      e.2.offset.toNat ≤ code.toNat ∧ code.toNat < e.2.offset.toNat + e.2.Protocol.Length.toNat := by
  simp only [Bool.and_eq_true, decide_eq_true_eq, ge_iff_le, UInt64.le_iff_toNat_le,
    UInt64.lt_iff_toNat_lt, UInt64.toNat_add]
  rw [Nat.mod_eq_of_lt he]

include hdesc hC in
/-- `getProto` finds the range a code falls in, whatever the order of the
map, since no other range holds it. -/
theorem getProto_layout (running : GoMap String protoRW) (hrun : running.entries = layout C)
    {e : Σ _ : String, protoRW} (he : e ∈ layout C) (code : UInt64)
    (hlo : e.2.offset.toNat ≤ code.toNat)
    (hhi : code.toNat < e.2.offset.toNat + e.2.Protocol.Length.toNat) :
    getProto running code = .ok e.2 := by
  have hfits : ∀ x ∈ layout C, x.2.offset.toNat + x.2.Protocol.Length.toNat < 2 ^ 64 :=
    fun x hx => lt_of_le_of_lt (layout_end hC x hx) hC
  have hfind : (layout C).find? (fun x => code ≥ x.2.offset && code < x.2.offset + x.2.Protocol.Length) =
      some e := by
    refine find?_eq_some_of_unique he ((inRange_iff e code (hfits e he)).2 ⟨hlo, hhi⟩) fun x hx hpx => ?_
    obtain ⟨hxlo, hxhi⟩ := (inRange_iff x code (hfits x hx)).1 hpx
    by_contra hne
    rcases pairwise_rel_or (layout_pairwise hdesc hC) x hx e he hne with h | h
    · omega
    · omega
  rw [getProto, hrun, hfind]

end Ranges

/-! ## Two peers -/

/-- Two peers with protocol lists `PA` and `PB`, each matching its own list
against the capabilities of the other, build the same map. It holds, for
every name both run, the highest version both run, with a range of codes
that starts after the ranges of the smaller names; when the lengths fit in
`uint64`, a message a protocol writes with a code below its length reaches
the same protocol on the other side with the same code. -/
theorem negotiated_ranges_agree_and_route (PA PB : List Protocol)
    (hlen : ∀ p ∈ PA ++ PB, ∀ q ∈ PA ++ PB, p.cap = q.cap → p.Length = q.Length)
    (hsum : 16 + lengthSum PA < 2 ^ 64) :
    let A : GoMap String protoRW := matchProtocols PA (PB.map Protocol.cap)
    let B : GoMap String protoRW := matchProtocols PB (PA.map Protocol.cap)
    A.entries = B.entries ∧
    (∀ n, (A.lookup n).isSome ↔ ∃ p ∈ PA, p ∈ PB ∧ p.Name = n) ∧
    ∀ n rw, A.lookup n = some rw →
      rw.Protocol.Name = n ∧ (rw.Protocol ∈ PA ∧ rw.Protocol ∈ PB) ∧
      (∀ q ∈ PA, q ∈ PB → q.Name = n → q.Version ≤ rw.Protocol.Version) ∧
      rw.offset.toNat =
        16 + ((A.entries.filter fun e => decide (e.1 < n)).map fun e => e.2.Protocol.Length.toNat).sum ∧
      rw.offset.toNat + rw.Protocol.Length.toNat < 2 ^ 64 ∧
      (∀ n' rw', A.lookup n' = some rw' → n' < n →
        rw'.offset.toNat + rw'.Protocol.Length.toNat ≤ rw.offset.toNat) ∧
      ∀ c : UInt64, c < rw.Protocol.Length →
        ∃ w, rw.WriteMsg c = .ok w ∧ handle B w = .ok (.toProtocol rw c) := by
  intro A B
  set C := chosen PA (sortCaps (PB.map Protocol.cap)) with hCdef
  have hA : A.entries = layout C := matchProtocols_entries _ _
  have hB : B.entries = layout C := by rw [matchProtocols_entries, ← chosen_comm hlen]
  have hdesc : C.Pairwise fun x y => y.Name < x.Name := chosen_desc PA PB
  have hCmem := mem_chosen_iff hlen
  -- what is kept is a part of `PA`, so its lengths fit too
  have hC : 16 + lengthSum C < 2 ^ 64 := by
    have hnd : C.Nodup := hdesc.imp fun {a b} (h : b.Name < a.Name) (he : a = b) => by
      subst he
      exact lt_irrefl _ h
    have hsub : C ⊆ PA := fun p hp => ((hCmem p).1 hp).1.1
    have := lengthSum_le_of_subperm (List.subperm_of_subset hnd hsub)
    omega
  have hlookup : ∀ n, A.lookup n = (layout C).dlookup n := fun n => by rw [AList.lookup, hA]
  refine ⟨hA.trans hB.symm, fun n => ?_, fun n rw h => ?_⟩
  · -- the names kept are the names both sides run
    rw [hlookup, List.dlookup_isSome, keys_layout, List.mem_map]
    constructor
    · rintro ⟨p, hp, rfl⟩
      exact ⟨p, ((hCmem p).1 hp).1.1, ((hCmem p).1 hp).1.2, rfl⟩
    · rintro ⟨p, hpA, hpB, rfl⟩
      have hm : p ∈ matched PA (sortCaps (PB.map Protocol.cap)) := (mem_matched_iff hlen p).2 ⟨hpA, hpB⟩
      obtain ⟨x, hx, hxp⟩ := (collapsed_chosen PA (sortCaps_sorted _)).cover p hm
      exact ⟨x, hx, hxp⟩
  rw [hlookup] at h
  have hmem : (⟨n, rw⟩ : Σ _ : String, protoRW) ∈ layout C := List.of_mem_dlookup h
  obtain ⟨hrwC, hname⟩ := mem_layout hmem
  obtain ⟨⟨hPA, hPB⟩, hmax⟩ := (hCmem rw.Protocol).1 hrwC
  have hoff := offset_layout hdesc hC n rw h
  have hend : rw.offset.toNat + rw.Protocol.Length.toNat < 2 ^ 64 :=
    lt_of_le_of_lt (layout_end hC _ hmem) hC
  refine ⟨hname.symm, ⟨hPA, hPB⟩, fun q hqA hqB hq => hmax q hqA hqB (hname ▸ hq), hA ▸ hoff, hend,
    fun n' rw' h' hlt => ?_, fun c hc => ?_⟩
  · -- a smaller name was laid out later, below
    rw [hlookup] at h'
    have hmem' : (⟨n', rw'⟩ : Σ _ : String, protoRW) ∈ layout C := List.of_mem_dlookup h'
    have hne : (⟨n, rw⟩ : Σ _ : String, protoRW) ≠ ⟨n', rw'⟩ := fun he => (ne_of_gt hlt) (congrArg Sigma.fst he)
    rcases pairwise_rel_or (layout_pairwise hdesc hC) _ hmem _ hmem' hne with h₁ | h₁
    · exact h₁.2
    · exact absurd h₁.1 (not_lt.2 hlt.le)
  · -- the code on the wire falls in the range, above the base protocol's codes
    have hw : (c + rw.offset).toNat = c.toNat + rw.offset.toNat := by
      rw [UInt64.toNat_add]
      exact Nat.mod_eq_of_lt (by have := UInt64.lt_iff_toNat_lt.1 hc; omega)
    have h16 : 16 ≤ rw.offset.toNat := by omega
    have hnot : ¬ c ≥ rw.Protocol.Length := fun h =>
      absurd (UInt64.le_iff_toNat_le.1 h) (by have := UInt64.lt_iff_toNat_lt.1 hc; omega)
    refine ⟨c + rw.offset, by rw [protoRW.WriteMsg, if_neg hnot], ?_⟩
    have hping : c + rw.offset ≠ pingMsg := fun he => by
      have := congrArg UInt64.toNat he
      rw [hw] at this
      exact absurd this (by rw [show pingMsg.toNat = 2 from rfl]; omega)
    have hdisc : c + rw.offset ≠ discMsg := fun he => by
      have := congrArg UInt64.toNat he
      rw [hw] at this
      exact absurd this (by rw [show discMsg.toNat = 1 from rfl]; omega)
    have hbase : ¬ c + rw.offset < baseProtocolLength := by
      rw [UInt64.lt_iff_toNat_lt, hw, show baseProtocolLength.toNat = 16 from rfl]
      omega
    have hget : getProto B (c + rw.offset) = .ok rw :=
      getProto_layout hdesc hC B hB hmem _
        (show rw.offset.toNat ≤ (c + rw.offset).toNat by rw [hw]; omega)
        (show (c + rw.offset).toNat < rw.offset.toNat + rw.Protocol.Length.toNat by
          rw [hw]
          have := UInt64.lt_iff_toNat_lt.1 hc
          omega)
    rw [handle, if_neg hping, if_neg hdisc, if_neg hbase, hget]
    simp only [Except.map, protoRW.ReadMsg, Except.ok.injEq, Delivery.toProtocol.injEq, true_and]
    grind

/-- Two `eth` versions on one side and both of them and `les` on the other:
both keep `eth/63` at offset 16. -/
theorem negotiated_ranges_agree_and_route_on_eth :
    let PA : List Protocol := [⟨"eth", 63, 17⟩, ⟨"eth", 62, 8⟩, ⟨"les", 2, 21⟩]
    let PB : List Protocol := [⟨"eth", 62, 8⟩, ⟨"eth", 63, 17⟩]
    (∀ p ∈ PA ++ PB, ∀ q ∈ PA ++ PB, p.cap = q.cap → p.Length = q.Length) ∧ 16 + lengthSum PA < 2 ^ 64 ∧
      (matchProtocols PA (PB.map Protocol.cap)).entries =
        (matchProtocols PB (PA.map Protocol.cap)).entries := by
  intro PA PB
  have hlen : ∀ p ∈ PA ++ PB, ∀ q ∈ PA ++ PB, p.cap = q.cap → p.Length = q.Length := by
    simp only [PA, PB]
    decide +kernel
  have hsum : 16 + lengthSum PA < 2 ^ 64 := by
    simp only [PA]
    decide +kernel
  exact ⟨hlen, hsum, (negotiated_ranges_agree_and_route PA PB hlen hsum).1⟩

end Btp.P2p
