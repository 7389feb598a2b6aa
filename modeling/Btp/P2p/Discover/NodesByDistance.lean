import Mathlib
import Btp.Lib.ByteBits
import Btp.Lib.GoSlice
import Btp.Lib.SortSearch
import Btp.P2p.Discover.Table

/-!
# The closest-node list

`nodesByDistance` of `p2p/discover/table.go`, the list that `closest` and
the lookups fill one node at a time, and `enode.DistCmp`, which orders it.
`DistCmp` compares `a xor target` with `b xor target` byte by byte from the
first; that is the order of the two XORs read as big-endian numbers
(`xorDist`), and the proofs work with that number.

A push inserts into the list and cuts it to `maxElems`. Since the list is a
prefix of the order of all pushed nodes, the insertion into the prefix, cut,
is the prefix of the insertion into the whole order (`push_entries`); so
after any pushes of distinct nodes the list is the first `maxElems` of them
by distance.
-/

namespace Btp

namespace Enode

open ByteBits

/-- The loop of `DistCmp` over the bytes of the target and of the two IDs. -/
def distCmp : List UInt8 → List UInt8 → List UInt8 → Int
  | t :: target, a :: as, b :: bs =>
    if a ^^^ t > b ^^^ t then 1
    else if a ^^^ t < b ^^^ t then -1
    else distCmp target as bs
  | _, _, _ => 0

/-- `enode.DistCmp`: `-1` if `a` is closer to `target`, `1` if `b` is, `0`
if they are as far. -/
def DistCmp (target a b : ID) : Int := distCmp target.toList a.toList b.toList

/-- The distance of `a` to `target`: `a xor target` as a big-endian number. -/
def xorDist (target a : ID) : Nat := ofBytesBE (List.zipWith (· ^^^ ·) a.toList target.toList)

theorem distCmp_eq {target as bs : List UInt8} (ha : as.length = target.length)
    (hb : bs.length = target.length) :
    distCmp target as bs =
      if ofBytesBE (List.zipWith (· ^^^ ·) bs target) < ofBytesBE (List.zipWith (· ^^^ ·) as target)
      then 1
      else if ofBytesBE (List.zipWith (· ^^^ ·) as target) <
        ofBytesBE (List.zipWith (· ^^^ ·) bs target) then -1
      else 0 := by
  induction target generalizing as bs with
  | nil =>
    rw [List.length_nil, List.length_eq_zero_iff] at ha hb
    subst ha hb
    rfl
  | cons t target ih =>
    obtain _ | ⟨a, as⟩ := as
    · simp at ha
    obtain _ | ⟨b, bs⟩ := bs
    · simp at hb
    simp only [List.length_cons, Nat.add_right_cancel_iff] at ha hb
    have hl : (List.zipWith (· ^^^ ·) bs target).length = (List.zipWith (· ^^^ ·) as target).length := by
      simp [ha, hb]
    simp only [distCmp, List.zipWith_cons_cons, ofBytesBE_cons_lt_cons_iff hl,
      ofBytesBE_cons_lt_cons_iff hl.symm, ih ha hb]
    -- the first bytes decide unless they are equal, and then the rest does
    generalize a ^^^ t = x, b ^^^ t = y
    simp only [gt_iff_lt, UInt8.lt_iff_toNat_lt, ← UInt8.toNat_inj]
    rcases Nat.lt_trichotomy x.toNat y.toNat with h | h | h
    · simp [h, Nat.ne_of_gt h, Nat.not_lt_of_gt h]
    · simp [h]
    · simp [h]

/-- `DistCmp` is the comparison of the two distances. -/
theorem DistCmp_eq (target a b : ID) :
    DistCmp target a b =
      if xorDist target b < xorDist target a then 1
      else if xorDist target a < xorDist target b then -1 else 0 :=
  distCmp_eq (by simp) (by simp)

theorem DistCmp_pos_iff {target a b : ID} : 0 < DistCmp target a b ↔ xorDist target b < xorDist target a := by
  rw [DistCmp_eq]
  split_ifs with h1 h2 <;> simp [h1]

theorem DistCmp_neg_iff {target a b : ID} : DistCmp target a b < 0 ↔ xorDist target a < xorDist target b := by
  rw [DistCmp_eq]
  split_ifs with h1 h2
  · simp only [Int.reduceLT, false_iff, not_lt]
    exact h1.le
  · simp [h2]
  · simp [h2]

theorem zipWith_xor_cancel {ts as bs : List UInt8} (ha : as.length = ts.length) (hb : bs.length = ts.length)
    (h : List.zipWith (· ^^^ ·) as ts = List.zipWith (· ^^^ ·) bs ts) : as = bs := by
  induction ts generalizing as bs with
  | nil => rw [List.length_eq_zero_iff.1 ha, List.length_eq_zero_iff.1 hb]
  | cons t ts ih =>
    obtain _ | ⟨a, as⟩ := as
    · simp at ha
    obtain _ | ⟨b, bs⟩ := bs
    · simp at hb
    simp only [List.zipWith_cons_cons, List.cons.injEq, UInt8.xor_left_inj] at h
    simp only [List.length_cons, Nat.add_right_cancel_iff] at ha hb
    rw [h.1, ih ha hb h.2]

/-- Two IDs are as far from a target only if they are the same ID. -/
theorem xorDist_inj {target a b : ID} : xorDist target a = xorDist target b ↔ a = b := by
  refine ⟨fun h => ?_, fun h => h ▸ rfl⟩
  have hlen : (List.zipWith (· ^^^ ·) a.toList target.toList).length =
      (List.zipWith (· ^^^ ·) b.toList target.toList).length := by simp
  have hx := ofBytesBE_injective hlen h
  exact Vector.toList_inj.1 (zipWith_xor_cancel (by simp) (by simp) hx)

end Enode

namespace Discover

open Enode SortSearch

/-- `nodesByDistance`: a list of nodes, ordered by distance to `target`. -/
structure nodesByDistance where
  entries : List node
  target : Enode.ID

namespace nodesByDistance

/-- `nodesByDistance.push`: the node goes before the first entry farther
than it; when the list holds `maxElems`, the last entry drops out, or the node
does not go in. -/
def push (h : nodesByDistance) (n : node) (maxElems : Int) : nodesByDistance :=
  let ix := h.entries.findIdx fun e => decide (DistCmp h.target e.ID n.ID > 0)
  let entries := if (h.entries.length : Int) < maxElems then h.entries ++ [n] else h.entries
  if ix = entries.length then { h with entries := entries }
  else
    -- `copy(h.entries[ix+1:], h.entries[ix:])` copies as many entries as the
    -- shorter slice holds, giving up the last one; then `h.entries[ix] = n`
    { h with
      entries := (GoSlice.write entries (ix + 1) ((entries.drop ix).take (entries.length - (ix + 1)))).set ix n }

/-- A sequence of `push` calls with one bound. -/
def pushAll (h : nodesByDistance) (ns : List node) (maxElems : Int) : nodesByDistance :=
  ns.foldl (fun h n => h.push n maxElems) h

/-- The order of the list: distance to the target. -/
def key (target : Enode.ID) (n : node) : Nat := xorDist target n.ID

/-- The ordered insertion by distance to the target. -/
def insertByDistance (target : Enode.ID) (n : node) (l : List node) : List node :=
  l.orderedInsert (fun a b => key target a ≤ key target b) n

@[simp] theorem target_push (h : nodesByDistance) (n : node) (m : Int) :
    (h.push n m).target = h.target := by
  unfold push
  dsimp only
  split_ifs <;> rfl

theorem pushAll_append (h : nodesByDistance) (ns : List node) (n : node) (m : Int) :
    h.pushAll (ns ++ [n]) m = (h.pushAll ns m).push n m := by
  simp only [pushAll, List.foldl_append, List.foldl_cons, List.foldl_nil]

@[simp] theorem target_pushAll (h : nodesByDistance) (ns : List node) (m : Int) :
    (h.pushAll ns m).target = h.target := by
  induction ns using List.reverseRecOn with
  | nil => rfl
  | append_singleton ns n ih => rw [pushAll_append, target_push, ih]

/-- The search of `push` is the binary search for the first entry farther
than the node. -/
theorem findIdx_DistCmp (target : Enode.ID) (l : List node) (n : node) :
    (l.findIdx fun e => decide (DistCmp target e.ID n.ID > 0)) = upperBound (key target) l (key target n) := by
  unfold upperBound
  congr 1
  funext e
  exact decide_eq_decide.2 DistCmp_pos_iff

/-- One push onto the first `maxElems` of a list that holds no node of the
pushed ID leaves the first `maxElems` of the ordered insertion. -/
theorem push_entries {h : nodesByDistance} {n : node} {m : Int} {S : List node}
    (hfresh : ∀ b ∈ S, b.ID ≠ n.ID) (he : h.entries = S.take m.toNat) :
    (h.push n m).entries = (insertByDistance h.target n S).take m.toNat := by
  set L := S.take m.toNat with hL
  have hkey : ∀ b ∈ L, key h.target b ≠ key h.target n :=
    fun b hb hk => hfresh b (List.mem_of_mem_take hb) (xorDist_inj.1 hk)
  -- the search finds the lower bound of the node's distance in the prefix
  have hix : (L.findIdx fun e => decide (DistCmp h.target e.ID n.ID > 0)) =
      lowerBound (key h.target) L (key h.target n) := by
    rw [findIdx_DistCmp, upperBound_eq_lowerBound hkey]
  have hins := @insertIdx_lowerBound node Nat _ (key h.target) L n
  have hle := @lowerBound_le_length node Nat _ (key h.target) L (key h.target n)
  unfold push
  simp only [he, hix]
  by_cases hroom : (L.length : Int) < m
  · -- room left: the prefix is the whole list, and the node is inserted
    have hLS : L = S := List.take_of_length_le (by rw [List.length_take] at hroom; omega)
    have hne : lowerBound (key h.target) L (key h.target n) ≠ (L ++ [n]).length := by
      simp only [List.length_append, List.length_singleton]
      omega
    rw [if_pos hroom, if_neg hne, GoSlice.set_write_drop_append hle, hins, ← hLS]
    refine (List.take_of_length_le ?_).symm
    rw [(List.perm_orderedInsert _ n L).length_eq, List.length_cons]
    omega
  · -- the list is full: it keeps its length, the farthest entry giving way
    have hlen : L.length = m.toNat := by rw [List.length_take] at hroom ⊢; omega
    rw [if_neg hroom, insertByDistance, ← take_orderedInsert_take, ← hL, ← hins]
    by_cases hend : lowerBound (key h.target) L (key h.target n) = L.length
    · rw [if_pos hend, hend, List.insertIdx_length_self, ← hlen, List.take_left']
      rfl
    · rw [if_neg hend, GoSlice.set_write_drop (by omega), hlen]

/-- The entries are the first `maxElems` of the pushed nodes in the order of
their distance to the target. -/
def Closest (target : Enode.ID) (m : Int) (pushed entries : List node) : Prop :=
  ∃ S : List node, S.Perm pushed ∧ StrictlySorted (key target) S ∧ entries = S.take m.toNat

/-- Pushing nodes of distinct IDs onto an empty list keeps it the closest
`maxElems` of them. -/
theorem pushAll_closest (target : Enode.ID) (m : Int) (ns : List node) (hd : (ns.map (·.ID)).Nodup) :
    Closest target m ns (pushAll ⟨[], target⟩ ns m).entries := by
  induction ns using List.reverseRecOn with
  | nil => exact ⟨[], List.Perm.refl _, List.Pairwise.nil, by simp [pushAll]⟩
  | append_singleton ns n ih =>
    rw [List.map_append, List.nodup_append] at hd
    obtain ⟨hd, -, hnew⟩ := hd
    obtain ⟨S, hp, hs, he⟩ := ih hd
    have hfresh : ∀ b ∈ S, b.ID ≠ n.ID :=
      fun b hb => hnew b.ID (List.mem_map_of_mem (hp.subset hb)) n.ID (by simp)
    refine ⟨insertByDistance target n S, ?_, ?_, ?_⟩
    · exact (List.perm_orderedInsert _ n S).trans ((hp.cons n).trans (List.perm_append_singleton n ns).symm)
    · exact hs.orderedInsert fun b hb hk => hfresh b hb (xorDist_inj.1 hk)
    · have hpush := push_entries (m := m) hfresh he
      rw [target_pushAll] at hpush
      rw [pushAll_append, hpush]

/-- After pushes of nodes with distinct IDs, the list is ordered by
`DistCmp`, holds `maxElems` of them (all of them if fewer were pushed), and
holds the closest: a pushed node it does not hold is farther than every node
it holds. -/
theorem closest_nodes_kept (target : Enode.ID) (maxElems : Int) (ns : List node)
    (hdistinct : (ns.map (·.ID)).Nodup) :
    let entries := (pushAll ⟨[], target⟩ ns maxElems).entries
    entries.Pairwise (fun a b => DistCmp target a.ID b.ID < 0) ∧
    entries.length = min maxElems.toNat ns.length ∧
    (∀ x ∈ entries, x ∈ ns) ∧
    ∀ x ∈ entries, ∀ y ∈ ns, y ∉ entries → DistCmp target x.ID y.ID < 0 := by
  obtain ⟨S, hp, hs, he⟩ := pushAll_closest target maxElems ns hdistinct
  -- the kept nodes are a prefix of the order, the others its rest
  have hcross : ∀ x ∈ S.take maxElems.toNat, ∀ y ∈ S.drop maxElems.toNat, key target x < key target y := by
    have hs' := hs
    rw [StrictlySorted, ← List.take_append_drop maxElems.toNat S, List.pairwise_append] at hs'
    exact hs'.2.2
  dsimp only
  rw [he]
  refine ⟨?_, ?_, ?_, ?_⟩
  · exact (hs.sublist (List.take_sublist _ _)).imp DistCmp_neg_iff.2
  · rw [List.length_take, hp.length_eq]
  · intro x hx
    exact hp.subset (List.mem_of_mem_take hx)
  · intro x hx y hy hny
    have hyS : y ∈ S.take maxElems.toNat ++ S.drop maxElems.toNat := by
      rw [List.take_append_drop]
      exact hp.symm.subset hy
    exact DistCmp_neg_iff.2 (hcross x hx y ((List.mem_append.1 hyS).resolve_left hny))

example :
    ((pushAll ⟨[], Vector.replicate 32 0⟩ [⟨idOf 3, []⟩, ⟨idOf 1, []⟩, ⟨idOf 2, []⟩] 2).entries.map
      (·.ID)) = [idOf 1, idOf 2] := by
  decide

theorem closest_nodes_kept_on_three_nodes :
    let ns : List node := [⟨idOf 3, []⟩, ⟨idOf 1, []⟩, ⟨idOf 2, []⟩]
    (ns.map (·.ID)).Nodup ∧
      let entries := (pushAll ⟨[], Vector.replicate 32 0⟩ ns 2).entries
      entries.Pairwise (fun a b => DistCmp (Vector.replicate 32 0) a.ID b.ID < 0) ∧
      entries.length = min (2 : Int).toNat ns.length ∧
      (∀ x ∈ entries, x ∈ ns) ∧
      ∀ x ∈ entries, ∀ y ∈ ns, y ∉ entries → DistCmp (Vector.replicate 32 0) x.ID y.ID < 0 :=
  ⟨by decide, closest_nodes_kept _ _ _ (by decide)⟩

end nodesByDistance

end Discover

end Btp
