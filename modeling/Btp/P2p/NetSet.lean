import Mathlib
import Btp.Common.Types
import Btp.Lib.MapSum
import Btp.Lib.WordCast
import Btp.P2p.Netutil

/-!
# `SameNet`, and `DistinctNetSet` with Go's map

`SameNet` of `p2p/netutil/net.go`, and `DistinctNetSet` as Go keeps it: a
map from keys to counts, where a key is present or absent, and `Len`, which
sums the map. `Netutil.DistinctNetSet`, on which the discovery table works,
is its counting view, with `0` for an absent key; each call here refines the
call there (`toCounts_Add`, `toCounts_Remove`).

Over calls of `Add` and `Remove`, where `Remove` takes only an address that
`Add` accepted and that is not removed yet, the map at a key is the number of
those addresses with that key (`Counts`). Two addresses of one family have
one key exactly when `SameNet` puts them in one network of the set's prefix
length (`key_eq_iff`).
-/

namespace Btp.Netutil

open MapSum

/-- `net.IP.To16`: an IPv4 address in its IPv4-mapped form, a 16-byte
address as it is, `nil` otherwise. -/
def To16 (ip : IP) : IP :=
  if ip.length = 4 then v4InV6Prefix ++ ip
  else if ip.length = 16 then ip
  else []

/-- `sameNet`; `none` where an index or a slice expression of Go panics. -/
def sameNet (bits : Nat) (ip other : IP) : Option Bool :=
  let nb := bits / 8
  let mask : UInt8 := ~~~((0xFF : UInt8) >>> (bits % 8).toUInt8)
  -- `ip[nb]&mask != other[nb]&mask`, evaluated only when the first two
  -- conditions hold
  let differs : Option Bool :=
    if mask ≠ 0 ∧ nb < ip.length then other[nb]?.map fun o => ip.getD nb 0 &&& mask != o &&& mask
    else some false
  differs.bind fun d =>
    if d then some false
    else if nb ≤ ip.length then
      -- `other[:nb]` panics past the end of `other`
      if nb ≤ other.length then some (ip.take nb == other.take nb) else none
    else some false

/-- `SameNet`: whether two addresses of one family agree on their first
`bits` bits. -/
def SameNet (bits : Nat) (ip other : IP) : Option Bool :=
  match To4 ip, To4 other with
  | some ip4, some other4 => sameNet bits ip4 other4
  | none, none => sameNet bits (To16 ip) (To16 other)
  | _, _ => some false

/-- The part of `DistinctNetSet.key` after the family byte: the first `bits`
bits of the address, the last partial byte masked. -/
def prefixKey (bits : Nat) (ip : IP) : List UInt8 :=
  let nb := bits / 8
  let mask : UInt8 := ~~~((0xFF : UInt8) >>> (bits % 8).toUInt8)
  if nb < ip.length ∧ mask ≠ 0 then ip.take nb ++ [ip.getD nb 0 &&& mask] else ip.take nb

theorem To4_length {ip ip4 : IP} (h : To4 ip = some ip4) : ip4.length = 4 := by
  unfold To4 at h
  split_ifs at h with h4 h16
  · rw [← Option.some.inj h, h4]
  · rw [← Option.some.inj h, List.length_drop, h16.1]

theorem To4_of_length_four {ip : IP} (h : ip.length = 4) : To4 ip = some ip := by
  simp [To4, h]

theorem To16_of_length_sixteen {ip : IP} (h : ip.length = 16) : To16 ip = ip := by
  simp [To16, h]

/-- On addresses of one length, a prefix of at most their bits is one key
exactly when `sameNet` says so. -/
theorem prefixKey_eq_iff {bits : Nat} {x y : IP} (hl : x.length = y.length) (hb : bits ≤ x.length * 8) :
    prefixKey bits x = prefixKey bits y ↔ sameNet bits x y = some true := by
  have hnb : bits / 8 ≤ x.length := by omega
  have htake : (x.take (bits / 8)).length = (y.take (bits / 8)).length := by simp [hl]
  unfold prefixKey sameNet
  dsimp only
  set nb := bits / 8
  set mask : UInt8 := ~~~((0xFF : UInt8) >>> (bits % 8).toUInt8)
  by_cases hc : nb < x.length ∧ mask ≠ 0
  · -- a partial byte: the whole bytes and the masked byte must agree
    have hy : y[nb]? = some (y.getD nb 0) := by
      rw [List.getD_eq_getElem?_getD, List.getElem?_eq_getElem (by omega)]
      rfl
    rw [if_pos hc, if_pos (hl ▸ hc), if_pos ⟨hc.2, hc.1⟩, hy, Option.map_some, Option.bind_some]
    generalize x.getD nb 0 &&& mask = u
    generalize y.getD nb 0 &&& mask = v
    by_cases hm : u = v
    · subst hm
      simp [hnb, hl ▸ hnb]
    · have hne : x.take nb ++ [u] ≠ y.take nb ++ [v] :=
        fun h => hm (by simpa using (List.append_inj h htake).2)
      simp [hm, hne]
  · -- whole bytes only
    have hc' : ¬ (mask ≠ 0 ∧ nb < x.length) := fun h => hc ⟨h.2, h.1⟩
    rw [if_neg hc, if_neg (hl ▸ hc), if_neg hc']
    simp [hnb, hl ▸ hnb]

namespace Map

/-- `DistinctNetSet`, with the `members` map that Go keeps. -/
structure DistinctNetSet where
  Subnet : Nat
  Limit : Nat
  members : GoMap (List UInt8) Nat

namespace DistinctNetSet

/-- The counts the set keeps, `0` for a key the map lacks. -/
def toCounts (s : DistinctNetSet) : Netutil.DistinctNetSet :=
  ⟨s.Subnet, s.Limit, fun k => (s.members.lookup k).getD 0⟩

/-- `DistinctNetSet.key`, which reads only `Subnet`. -/
def key (s : DistinctNetSet) (ip : IP) : List UInt8 := s.toCounts.key ip

/-- `DistinctNetSet.Add`. -/
def Add (s : DistinctNetSet) (ip : IP) : Bool × DistinctNetSet :=
  let key := s.key ip
  let n := (s.members.lookup key).getD 0
  if n < s.Limit then (true, { s with members := s.members.insert key (n + 1) })
  else (false, s)

/-- `DistinctNetSet.Remove`. -/
def Remove (s : DistinctNetSet) (ip : IP) : DistinctNetSet :=
  let key := s.key ip
  match s.members.lookup key with
  | some n =>
    if n = 1 then { s with members := s.members.erase key }
    else { s with members := s.members.insert key (n - 1) }
  | none => s

/-- `DistinctNetSet.Contains`. -/
def Contains (s : DistinctNetSet) (ip : IP) : Bool := (s.members.lookup (s.key ip)).isSome

/-- `DistinctNetSet.Len`: the `uint` sum of the counts, as an `int`. -/
def Len (s : DistinctNetSet) : Int :=
  let n : UInt64 := s.members.entries.foldl (fun n e => n + e.2.toUInt64) 0
  n.toInt64.toInt

/-- A set with no address. -/
def empty (Subnet Limit : Nat) : DistinctNetSet := ⟨Subnet, Limit, ∅⟩

theorem key_eq_of_Subnet {s t : DistinctNetSet} (h : s.Subnet = t.Subnet) : s.key = t.key := by
  obtain ⟨S, L, m⟩ := s
  obtain ⟨S', L', m'⟩ := t
  cases h
  rfl

@[simp] theorem Subnet_Add (s : DistinctNetSet) (ip : IP) : (s.Add ip).2.Subnet = s.Subnet := by
  unfold Add
  dsimp only
  split_ifs <;> rfl

@[simp] theorem Limit_Add (s : DistinctNetSet) (ip : IP) : (s.Add ip).2.Limit = s.Limit := by
  unfold Add
  dsimp only
  split_ifs <;> rfl

@[simp] theorem Subnet_Remove (s : DistinctNetSet) (ip : IP) : (s.Remove ip).Subnet = s.Subnet := by
  unfold Remove
  dsimp only
  cases s.members.lookup (s.key ip) with
  | none => rfl
  | some n =>
    dsimp only
    split_ifs <;> rfl

@[simp] theorem Limit_Remove (s : DistinctNetSet) (ip : IP) : (s.Remove ip).Limit = s.Limit := by
  unfold Remove
  dsimp only
  cases s.members.lookup (s.key ip) with
  | none => rfl
  | some n =>
    dsimp only
    split_ifs <;> rfl

@[simp] theorem key_Add (s : DistinctNetSet) (ip : IP) : (s.Add ip).2.key = s.key :=
  key_eq_of_Subnet (Subnet_Add s ip)

@[simp] theorem key_Remove (s : DistinctNetSet) (ip : IP) : (s.Remove ip).key = s.key :=
  key_eq_of_Subnet (Subnet_Remove s ip)

/-- The key of an IPv4 address (also IPv4-mapped): `'4'`, then the prefix
of its 32 bits. -/
theorem key_of_To4 (s : DistinctNetSet) {ip ip4 : IP} (h : To4 ip = some ip4) :
    s.key ip = 52 :: prefixKey (min s.Subnet 32) ip4 := by
  simp only [key, toCounts, Netutil.DistinctNetSet.key, h, To4_length h, Nat.reduceMul, prefixKey]
  split_ifs <;> rfl

/-- The key of an IPv6 address: `'6'`, then the prefix of its bits. -/
theorem key_of_To4_none (s : DistinctNetSet) {ip : IP} (h : To4 ip = none) :
    s.key ip = 54 :: prefixKey (min s.Subnet (ip.length * 8)) ip := by
  simp only [key, toCounts, Netutil.DistinctNetSet.key, h, prefixKey]
  split_ifs <;> rfl

/-- Addresses of the set's families have one key exactly when they are of
one family and `SameNet` puts them in one network of the set's prefix
length, cut to the bits of the family. -/
theorem key_eq_iff (s : DistinctNetSet) {a b : IP} (ha : a.length = 4 ∨ a.length = 16)
    (hb : b.length = 4 ∨ b.length = 16) :
    s.key a = s.key b ↔ (To4 a).isSome = (To4 b).isSome ∧
      SameNet (min s.Subnet (if (To4 a).isSome then 32 else 128)) a b = some true := by
  -- an address without an IPv4 form has 16 bytes and is its own `To16`
  have h16 : ∀ {ip : IP}, (ip.length = 4 ∨ ip.length = 16) → To4 ip = none → ip.length = 16 := by
    intro ip hl hn
    rcases hl with h4 | h16
    · rw [To4_of_length_four h4] at hn
      cases hn
    · exact h16
  cases ha4 : To4 a with
  | some a4 =>
    cases hb4 : To4 b with
    | some b4 =>
      have hla := To4_length ha4
      have hlb := To4_length hb4
      rw [key_of_To4 s ha4, key_of_To4 s hb4, List.cons.injEq,
        prefixKey_eq_iff (hla.trans hlb.symm) (by omega)]
      simp [SameNet, ha4, hb4]
    | none =>
      rw [key_of_To4 s ha4, key_of_To4_none s hb4]
      simp
  | none =>
    have hla := h16 ha ha4
    cases hb4 : To4 b with
    | some b4 =>
      rw [key_of_To4_none s ha4, key_of_To4 s hb4]
      simp
    | none =>
      have hlb := h16 hb hb4
      rw [key_of_To4_none s ha4, key_of_To4_none s hb4, hla, hlb, List.cons.injEq,
        prefixKey_eq_iff (hla.trans hlb.symm) (by omega)]
      simp [SameNet, ha4, hb4, To16_of_length_sixteen hla, To16_of_length_sixteen hlb]

@[simp] theorem key_with_members (s : DistinctNetSet) (m : GoMap (List UInt8) Nat) :
    ({ s with members := m } : DistinctNetSet).key = s.key :=
  key_eq_of_Subnet rfl

theorem Add_of_lt {s : DistinctNetSet} {ip : IP} (h : (s.members.lookup (s.key ip)).getD 0 < s.Limit) :
    s.Add ip =
      (true, { s with members := s.members.insert (s.key ip) ((s.members.lookup (s.key ip)).getD 0 + 1) }) := by
  unfold Add
  exact if_pos h

theorem Add_of_not_lt {s : DistinctNetSet} {ip : IP} (h : ¬ (s.members.lookup (s.key ip)).getD 0 < s.Limit) :
    s.Add ip = (false, s) := by
  unfold Add
  exact if_neg h

theorem Remove_of_lookup {s : DistinctNetSet} {ip : IP} {n : Nat} (h : s.members.lookup (s.key ip) = some n) :
    s.Remove ip =
      if n = 1 then { s with members := s.members.erase (s.key ip) }
      else { s with members := s.members.insert (s.key ip) (n - 1) } := by
  unfold Remove
  dsimp only
  rw [h]

theorem Remove_of_lookup_none {s : DistinctNetSet} {ip : IP} (h : s.members.lookup (s.key ip) = none) :
    s.Remove ip = s := by
  unfold Remove
  dsimp only
  rw [h]

/-! ## The counting view -/

theorem toCounts_key (s : DistinctNetSet) : s.toCounts.key = s.key := rfl

theorem toCounts_members (s : DistinctNetSet) (k : List UInt8) :
    s.toCounts.members k = (s.members.lookup k).getD 0 := rfl

/-- `Add` on the map is `Add` on its counts. -/
theorem toCounts_Add (s : DistinctNetSet) (ip : IP) :
    ((s.Add ip).1, (s.Add ip).2.toCounts) = s.toCounts.Add ip := by
  unfold Netutil.DistinctNetSet.Add
  rw [toCounts_key]
  by_cases hlt : (s.members.lookup (s.key ip)).getD 0 < s.Limit
  · rw [Add_of_lt hlt, if_pos (show s.toCounts.members (s.key ip) < s.toCounts.Limit from hlt)]
    simp only [Prod.mk.injEq, true_and]
    unfold toCounts
    congr 1
    funext k
    by_cases hk : k = s.key ip
    · subst hk
      rw [AList.lookup_insert, Function.update_self]
      rfl
    · rw [AList.lookup_insert_ne hk, Function.update_of_ne hk]
  · rw [Add_of_not_lt hlt, if_neg (show ¬ s.toCounts.members (s.key ip) < s.toCounts.Limit from hlt)]

/-- `Remove` on the map is `Remove` on its counts: an absent key counts `0`,
which `Remove` of the counts leaves at `0`. -/
theorem toCounts_Remove (s : DistinctNetSet) (ip : IP) : (s.Remove ip).toCounts = s.toCounts.Remove ip := by
  unfold Netutil.DistinctNetSet.Remove
  rw [toCounts_key, toCounts_members]
  cases hl : s.members.lookup (s.key ip) with
  | none =>
    rw [Remove_of_lookup_none hl, Option.getD_none, Nat.zero_sub]
    have h0 : s.toCounts.members (s.key ip) = 0 := by rw [toCounts_members, hl, Option.getD_none]
    rw [← h0, Function.update_eq_self]
  | some n =>
    rw [Remove_of_lookup hl, Option.getD_some]
    -- the map drops the key at `1` and writes `n - 1` otherwise: `n - 1` either way
    split_ifs with h1
    all_goals
      unfold toCounts
      congr 1
      funext k
      by_cases hk : k = s.key ip
    · subst hk
      rw [AList.lookup_erase, Function.update_self, h1]
      rfl
    · rw [AList.lookup_erase_ne hk, Function.update_of_ne hk]
    · subst hk
      rw [AList.lookup_insert, Function.update_self]
      rfl
    · rw [AList.lookup_insert_ne hk, Function.update_of_ne hk]

/-! ## Runs of calls -/

/-- The number of live addresses with the key `k`. -/
def liveCount (key : IP → List UInt8) (live : List IP) (k : List UInt8) : Nat :=
  live.countP fun ip => key ip = k

@[simp] theorem liveCount_nil (key : IP → List UInt8) (k : List UInt8) : liveCount key [] k = 0 := rfl

theorem liveCount_cons (key : IP → List UInt8) (ip : IP) (live : List IP) (k : List UInt8) :
    liveCount key (ip :: live) k = liveCount key live k + if key ip = k then 1 else 0 := by
  simp [liveCount, List.countP_cons]

theorem liveCount_erase (key : IP → List UInt8) {ip : IP} {live : List IP} (h : ip ∈ live) (k : List UInt8) :
    liveCount key (live.erase ip) k = liveCount key live k - if key ip = k then 1 else 0 := by
  simp [liveCount, List.countP_erase, h]

theorem liveCount_pos (key : IP → List UInt8) {ip : IP} {live : List IP} (h : ip ∈ live) :
    0 < liveCount key live (key ip) :=
  List.countP_pos_iff.2 ⟨ip, h, by simp⟩

/-- The sets a sequence of calls reaches from an empty one, with the
addresses `Add` accepted that are not removed yet (an address accepted twice
is there twice). `Remove` is called only on such an address. -/
inductive Reach : DistinctNetSet → List IP → Prop
  | empty (Subnet Limit : Nat) : Reach (empty Subnet Limit) []
  | add {s : DistinctNetSet} {live : List IP} (ip : IP) :
      Reach s live → Reach (s.Add ip).2 (if (s.Add ip).1 then ip :: live else live)
  | remove {s : DistinctNetSet} {live : List IP} (ip : IP) :
      Reach s live → ip ∈ live → Reach (s.Remove ip) (live.erase ip)

/-- What a reached set keeps: the map holds, at each key, the number of
live addresses of that key, and lacks the key when there is none; no key
counts more than `Limit`; the counts add up to the live addresses. -/
structure Counts (s : DistinctNetSet) (live : List IP) : Prop where
  lookup_eq : ∀ k, s.members.lookup k =
    if liveCount s.key live k = 0 then none else some (liveCount s.key live k)
  le_Limit : ∀ k, liveCount s.key live k ≤ s.Limit
  valueSum_eq : valueSum s.members = live.length

section Counts

variable {s : DistinctNetSet} {live : List IP}

theorem Counts.getD_lookup (hc : Counts s live) (k : List UInt8) :
    (s.members.lookup k).getD 0 = liveCount s.key live k := by
  rw [hc.lookup_eq]
  split_ifs with h
  · rw [h]
    rfl
  · rfl

/-- `Add` accepts exactly while fewer than `Limit` live addresses share the
key. -/
theorem Counts.Add_fst (hc : Counts s live) (ip : IP) :
    (s.Add ip).1 = true ↔ liveCount s.key live (s.key ip) < s.Limit := by
  by_cases hlt : liveCount s.key live (s.key ip) < s.Limit
  · rw [Add_of_lt (by rwa [hc.getD_lookup])]
    simp [hlt]
  · rw [Add_of_not_lt (by rwa [hc.getD_lookup])]
    simp [hlt]

theorem Counts.add (hc : Counts s live) (ip : IP) :
    Counts (s.Add ip).2 (if (s.Add ip).1 then ip :: live else live) := by
  by_cases hlt : liveCount s.key live (s.key ip) < s.Limit
  · -- accepted: the count of the address's key goes up by one
    rw [Add_of_lt (by rwa [hc.getD_lookup]), hc.getD_lookup, if_pos rfl]
    dsimp only
    refine ⟨fun k => ?_, fun k => ?_, ?_⟩
    · simp only [key_with_members, liveCount_cons]
      by_cases hk : k = s.key ip
      · subst hk
        simp [AList.lookup_insert]
      · rw [AList.lookup_insert_ne hk, hc.lookup_eq k, if_neg (Ne.symm hk), Nat.add_zero]
    · simp only [key_with_members, liveCount_cons]
      by_cases hk : k = s.key ip
      · subst hk
        simp only [if_pos]
        exact hlt
      · rw [if_neg (Ne.symm hk), Nat.add_zero]
        exact hc.le_Limit k
    · have hsum := valueSum_eq_lookup_add_erase s.members (s.key ip)
      rw [hc.getD_lookup, hc.valueSum_eq] at hsum
      rw [valueSum_insert, List.length_cons]
      omega
  · rw [Add_of_not_lt (by rwa [hc.getD_lookup]), if_neg Bool.false_ne_true]
    exact hc

theorem Counts.remove (hc : Counts s live) {ip : IP} (hip : ip ∈ live) :
    Counts (s.Remove ip) (live.erase ip) := by
  have hpos := liveCount_pos s.key hip
  have hlook : s.members.lookup (s.key ip) = some (liveCount s.key live (s.key ip)) := by
    rw [hc.lookup_eq, if_neg (Nat.pos_iff_ne_zero.1 hpos)]
  have hsum := valueSum_eq_lookup_add_erase s.members (s.key ip)
  rw [hc.getD_lookup, hc.valueSum_eq] at hsum
  have hlen := List.length_erase_of_mem hip
  rw [Remove_of_lookup hlook]
  -- the count of the address's key goes down by one; the map drops the key at `0`
  split_ifs with h1
  · refine ⟨fun k => ?_, fun k => ?_, ?_⟩
    · simp only [key_with_members, liveCount_erase _ hip]
      by_cases hk : k = s.key ip
      · subst hk
        simp [AList.lookup_erase, h1]
      · rw [AList.lookup_erase_ne hk, hc.lookup_eq k, if_neg (Ne.symm hk), Nat.sub_zero]
    · simp only [key_with_members, liveCount_erase _ hip]
      exact (Nat.sub_le _ _).trans (hc.le_Limit k)
    · dsimp only
      rw [hlen]
      omega
  · refine ⟨fun k => ?_, fun k => ?_, ?_⟩
    · simp only [key_with_members, liveCount_erase _ hip]
      by_cases hk : k = s.key ip
      · subst hk
        have hne : liveCount s.key live (s.key ip) - 1 ≠ 0 := by omega
        simp [AList.lookup_insert, hne]
      · rw [AList.lookup_insert_ne hk, hc.lookup_eq k, if_neg (Ne.symm hk), Nat.sub_zero]
    · simp only [key_with_members, liveCount_erase _ hip]
      exact (Nat.sub_le _ _).trans (hc.le_Limit k)
    · dsimp only
      rw [valueSum_insert, hlen]
      omega

end Counts

/-- Every reached set keeps its counts. -/
theorem Reach.counts {s : DistinctNetSet} {live : List IP} (h : Reach s live) : Counts s live := by
  induction h with
  | empty Subnet Limit =>
    refine ⟨fun k => ?_, fun k => ?_, ?_⟩
    · simp [DistinctNetSet.empty]
    · simp
    · rfl
  | add ip _ ih => exact ih.add ip
  | remove ip _ hip ih => exact ih.remove hip

/-- `Len` is the sum of the counts as Go's `int` holds it. -/
theorem Len_eq (s : DistinctNetSet) : s.Len = (valueSum s.members).toUInt64.toInt64.toInt := by
  -- the loop adds the counts modulo `2^64`
  have hloop : ∀ (l : List (Sigma fun _ : List UInt8 => Nat)) (acc : UInt64),
      (l.foldl (fun n e => n + e.2.toUInt64) acc).toNat = (acc.toNat + (l.map (·.2)).sum) % 2 ^ 64 := by
    intro l
    induction l with
    | nil =>
      intro acc
      simp [Nat.mod_eq_of_lt acc.toNat_lt]
    | cons e l ih =>
      intro acc
      rw [List.foldl_cons, ih, UInt64.toNat_add, Nat.toUInt64, UInt64.toNat_ofNat', List.map_cons,
        List.sum_cons]
      omega
  unfold Len
  dsimp only
  congr 2
  apply UInt64.toNat_inj.1
  rw [hloop, Nat.toUInt64, UInt64.toNat_ofNat', UInt64.toNat_zero, Nat.zero_add]
  rfl

/-- Over every run of `Add` and `Remove` calls from an empty set: two
addresses of the set's families share a key exactly when they are of one
family and `SameNet` puts them in one network of the set's prefix length; the
map at a key is the number of live addresses of that key and lacks the key at
`0`; `Add` accepts exactly while fewer than `Limit` of them share the
address's key, so no key counts more; `Len` is the number of live addresses
while that number is below `2^63`; `Contains` holds exactly when the key
counts an address. -/
theorem distinct_net_set_counts :
    (∀ (s : DistinctNetSet) (a b : IP), (a.length = 4 ∨ a.length = 16) → (b.length = 4 ∨ b.length = 16) →
      (s.key a = s.key b ↔ (To4 a).isSome = (To4 b).isSome ∧
        SameNet (min s.Subnet (if (To4 a).isSome then 32 else 128)) a b = some true)) ∧
    ∀ (s : DistinctNetSet) (live : List IP), Reach s live →
      (∀ k, s.members.lookup k =
        if liveCount s.key live k = 0 then none else some (liveCount s.key live k)) ∧
      (∀ ip, (s.Add ip).1 = true ↔ liveCount s.key live (s.key ip) < s.Limit) ∧
      (∀ k, liveCount s.key live k ≤ s.Limit) ∧
      (live.length < 2 ^ 63 → s.Len = live.length) ∧
      (∀ ip, s.Contains ip = true ↔ 0 < liveCount s.key live (s.key ip)) := by
  refine ⟨fun s a b ha hb => key_eq_iff s ha hb, fun s live hr => ?_⟩
  have hc := hr.counts
  refine ⟨hc.lookup_eq, hc.Add_fst, hc.le_Limit, fun hlen => ?_, fun ip => ?_⟩
  · rw [Len_eq, hc.valueSum_eq, WordCast.toInt_toInt64_toUInt64 hlen]
  · rw [Contains, hc.lookup_eq]
    split_ifs with h <;> simp [h, Nat.pos_iff_ne_zero]

theorem distinct_net_set_counts_on_one_add :
    let s := ((empty 24 2).Add [10, 0, 0, 1]).2
    s.key [10, 0, 0, 1] = s.key [10, 0, 0, 2] ∧ (s.Add [10, 0, 0, 2]).1 = true ∧
      s.Contains [10, 0, 0, 2] = true ∧ s.Len = 1 := by
  intro s
  have hr : Reach s [[10, 0, 0, 1]] := by
    have h := Reach.add [10, 0, 0, 1] (Reach.empty 24 2)
    rwa [if_pos (by decide)] at h
  obtain ⟨hkey, hrun⟩ := distinct_net_set_counts
  obtain ⟨-, hadd, -, hlen, hcont⟩ := hrun s _ hr
  exact ⟨(hkey s _ _ (by decide) (by decide)).2 (by decide), (hadd _).2 (by decide),
    (hcont _).2 (by decide), hlen (by decide)⟩

end DistinctNetSet

end Map

end Btp.Netutil
