import Mathlib

/-!
# Addresses and per-network counters

`net.IP` (its IPv4 form `To4`, `IsLoopback` and `IPNet.Contains`), `netutil.IsLAN`
and `netutil.DistinctNetSet` of `p2p/netutil/net.go`. An IP is the byte slice
Go keeps, 4 or 16 bytes. A `DistinctNetSet` counts the addresses it holds per
network prefix; its map is a function that is `0` where Go has no key.
-/

namespace Btp.Netutil

/-- `net.IP`. -/
abbrev IP := List UInt8

/-- `net.IP.To4`: the address itself when it has 4 bytes, its last 4 bytes
when it is an IPv4-mapped IPv6 address. -/
def To4 (ip : IP) : Option IP :=
  if ip.length = 4 then some ip
  else if ip.length = 16 ∧ (ip.take 10).all (· = 0) ∧ ip.getD 10 0 = 0xff ∧ ip.getD 11 0 = 0xff
  then some (ip.drop 12)
  else none

/-- `v4InV6Prefix`, the first 12 bytes of an IPv4-mapped IPv6 address. -/
def v4InV6Prefix : List UInt8 := List.replicate 10 0 ++ [0xff, 0xff]

/-- `net.IP.Equal`: the same address, an IPv4 address being equal to its
IPv6-mapped form. -/
def Equal (ip x : IP) : Bool :=
  if ip.length = x.length then ip = x
  else if ip.length = 4 ∧ x.length = 16 then x.take 12 = v4InV6Prefix ∧ ip = x.drop 12
  else if ip.length = 16 ∧ x.length = 4 then ip.take 12 = v4InV6Prefix ∧ ip.drop 12 = x
  else false

/-- `net.IPv6loopback`, `::1`. -/
def IPv6loopback : IP := List.replicate 15 0 ++ [1]

/-- `net.IP.IsLoopback`. -/
def IsLoopback (ip : IP) : Bool :=
  match To4 ip with
  | some ip4 => ip4.getD 0 0 = 127
  | none => Equal ip IPv6loopback

/-- `net.IPNet`, with the network number and the mask `ParseCIDR` gives. -/
structure IPNet where
  IP : List UInt8
  Mask : List UInt8

/-- `net.IPNet.Contains`: the address has the network's length (after `To4`)
and agrees with it under the mask. -/
def IPNet.Contains (n : IPNet) (ip : List UInt8) : Bool :=
  let ip := (To4 ip).getD ip
  ip.length = n.IP.length &&
    (List.range ip.length).all fun i =>
      n.IP.getD i 0 &&& n.Mask.getD i 0 = ip.getD i 0 &&& n.Mask.getD i 0

/-- `Netlist.Contains`. -/
def Contains (l : List IPNet) (ip : IP) : Bool := l.any (·.Contains ip)

/-- `lan4`: `0.0.0.0/8`, `10.0.0.0/8`, `172.16.0.0/12`, `192.168.0.0/16`. -/
def lan4 : List IPNet :=
  [⟨[0, 0, 0, 0], [255, 0, 0, 0]⟩, ⟨[10, 0, 0, 0], [255, 0, 0, 0]⟩,
    ⟨[172, 16, 0, 0], [255, 240, 0, 0]⟩, ⟨[192, 168, 0, 0], [255, 255, 0, 0]⟩]

/-- `lan6`: `fe80::/10` and `fc00::/7`. -/
def lan6 : List IPNet :=
  [⟨[0xfe, 0x80] ++ List.replicate 14 0, [0xff, 0xc0] ++ List.replicate 14 0⟩,
    ⟨[0xfc] ++ List.replicate 15 0, [0xfe] ++ List.replicate 15 0⟩]

/-- `IsLAN`. -/
def IsLAN (ip : IP) : Bool :=
  if IsLoopback ip then true
  else match To4 ip with
    | some v4 => Contains lan4 v4
    | none => Contains lan6 ip

/-- `DistinctNetSet`: at most `Limit` addresses per network of `Subnet` bits. -/
structure DistinctNetSet where
  Subnet : Nat
  Limit : Nat
  members : List UInt8 → Nat

namespace DistinctNetSet

/-- `DistinctNetSet.key`: the address type, then the prefix of `Subnet` bits. -/
def key (s : DistinctNetSet) (ip : IP) : List UInt8 :=
  let (typ, ip) := match To4 ip with
    | some ip4 => ((52 : UInt8), ip4)
    | none => ((54 : UInt8), ip)
  let bits := min s.Subnet (ip.length * 8)
  let nb := bits / 8
  let mask : UInt8 := ~~~((0xFF : UInt8) >>> (bits % 8).toUInt8)
  let buf := typ :: ip.take nb
  if nb < ip.length ∧ mask ≠ 0 then buf ++ [ip.getD nb 0 &&& mask] else buf

/-- `DistinctNetSet.Add`: whether the address fits under the limit of its
network, and the set after. -/
def Add (s : DistinctNetSet) (ip : IP) : Bool × DistinctNetSet :=
  if s.members (s.key ip) < s.Limit then
    (true, { s with members := Function.update s.members (s.key ip) (s.members (s.key ip) + 1) })
  else (false, s)

/-- `DistinctNetSet.Remove`: one address fewer in its network, none when the
network holds none. -/
def Remove (s : DistinctNetSet) (ip : IP) : DistinctNetSet :=
  { s with members := Function.update s.members (s.key ip) (s.members (s.key ip) - 1) }

/-- A set with no address, as a `DistinctNetSet` literal leaves it. -/
def empty (Subnet Limit : Nat) : DistinctNetSet := ⟨Subnet, Limit, fun _ => 0⟩

@[simp] theorem key_Add (s : DistinctNetSet) (ip ip' : IP) : (s.Add ip).2.key ip' = s.key ip' := by
  unfold Add
  split_ifs <;> rfl

@[simp] theorem key_Remove (s : DistinctNetSet) (ip ip' : IP) : (s.Remove ip).key ip' = s.key ip' :=
  rfl

@[simp] theorem Limit_Add (s : DistinctNetSet) (ip : IP) : (s.Add ip).2.Limit = s.Limit := by
  unfold Add
  split_ifs <;> rfl

theorem members_Add (s : DistinctNetSet) (ip : IP) (k : List UInt8) :
    (s.Add ip).2.members k =
      if (s.Add ip).1 ∧ k = s.key ip then s.members k + 1 else s.members k := by
  by_cases hlt : s.members (s.key ip) < s.Limit
  · by_cases hk : k = s.key ip
    · subst hk
      simp [Add, hlt]
    · simp [Add, hlt, hk]
  · simp [Add, hlt]

theorem members_Remove (s : DistinctNetSet) (ip : IP) (k : List UInt8) :
    (s.Remove ip).members k = if k = s.key ip then s.members k - 1 else s.members k := by
  by_cases hk : k = s.key ip <;> simp [Remove, hk]

/-- An address that is refused leaves the set as it was. -/
theorem Add_of_not (s : DistinctNetSet) (ip : IP) (h : (s.Add ip).1 = false) : (s.Add ip).2 = s := by
  by_cases hlt : s.members (s.key ip) < s.Limit
  · simp [Add, hlt] at h
  · simp [Add, hlt]

/-- Adding never takes a network over the limit. -/
theorem members_Add_le (s : DistinctNetSet) (ip : IP) (k : List UInt8)
    (h : s.members k ≤ s.Limit) : (s.Add ip).2.members k ≤ s.Limit := by
  rw [members_Add]
  split_ifs with hk
  · obtain ⟨hadd, rfl⟩ := hk
    by_cases hlt : s.members (s.key ip) < s.Limit
    · omega
    · simp [Add, hlt] at hadd
  · exact h

end DistinctNetSet

end Btp.Netutil
