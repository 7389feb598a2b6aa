import Mathlib
import Btp.P2p.Discover.NodesByDistance

/-!
# The shape of the discovery table

What every run of the table's events keeps from `newTable` on
(`p2p/discover/table.go`): a node of bucket `b` has `Table.bucket` `b` and is
not the local node; no ID is held twice in a bucket, entries and
replacements together, and so none twice in the table; a bucket holds at
most `bucketSize` entries and `maxReplacements` replacements (`Shaped`,
`Shaped.run`).

Every operation changes the lists of one bucket, by one of four list
operations whose effect on `BucketShape` is proved once: a sublist is taken
(`of_sublist`), a fresh node joins the entries or the replacements
(`join_entries`, `join_replacements`), or an entry moves to the front
(`bump`). The address counters are no part of the shape (they miscount,
`addSeenNode_counts_promoted_replacement_twice`), with one exception:
`bumpInBucket` gives up on a known node whose new address does not fit, and
`addVerifiedNode` then goes on to add the same node. It is refused again
only because `addIP` never lowers a counter (`le_addIP`), so that a refusal
stands against every later table of the same call (`addIP_false_of_le`).

On a table of that shape, `getNode`, which searches one bucket, finds what a
search of the whole table finds, and `closest` returns the entries nearest
to its target.
-/

namespace Btp

namespace Netutil.DistinctNetSet

@[simp] theorem Subnet_Add (s : DistinctNetSet) (ip : IP) : (s.Add ip).2.Subnet = s.Subnet := by
  unfold Add
  split_ifs <;> rfl

/-- `t` has the networks and the limit of `s`, and counts at least as many
addresses in every network. -/
def Le (s t : DistinctNetSet) : Prop :=
  s.Subnet = t.Subnet ∧ s.Limit = t.Limit ∧ ∀ k, s.members k ≤ t.members k

theorem Le.refl (s : DistinctNetSet) : s.Le s := ⟨rfl, rfl, fun _ => le_rfl⟩

theorem Le.trans {s t u : DistinctNetSet} (h₁ : s.Le t) (h₂ : t.Le u) : s.Le u :=
  ⟨h₁.1.trans h₂.1, h₁.2.1.trans h₂.2.1, fun k => (h₁.2.2 k).trans (h₂.2.2 k)⟩

theorem Le.key_eq {s t : DistinctNetSet} (h : s.Le t) : s.key = t.key := by
  obtain ⟨Subnet, Limit, members⟩ := s
  obtain ⟨Subnet', Limit', members'⟩ := t
  obtain ⟨rfl, -, -⟩ := h
  rfl

/-- A refusal stands against every set that counts at least as much. -/
theorem Le.Add_false {s t : DistinctNetSet} (h : s.Le t) {ip : IP} (hs : (s.Add ip).1 = false) :
    (t.Add ip).1 = false := by
  have hfull : ¬ s.members (s.key ip) < s.Limit := by
    intro hlt
    simp [Add, hlt] at hs
  have hfull' : ¬ t.members (t.key ip) < t.Limit := by
    rw [← h.key_eq, ← h.2.1]
    exact fun hlt => hfull (lt_of_le_of_lt (h.2.2 _) hlt)
  simp [Add, hfull']

theorem le_Add (s : DistinctNetSet) (ip : IP) : s.Le (s.Add ip).2 := by
  refine ⟨(Subnet_Add s ip).symm, (Limit_Add s ip).symm, fun k => ?_⟩
  rw [members_Add]
  split_ifs <;> omega

/-- An address taken and given back leaves every count as it was. -/
theorem le_Remove_Add {s : DistinctNetSet} {ip : IP} (h : (s.Add ip).1 = true) :
    s.Le ((s.Add ip).2.Remove ip) := by
  refine ⟨(Subnet_Add s ip).symm, (Limit_Add s ip).symm, fun k => ?_⟩
  rw [members_Remove, key_Add, members_Add]
  by_cases hk : k = s.key ip
  · simp [hk, h]
  · simp [hk]

end Netutil.DistinctNetSet

namespace Discover

open Netutil Enode

theorem contains_eq_false {ns : List node} {id : Enode.ID} :
    contains ns id = false ↔ id ∉ ns.map (·.ID) := by
  simp [contains]

theorem map_deleteNode (l : List node) (n : node) :
    (deleteNode l n).map (·.ID) = (l.map (·.ID)).erase n.ID := by
  rw [List.erase_eq_eraseP, List.eraseP_map, deleteNode]
  congr 2
  funext x
  rw [Function.comp_apply, beq_eq_decide, decide_eq_decide]
  exact eq_comm

theorem deleteNode_sublist (l : List node) (n : node) : (deleteNode l n).Sublist l := List.eraseP_sublist

/-- `pushNode` puts the node before a sublist of the list. -/
theorem pushNode_perm (l : List node) (n : node) (max : Nat) :
    ∃ l', l'.Sublist l ∧ (pushNode l n max).1 = n :: l' := by
  unfold pushNode
  split_ifs
  · exact ⟨l, List.Sublist.refl l, rfl⟩
  · exact ⟨l.dropLast, List.dropLast_sublist l, rfl⟩

theorem length_pushNode_le {l : List node} {m : Nat} (hm : 0 < m) (h : l.length ≤ m) (n : node) :
    (pushNode l n m).1.length ≤ m := by
  unfold pushNode
  split_ifs with hlt
  · simp only [List.length_cons]
    omega
  · simp only [List.length_cons, List.length_dropLast]
    omega

namespace Table

variable {tab t : Table} {b c : Fin nBuckets} {n : node}

/-! ## What each update leaves -/

theorem bucket_eq_of_self (h : t.self = tab.self) : t.bucket = tab.bucket := by
  obtain ⟨self, buckets, ips, initDone⟩ := t
  obtain ⟨self', buckets', ips', initDone'⟩ := tab
  obtain rfl : self = self' := h
  rfl

@[simp] theorem self_setEntries (es : List node) : (tab.setEntries b es).self = tab.self := rfl

@[simp] theorem self_setReplacements (rs : List node) : (tab.setReplacements b rs).self = tab.self := rfl

@[simp] theorem entries_setEntries (es : List node) :
    ((tab.setEntries b es).buckets c).entries = if c = b then es else (tab.buckets c).entries := by
  by_cases hc : c = b
  · subst hc
    simp [setEntries, setBucket]
  · simp [setEntries, setBucket, hc]

@[simp] theorem replacements_setEntries (es : List node) :
    ((tab.setEntries b es).buckets c).replacements = (tab.buckets c).replacements := by
  by_cases hc : c = b
  · subst hc
    simp [setEntries, setBucket]
  · simp [setEntries, setBucket, hc]

@[simp] theorem entries_setReplacements (rs : List node) :
    ((tab.setReplacements b rs).buckets c).entries = (tab.buckets c).entries := by
  by_cases hc : c = b
  · subst hc
    simp [setReplacements, setBucket]
  · simp [setReplacements, setBucket, hc]

@[simp] theorem replacements_setReplacements (rs : List node) :
    ((tab.setReplacements b rs).buckets c).replacements =
      if c = b then rs else (tab.buckets c).replacements := by
  by_cases hc : c = b
  · subst hc
    simp [setReplacements, setBucket]
  · simp [setReplacements, setBucket, hc]

/-- `t` holds the nodes of `tab`, bucket by bucket, for the same local node:
the address counters aside, nothing changed. -/
def SameLists (tab t : Table) : Prop :=
  t.self = tab.self ∧
    ∀ c, (t.buckets c).entries = (tab.buckets c).entries ∧
      (t.buckets c).replacements = (tab.buckets c).replacements

theorem SameLists.refl (tab : Table) : SameLists tab tab := ⟨rfl, fun _ => ⟨rfl, rfl⟩⟩

theorem SameLists.trans {u : Table} (h₁ : SameLists tab t) (h₂ : SameLists t u) : SameLists tab u :=
  ⟨h₂.1.trans h₁.1, fun c => ⟨(h₂.2 c).1.trans (h₁.2 c).1, (h₂.2 c).2.trans (h₁.2 c).2⟩⟩

theorem sameLists_addIP (tab : Table) (b : Fin nBuckets) (ip : IP) :
    SameLists tab (tab.addIP b ip).2 := by
  unfold addIP
  split_ifs
  · exact SameLists.refl tab
  obtain ⟨ok, ips⟩ := tab.ips.Add ip
  cases ok
  · exact SameLists.refl tab
  obtain ⟨ok', bips⟩ := (tab.buckets b).ips.Add ip
  cases ok'
  · exact ⟨rfl, fun _ => ⟨rfl, rfl⟩⟩
  · refine ⟨rfl, fun c => ?_⟩
    by_cases hc : c = b
    · subst hc
      simp [setBucket]
    · simp [setBucket, hc]

theorem sameLists_removeIP (tab : Table) (b : Fin nBuckets) (ip : IP) :
    SameLists tab (tab.removeIP b ip) := by
  unfold removeIP
  split_ifs
  · exact SameLists.refl tab
  · refine ⟨rfl, fun c => ?_⟩
    by_cases hc : c = b
    · subst hc
      simp [setBucket]
    · simp [setBucket, hc]

/-! ## The address counters only grow under `addIP` -/

/-- The counters of `t`, the table's and every bucket's, are at least those
of `tab`. -/
def IpsLe (tab t : Table) : Prop :=
  tab.ips.Le t.ips ∧ ∀ c, (tab.buckets c).ips.Le (t.buckets c).ips

theorem IpsLe.refl (tab : Table) : tab.IpsLe tab :=
  ⟨DistinctNetSet.Le.refl _, fun _ => DistinctNetSet.Le.refl _⟩

theorem IpsLe.trans {u : Table} (h₁ : tab.IpsLe t) (h₂ : t.IpsLe u) : tab.IpsLe u :=
  ⟨h₁.1.trans h₂.1, fun c => (h₁.2 c).trans (h₂.2 c)⟩

/-- `addIP` refuses an address exactly when it is no LAN address and either
the table's or the bucket's network of it is full. -/
theorem addIP_fst_eq_false (tab : Table) (b : Fin nBuckets) (ip : IP) :
    (tab.addIP b ip).1 = false ↔
      IsLAN ip = false ∧ ((tab.ips.Add ip).1 = false ∨ ((tab.buckets b).ips.Add ip).1 = false) := by
  unfold addIP
  by_cases hlan : IsLAN ip = true
  · simp [hlan]
  rcases h₁ : tab.ips.Add ip with ⟨ok, ips⟩
  rcases h₂ : (tab.buckets b).ips.Add ip with ⟨ok', bips⟩
  cases ok <;> cases ok' <;> simp [hlan]

/-- A refusal of `addIP` stands against every table that counts at least as
much. -/
theorem addIP_false_of_le {ip : IP} (hle : tab.IpsLe t) (h : (tab.addIP b ip).1 = false) :
    (t.addIP b ip).1 = false := by
  rw [addIP_fst_eq_false] at h ⊢
  obtain ⟨hlan, hfull | hfull⟩ := h
  · exact ⟨hlan, .inl (hle.1.Add_false hfull)⟩
  · exact ⟨hlan, .inr ((hle.2 b).Add_false hfull)⟩

/-- `addIP` lowers no counter: a refusal by the bucket gives back what the
table took. -/
theorem le_addIP (tab : Table) (b : Fin nBuckets) (ip : IP) : tab.IpsLe (tab.addIP b ip).2 := by
  unfold addIP
  split_ifs
  · exact IpsLe.refl tab
  rcases h₁ : tab.ips.Add ip with ⟨ok, ips⟩
  cases ok
  · exact IpsLe.refl tab
  have hips := tab.ips.le_Add ip
  rw [h₁] at hips
  rcases h₂ : (tab.buckets b).ips.Add ip with ⟨ok', bips⟩
  cases ok'
  · -- the bucket's network is full: the table's count is taken back
    have hback := @DistinctNetSet.le_Remove_Add tab.ips ip (by rw [h₁])
    rw [h₁] at hback
    exact ⟨hback, fun _ => DistinctNetSet.Le.refl _⟩
  · have hbips := (tab.buckets b).ips.le_Add ip
    rw [h₂] at hbips
    refine ⟨hips, fun c => ?_⟩
    by_cases hc : c = b
    · subst hc
      simpa [setBucket] using hbips
    · simpa [setBucket, hc] using DistinctNetSet.Le.refl (tab.buckets c).ips

/-! ## `bumpInBucket` -/

/-- A bump that gives up leaves the nodes as they were, and then either the
node is no entry of the bucket or `addIP` refuses its address. -/
theorem bumpInBucket_false (h : (tab.bumpInBucket b n).1 = false) :
    SameLists tab (tab.bumpInBucket b n).2 ∧
      (contains (tab.buckets b).entries n.ID = false ∨
        ((tab.bumpInBucket b n).2.addIP b n.IP).1 = false) := by
  unfold bumpInBucket at h ⊢
  dsimp only at h ⊢
  cases hi : (tab.buckets b).entries.findIdx? (·.ID = n.ID) with
  | none =>
    -- no entry has the ID
    refine ⟨SameLists.refl tab, .inl ?_⟩
    rw [List.findIdx?_eq_none_iff] at hi
    simpa [contains] using hi
  | some i =>
  rw [hi] at h
  dsimp only at h ⊢
  set e := (tab.buckets b).entries.getD i n
  by_cases heq : Equal n.IP e.IP = true
  · simp [heq] at h
  set t₁ := tab.removeIP b e.IP
  have hsame₁ := sameLists_addIP t₁ b n.IP
  have hle₁ := le_addIP t₁ b n.IP
  rcases h₂ : t₁.addIP b n.IP with ⟨ok, t₂⟩
  rw [h₂] at hsame₁ hle₁
  cases ok
  · -- the new address does not fit: the old one is put back, and the new
    -- one still does not fit, the counters being no lower than before
    simp only [heq, Bool.false_eq_true, if_false, Bool.not_false, if_true]
    have hle : t₁.IpsLe (t₂.addIP b e.IP).2 := hle₁.trans (le_addIP t₂ b e.IP)
    refine ⟨((sameLists_removeIP tab b e.IP).trans hsame₁).trans (sameLists_addIP t₂ b e.IP), .inr ?_⟩
    exact addIP_false_of_le hle (by rw [h₂])
  · simp [heq, h₂] at h

/-- A bump that succeeds puts the node at the front of the bucket, in place
of the entry of its ID, over a table of the same nodes. -/
theorem bumpInBucket_true (h : (tab.bumpInBucket b n).1 = true) :
    ∃ i t, (tab.buckets b).entries.findIdx? (·.ID = n.ID) = some i ∧ SameLists tab t ∧
      (tab.bumpInBucket b n).2 = t.setEntries b (n :: (tab.buckets b).entries.eraseIdx i) := by
  unfold bumpInBucket at h ⊢
  dsimp only at h ⊢
  cases hi : (tab.buckets b).entries.findIdx? (·.ID = n.ID) with
  | none =>
    rw [hi] at h
    simp at h
  | some i =>
  rw [hi] at h
  dsimp only at h ⊢
  set e := (tab.buckets b).entries.getD i n
  by_cases heq : Equal n.IP e.IP = true
  · exact ⟨i, tab, rfl, SameLists.refl tab, by simp [heq]⟩
  set t₁ := tab.removeIP b e.IP
  have hsame₁ := sameLists_addIP t₁ b n.IP
  rcases h₂ : t₁.addIP b n.IP with ⟨ok, t₂⟩
  rw [h₂] at hsame₁
  cases ok
  · simp [heq, h₂] at h
  · exact ⟨i, t₂, rfl, (sameLists_removeIP tab b e.IP).trans hsame₁, by simp [heq]⟩

/-! ## `closest` -/

/-- `Table.closest`: the entries of the table, bucket after bucket, pushed
onto an empty list for `target` that keeps `nresults`; with `checklive`,
only the entries that have answered a ping. The liveness counter of a node is
not modelled: `live n` stands for `n.livenessChecks > 0`. -/
def closest (tab : Table) (target : Enode.ID) (nresults : Int) (checklive : Bool)
    (live : node → Bool) : nodesByDistance :=
  (List.finRange nBuckets).foldl
    (fun close b => (tab.buckets b).entries.foldl
      (fun close n => if checklive && !live n then close else close.push n nresults) close)
    { entries := [], target }

/-! ## The shape of a bucket -/

/-- What bucket `b` of `tab` may hold as entries `es` and replacements `rs`:
nodes of its own distance that are not the local node, no ID twice, at most
`bucketSize` entries and at most `maxReplacements` replacements. -/
structure BucketShape (tab : Table) (b : Fin nBuckets) (es rs : List node) : Prop where
  placed : ∀ m ∈ es ++ rs, tab.bucket m.ID = b
  not_self : ∀ m ∈ es ++ rs, m.ID ≠ tab.self
  nodup : ((es ++ rs).map (·.ID)).Nodup
  entries_le : es.length ≤ bucketSize
  replacements_le : rs.length ≤ maxReplacements

section BucketShape

variable {es rs es' rs' : List node}

theorem BucketShape.congr (hs : t.self = tab.self) (h : tab.BucketShape b es rs) :
    t.BucketShape b es rs := by
  refine ⟨fun m hm => ?_, fun m hm => ?_, h.nodup, h.entries_le, h.replacements_le⟩
  · rw [bucket_eq_of_self hs]
    exact h.placed m hm
  · rw [hs]
    exact h.not_self m hm

theorem BucketShape.nil : tab.BucketShape b [] [] :=
  ⟨by simp, by simp, by simp, by simp [bucketSize], by simp [maxReplacements]⟩

theorem BucketShape.nodup_replacements (h : tab.BucketShape b es rs) : (rs.map (·.ID)).Nodup :=
  (List.nodup_append.1 (List.map_append ▸ h.nodup)).2.1

/-- The shape of lists made of nodes of the bucket and of `n`, a node the
bucket may hold: what is left to show is that the IDs are distinct and the
lists short enough. -/
theorem BucketShape.of_mem (h : tab.BucketShape b es rs) (hn : tab.bucket n.ID = b)
    (hself : n.ID ≠ tab.self) (hmem : ∀ m ∈ es' ++ rs', m = n ∨ m ∈ es ++ rs)
    (hnd : ((es' ++ rs').map (·.ID)).Nodup) (hes : es'.length ≤ bucketSize)
    (hrs : rs'.length ≤ maxReplacements) : tab.BucketShape b es' rs' := by
  refine ⟨fun m hm => ?_, fun m hm => ?_, hnd, hes, hrs⟩
  · rcases hmem m hm with rfl | hm
    · exact hn
    · exact h.placed m hm
  · rcases hmem m hm with rfl | hm
    · exact hself
    · exact h.not_self m hm

/-- Dropping nodes keeps the shape. -/
theorem BucketShape.of_sublist (h : tab.BucketShape b es rs) (he : es'.Sublist es)
    (hr : rs'.Sublist rs) : tab.BucketShape b es' rs' := by
  have hsub : (es' ++ rs').Sublist (es ++ rs) := he.append hr
  exact ⟨fun m hm => h.placed m (hsub.subset hm), fun m hm => h.not_self m (hsub.subset hm),
    h.nodup.sublist (hsub.map _), he.length_le.trans h.entries_le,
    hr.length_le.trans h.replacements_le⟩

/-- A node the bucket may hold, of an ID no entry has, joins the entries
(which keep a sublist `kept` of theirs) and leaves the replacements: the
step of `addSeenNode`, `addVerifiedNode` and `replace`. -/
theorem BucketShape.join_entries (h : tab.BucketShape b es rs) (hn : tab.bucket n.ID = b)
    (hself : n.ID ≠ tab.self) (hfresh : n.ID ∉ es.map (·.ID)) {kept : List node}
    (hkept : kept.Sublist es) (hp : es'.Perm (n :: kept)) (hlen : es'.length ≤ bucketSize) :
    tab.BucketShape b es' (deleteNode rs n) := by
  have hrest : (kept ++ deleteNode rs n).Sublist (es ++ rs) := hkept.append (deleteNode_sublist rs n)
  have hperm : (es' ++ deleteNode rs n).Perm (n :: (kept ++ deleteNode rs n)) := hp.append_right _
  refine h.of_mem hn hself (fun m hm => ?_) ?_ hlen
    ((deleteNode_sublist rs n).length_le.trans h.replacements_le)
  · rcases List.mem_cons.1 (hperm.subset hm) with rfl | hm
    · exact .inl rfl
    · exact .inr (hrest.subset hm)
  · -- the IDs are those of a sublist of the bucket, and `n`'s, which the
    -- sublist does not hold
    rw [(hperm.map _).nodup_iff, List.map_cons, List.nodup_cons]
    refine ⟨?_, h.nodup.sublist (hrest.map _)⟩
    rw [List.map_append, List.mem_append, map_deleteNode, not_or]
    exact ⟨fun hk => hfresh ((hkept.map _).subset hk), h.nodup_replacements.not_mem_erase⟩

/-- A node the bucket may hold, of an ID the bucket does not hold, joins the
replacements (which keep a sublist `kept` of theirs): the step of
`addReplacement`. -/
theorem BucketShape.join_replacements (h : tab.BucketShape b es rs) (hn : tab.bucket n.ID = b)
    (hself : n.ID ≠ tab.self) (hfresh : n.ID ∉ (es ++ rs).map (·.ID)) {kept : List node}
    (hkept : kept.Sublist rs) (hp : rs'.Perm (n :: kept)) (hlen : rs'.length ≤ maxReplacements) :
    tab.BucketShape b es rs' := by
  have hrest : (es ++ kept).Sublist (es ++ rs) := (List.Sublist.refl es).append hkept
  have hperm : (es ++ rs').Perm (n :: (es ++ kept)) := (hp.append_left es).trans List.perm_middle
  refine h.of_mem hn hself (fun m hm => ?_) ?_ h.entries_le hlen
  · rcases List.mem_cons.1 (hperm.subset hm) with rfl | hm
    · exact .inl rfl
    · exact .inr (hrest.subset hm)
  · rw [(hperm.map _).nodup_iff, List.map_cons, List.nodup_cons]
    exact ⟨fun hk => hfresh ((hrest.map _).subset hk), h.nodup.sublist (hrest.map _)⟩

/-- An entry moves to the front, as `n`, a node of its ID: the step of
`bumpInBucket`. -/
theorem BucketShape.bump (h : tab.BucketShape b es rs) {i : Nat}
    (hi : es.findIdx? (·.ID = n.ID) = some i) : tab.BucketShape b (n :: es.eraseIdx i) rs := by
  obtain ⟨hlt, hid, -⟩ := List.findIdx?_eq_some_iff_getElem.1 hi
  have hid : es[i].ID = n.ID := of_decide_eq_true hid
  have hmem : es[i] ∈ es ++ rs := List.mem_append_left rs (List.getElem_mem hlt)
  -- the entries after the move are `n` and `deleteNode`'s list, whose IDs
  -- are those of the entries with `n.ID` taken out
  have herase : es.eraseIdx i = deleteNode es n := by
    rw [deleteNode, List.eraseP_eq_eraseIdx, hi]
  have hin : n.ID ∈ es.map (·.ID) := List.mem_map.2 ⟨es[i], List.getElem_mem hlt, hid⟩
  have hperm : ((n :: es.eraseIdx i ++ rs).map (·.ID)).Perm ((es ++ rs).map (·.ID)) := by
    rw [herase, List.map_append, List.map_append, List.map_cons, map_deleteNode, List.cons_append]
    exact ((List.perm_cons_erase hin).symm).append_right _
  refine h.of_mem (hid ▸ h.placed _ hmem) (hid ▸ h.not_self _ hmem) (fun m hm => ?_)
    (hperm.nodup_iff.2 h.nodup) ?_ h.replacements_le
  · rcases List.mem_append.1 hm with hm | hm
    · rcases List.mem_cons.1 hm with rfl | hm
      · exact .inl rfl
      · exact .inr (List.mem_append_left rs ((List.eraseIdx_sublist es i).subset hm))
    · exact .inr (List.mem_append_right es hm)
  · rw [List.length_cons, List.length_eraseIdx_of_lt hlt]
    have := h.entries_le
    omega

end BucketShape

/-! ## The shape of the table -/

/-- The shape of a table of the local node `selfID`: the table is
`selfID`'s, and every bucket has its shape. -/
structure Shaped (selfID : Enode.ID) (tab : Table) : Prop where
  self_eq : tab.self = selfID
  buckets : ∀ b, tab.BucketShape b (tab.buckets b).entries (tab.buckets b).replacements

theorem newTable_shaped (selfID : Enode.ID) : (newTable selfID).Shaped selfID :=
  ⟨rfl, fun _ => BucketShape.nil⟩

section Shaped

variable {selfID : Enode.ID}

theorem SameLists.bucket_eq (hs : SameLists tab t) : t.bucket = tab.bucket := bucket_eq_of_self hs.1

theorem Shaped.of_sameLists (h : tab.Shaped selfID) (hs : SameLists tab t) : t.Shaped selfID := by
  refine ⟨hs.1.trans h.self_eq, fun c => ?_⟩
  rw [(hs.2 c).1, (hs.2 c).2]
  exact (h.buckets c).congr hs.1

/-- A table that differs from a shaped one only in the lists of bucket `b`,
which have a shape, is shaped. -/
theorem Shaped.update (h : tab.Shaped selfID) (hs : t.self = tab.self)
    (hother : ∀ c, c ≠ b → (t.buckets c).entries = (tab.buckets c).entries ∧
      (t.buckets c).replacements = (tab.buckets c).replacements)
    (hb : tab.BucketShape b (t.buckets b).entries (t.buckets b).replacements) : t.Shaped selfID := by
  refine ⟨hs.trans h.self_eq, fun c => ?_⟩
  by_cases hc : c = b
  · subst hc
    exact hb.congr hs
  · rw [(hother c hc).1, (hother c hc).2]
    exact (h.buckets c).congr hs

theorem Shaped.setEntries {es : List node} (h : tab.Shaped selfID)
    (hb : tab.BucketShape b es (tab.buckets b).replacements) : (tab.setEntries b es).Shaped selfID :=
  h.update (b := b) rfl (fun c hc => by simp [hc]) (by simpa using hb)

theorem Shaped.setReplacements {rs : List node} (h : tab.Shaped selfID)
    (hb : tab.BucketShape b (tab.buckets b).entries rs) : (tab.setReplacements b rs).Shaped selfID :=
  h.update (b := b) rfl (fun c hc => by simp [hc]) (by simpa using hb)

theorem Shaped.deleteInBucket (h : tab.Shaped selfID) (b : Fin nBuckets) (n : node) :
    (tab.deleteInBucket b n).Shaped selfID := by
  unfold Table.deleteInBucket
  refine (h.setEntries ?_).of_sameLists (sameLists_removeIP _ b n.IP)
  exact (h.buckets b).of_sublist (deleteNode_sublist _ n) (List.Sublist.refl _)

/-- `addReplacement` keeps the shape, for a node the bucket may hold that is
no entry of it, or whose address `addIP` refuses. -/
theorem Shaped.addReplacement (h : tab.Shaped selfID) (hn : tab.bucket n.ID = b)
    (hself : n.ID ≠ tab.self)
    (hfresh : contains (tab.buckets b).entries n.ID = false ∨ (tab.addIP b n.IP).1 = false) :
    (tab.addReplacement b n).Shaped selfID := by
  unfold Table.addReplacement
  dsimp only
  split_ifs with hc hok
  · exact h
  · exact h.of_sameLists (sameLists_addIP tab b n.IP)
  have hsame := sameLists_addIP tab b n.IP
  set t := (tab.addIP b n.IP).2
  have ht : t.Shaped selfID := h.of_sameLists hsame
  -- the address fits, so the node is no entry, and it is no replacement
  have hnew : n.ID ∉ ((t.buckets b).entries ++ (t.buckets b).replacements).map (·.ID) := by
    have hentry := hfresh.resolve_right (by simpa using hok)
    rw [(hsame.2 b).1, (hsame.2 b).2, List.map_append, List.mem_append, not_or]
    exact ⟨contains_eq_false.1 hentry, contains_eq_false.1 (by simpa using hc)⟩
  obtain ⟨kept, hkept, hpush⟩ := pushNode_perm (t.buckets b).replacements n maxReplacements
  have hrs : (t.setReplacements b (pushNode (t.buckets b).replacements n maxReplacements).1).Shaped selfID := by
    refine ht.setReplacements ((ht.buckets b).join_replacements (by rw [hsame.bucket_eq]; exact hn)
      (by rw [hsame.1]; exact hself) hnew hkept (by rw [hpush]) ?_)
    exact length_pushNode_le (by decide) (ht.buckets b).replacements_le n
  -- a replacement pushed out at the back gives its address back
  split
  · exact hrs.of_sameLists (sameLists_removeIP _ b _)
  · exact hrs

theorem Shaped.addSeenNode (h : tab.Shaped selfID) (n : node) :
    (tab.addSeenNode n).Shaped selfID := by
  unfold Table.addSeenNode
  dsimp only
  split_ifs with hself hin hfull hok
  · exact h
  · exact h
  · exact h.addReplacement rfl hself (.inl (by simpa using hin))
  · exact h.of_sameLists (sameLists_addIP _ _ n.IP)
  -- the address fits: the node goes at the end of the bucket
  have hsame := sameLists_addIP tab (tab.bucket n.ID) n.IP
  set t := (tab.addIP (tab.bucket n.ID) n.IP).2
  have ht : t.Shaped selfID := h.of_sameLists hsame
  simp only [replacements_setEntries]
  refine ht.update (b := tab.bucket n.ID) rfl (fun c hc => by simp [hc]) ?_
  simp only [entries_setReplacements, entries_setEntries, replacements_setReplacements, if_true]
  rw [(hsame.2 _).1, (hsame.2 _).2] at *
  refine ((h.buckets _).congr hsame.1).join_entries (by rw [hsame.bucket_eq]) (by rw [hsame.1]; exact hself)
    (contains_eq_false.1 (by simpa using hin)) (List.Sublist.refl _) (List.perm_append_singleton n _) ?_
  rw [List.length_append, List.length_singleton]
  unfold bucketSize at hfull ⊢
  omega

theorem Shaped.bumpInBucket (h : tab.Shaped selfID) (b : Fin nBuckets) (n : node) :
    (tab.bumpInBucket b n).2.Shaped selfID := by
  cases hbump : (tab.bumpInBucket b n).1
  · exact h.of_sameLists (bumpInBucket_false hbump).1
  · obtain ⟨i, t, hi, hsame, heq⟩ := bumpInBucket_true hbump
    rw [heq]
    refine (h.of_sameLists hsame).setEntries ?_
    rw [(hsame.2 b).2]
    exact ((h.buckets b).bump hi).congr hsame.1

theorem Shaped.addVerifiedNode (h : tab.Shaped selfID) (n : node) :
    (tab.addVerifiedNode n).Shaped selfID := by
  unfold Table.addVerifiedNode
  dsimp only
  by_cases hinit : tab.initDone = true
  swap
  · simpa [hinit] using h
  by_cases hself : n.ID = tab.self
  · simpa [hinit, hself] using h
  rw [if_neg (by simp [hinit]), if_neg hself]
  set b := tab.bucket n.ID
  cases hbump : (tab.bumpInBucket b n).1
  · -- not moved to the front: the node is new to the bucket, or its address
    -- is refused again
    obtain ⟨hsame, hfresh⟩ := bumpInBucket_false hbump
    set t := (tab.bumpInBucket b n).2
    have ht : t.Shaped selfID := h.of_sameLists hsame
    have hn : t.bucket n.ID = b := by rw [hsame.bucket_eq]
    have hself' : n.ID ≠ t.self := by rw [hsame.1]; exact hself
    rw [← (hsame.2 b).1] at hfresh
    simp only [Bool.false_eq_true, if_false]
    split_ifs with hfull hok
    · exact ht.addReplacement hn hself' hfresh
    · exact ht.of_sameLists (sameLists_addIP _ _ n.IP)
    have hsame' := sameLists_addIP t b n.IP
    have hentry := contains_eq_false.1 (hfresh.resolve_right (by simpa using hok))
    refine (ht.of_sameLists hsame').update (b := b) rfl (fun c hc => by simp [hc]) ?_
    simp only [entries_setReplacements, entries_setEntries, replacements_setReplacements,
      replacements_setEntries, if_true]
    rw [(hsame'.2 b).1, (hsame'.2 b).2]
    obtain ⟨kept, hkept, hpush⟩ := pushNode_perm (t.buckets b).entries n bucketSize
    refine ((ht.buckets b).congr hsame'.1).join_entries (by rw [hsame'.bucket_eq, hn])
      (by rw [hsame'.1]; exact hself') hentry hkept (by rw [hpush]) ?_
    exact length_pushNode_le (by decide) (ht.buckets b).entries_le n
  · simpa [hbump] using h.bumpInBucket b n

theorem Shaped.replace (h : tab.Shaped selfID) (b : Fin nBuckets) (last : node) (pick : Nat) :
    (tab.replace b last pick).2.Shaped selfID := by
  unfold Table.replace
  dsimp only
  cases hl : (tab.buckets b).entries.getLast? with
  | none => exact h
  | some e =>
  dsimp only
  split_ifs with hid hnil
  · exact h
  · exact h.deleteInBucket b last
  -- a replacement `r` takes the place of the last entry
  set rs := (tab.buckets b).replacements
  set r := rs.getD (pick % rs.length) last
  have hr : r ∈ rs := by
    have hlt : pick % rs.length < rs.length := Nat.mod_lt _ (Nat.pos_of_ne_zero hnil)
    rw [show r = rs[pick % rs.length] from List.getD_eq_getElem _ _ hlt]
    exact List.getElem_mem hlt
  obtain ⟨init, hes⟩ := List.getLast?_eq_some_iff.1 hl
  dsimp only
  -- the last entry's address is given back
  apply Shaped.of_sameLists _ (sameLists_removeIP _ b last.IP)
  refine h.update (b := b) rfl (fun c hc => by simp [hc]) ?_
  simp only [entries_setEntries, replacements_setEntries, replacements_setReplacements, if_true]
  have hset : (tab.buckets b).entries.set ((tab.buckets b).entries.length - 1) r = init ++ [r] := by
    rw [hes]
    simp
  rw [hset]
  have hshape := h.buckets b
  rw [hes] at hshape
  -- `r` is a replacement, so no entry has its ID
  have hfresh : r.ID ∉ (init ++ [e]).map (·.ID) := by
    intro hk
    obtain ⟨m, hm, hmr⟩ := List.mem_map.1 hk
    have hnd := hshape.nodup
    rw [List.map_append, List.nodup_append] at hnd
    exact hnd.2.2 _ (List.mem_map_of_mem hm) _ (List.mem_map_of_mem hr) hmr
  have hrmem : r ∈ (init ++ [e]) ++ rs := List.mem_append_right _ hr
  refine hshape.join_entries (hshape.placed r hrmem) (hshape.not_self r hrmem) hfresh
    (List.sublist_append_left init [e]) (List.perm_append_singleton r init) ?_
  have := hshape.entries_le
  simp only [List.length_append, List.length_singleton] at this ⊢
  exact this

theorem Shaped.doRevalidate (h : tab.Shaped selfID) (b : Fin nBuckets) (outcome : Outcome) :
    (tab.doRevalidate b outcome).Shaped selfID := by
  unfold Table.doRevalidate
  split
  · exact h
  · split
    · exact h.bumpInBucket b _
    · exact h.replace b _ _

/-- Every event keeps the shape. -/
theorem Shaped.step (h : tab.Shaped selfID) : ∀ e : Event, (tab.step e).Shaped selfID
  | .addSeenNode n => h.addSeenNode n
  | .addVerifiedNode n => h.addVerifiedNode n
  | .delete n => h.deleteInBucket _ n
  | .revalidate b outcome => h.doRevalidate b outcome
  | .initDone => h.of_sameLists ⟨rfl, fun _ => ⟨rfl, rfl⟩⟩

/-- Every run of events keeps the shape. -/
theorem Shaped.run (h : tab.Shaped selfID) (events : List Event) : (tab.run events).Shaped selfID := by
  induction events generalizing tab with
  | nil => exact h
  | cons e events ih => exact ih (h.step e)

/-- Nodes of one bucket each, a shaped table holds no ID twice. -/
theorem Shaped.nodup_flatMap (h : tab.Shaped selfID) {f : Fin nBuckets → List node}
    (hf : ∀ b, (f b).Sublist (tab.bucketNodes b)) :
    (((List.finRange nBuckets).flatMap f).map (·.ID)).Nodup := by
  rw [List.map_flatMap, List.nodup_flatMap]
  refine ⟨fun b _ => (h.buckets b).nodup.sublist ((hf b).map _), ?_⟩
  refine (List.nodup_finRange nBuckets).imp fun {b c} hbc => ?_
  -- an ID in both buckets would have both bucket numbers
  intro x hxb hxc
  obtain ⟨m, hm, rfl⟩ := List.mem_map.1 hxb
  obtain ⟨m', hm', hid⟩ := List.mem_map.1 hxc
  have hb := (h.buckets b).placed m ((hf b).subset hm)
  have hc := (h.buckets c).placed m' ((hf c).subset hm')
  exact hbc (hb.symm.trans (hid ▸ hc))

theorem Shaped.allNodes_nodup (h : tab.Shaped selfID) : (tab.allNodes.map (·.ID)).Nodup :=
  h.nodup_flatMap fun _ => List.Sublist.refl _

/-! ## What the lookups find -/

/-- On a shaped table, `getNode` finds the entry of the ID wherever it is in
the table: the one bucket it searches is the only one that can hold it. -/
theorem Shaped.getNode_eq_some (h : tab.Shaped selfID) (id : Enode.ID) (m : node) :
    tab.getNode id = some m ↔ (∃ b, m ∈ (tab.buckets b).entries) ∧ m.ID = id := by
  constructor
  · intro hm
    rw [getNode] at hm
    have hid := List.find?_some hm
    exact ⟨⟨_, List.mem_of_find?_eq_some hm⟩, by simpa using hid⟩
  · rintro ⟨⟨b, hm⟩, rfl⟩
    have hb : tab.bucket m.ID = b := (h.buckets b).placed m (List.mem_append_left _ hm)
    -- the search finds an entry of the ID, and the bucket holds only one
    obtain ⟨m', hfind⟩ : ∃ m', (tab.buckets b).entries.find? (·.ID = m.ID) = some m' :=
      Option.isSome_iff_exists.1 (List.find?_isSome.2 ⟨m, hm, by simp⟩)
    have hnd : ((tab.buckets b).entries.map (·.ID)).Nodup :=
      (h.buckets b).nodup.sublist ((List.sublist_append_left _ _).map _)
    have hid : m'.ID = m.ID := by simpa using List.find?_some hfind
    rw [getNode, hb, hfind, List.inj_on_of_nodup_map hnd (List.mem_of_find?_eq_some hfind) hm hid]

/-- The entries of the table, bucket after bucket. -/
def entryList (tab : Table) : List node :=
  (List.finRange nBuckets).flatMap fun b => (tab.buckets b).entries

/-- `closest` pushes the entries it keeps, in the order of the table. -/
theorem closest_eq_pushAll (tab : Table) (target : Enode.ID) (nresults : Int) (checklive : Bool)
    (live : node → Bool) :
    tab.closest target nresults checklive live =
      nodesByDistance.pushAll ⟨[], target⟩ (tab.entryList.filter fun n => !checklive || live n)
        nresults := by
  rw [nodesByDistance.pushAll, List.foldl_filter, entryList, List.foldl_flatMap, closest]
  congr
  funext close b
  congr
  funext close n
  cases checklive <;> cases live n <;> rfl

/-- On a shaped table, `closest` keeps the `nresults` entries nearest to the
target, of those it looks at, in the order of their distance. -/
theorem Shaped.closest (h : tab.Shaped selfID) (target : Enode.ID) (nresults : Int)
    (checklive : Bool) (live : node → Bool) :
    nodesByDistance.Closest target nresults (tab.entryList.filter fun n => !checklive || live n)
      (tab.closest target nresults checklive live).entries := by
  rw [closest_eq_pushAll]
  apply nodesByDistance.pushAll_closest
  exact (h.nodup_flatMap fun b => List.sublist_append_left _ _).sublist ((List.filter_sublist).map _)

end Shaped

/-! ## Every run -/

/-- Along every run of events from a new table: each node of a bucket has
that bucket's distance and is not the local node, no ID is held twice in the
table, and no bucket holds more than `bucketSize` entries or
`maxReplacements` replacements. -/
theorem run_keeps_table_shape (self : Enode.ID) (events : List Event) :
    let tab := (newTable self).run events
    (∀ b, ∀ n ∈ tab.bucketNodes b, tab.bucket n.ID = b ∧ n.ID ≠ self) ∧
      (tab.allNodes.map (·.ID)).Nodup ∧
      ∀ b, (tab.buckets b).entries.length ≤ bucketSize ∧
        (tab.buckets b).replacements.length ≤ maxReplacements := by
  have h := (newTable_shaped self).run events
  refine ⟨fun b n hn => ⟨(h.buckets b).placed n hn, ?_⟩, h.allNodes_nodup,
    fun b => ⟨(h.buckets b).entries_le, (h.buckets b).replacements_le⟩⟩
  rw [← h.self_eq]
  exact (h.buckets b).not_self n hn

/-- Along every run of events from a new table, `getNode`, which searches the
bucket of the ID only, returns the table's entry of that ID if there is one,
and nothing otherwise. -/
theorem run_getNode_finds_entry (self id : Enode.ID) (events : List Event) (m : node) :
    ((newTable self).run events).getNode id = some m ↔
      (∃ b, m ∈ (((newTable self).run events).buckets b).entries) ∧ m.ID = id :=
  ((newTable_shaped self).run events).getNode_eq_some id m

/-- Along every run of events from a new table, `closest` returns the first
`nresults` of the table's entries (the live ones, with `checklive`) in the
order of their distance to the target. -/
theorem run_closest_keeps_nearest (self target : Enode.ID) (events : List Event) (nresults : Int)
    (checklive : Bool) (live : node → Bool) :
    let tab := (newTable self).run events
    nodesByDistance.Closest target nresults (tab.entryList.filter fun n => !checklive || live n)
      (tab.closest target nresults checklive live).entries :=
  ((newTable_shaped self).run events).closest target nresults checklive live

end Table

end Discover

end Btp
