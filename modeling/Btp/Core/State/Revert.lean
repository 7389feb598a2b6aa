import Mathlib
import Btp.Core.State.Undo

/-!
# Snapshots and reverts

`RevertToSnapshot r`, while `r` is still valid, brings every accessor back to
what it read when `Snapshot` returned `r`, whatever ran in between: mutations,
other snapshots, and reverts to later revisions. Along such a run the state
`Tracks` the snapshot: its journal extends the one at the snapshot by a log
that undoes back to it, and its revisions are those at the snapshot, `r`, and
later ones. A revert to `r` or to an earlier revision drops `r` for good, since
later snapshots take larger ids.
-/

namespace Btp.State

/-- The operations that go through the journal: all but the snapshot
operations. -/
def StateOp.journaled : StateOp → Bool
  | .Snapshot | .RevertToSnapshot _ => false
  | _ => true

namespace StateDB

/-! ## One step -/

section
variable (keccak : List UInt8 → Hash) {s s' : StateDB}

theorem step_extends (hwa : s.WellAddressed) {op : StateOp} (hop : op.journaled = true)
    (h : s.step keccak op = some s') : Extends s s' := by
  cases op with
  | SetBalance a amount =>
    obtain rfl := Option.some.inj h
    exact extends_of_getOrNew keccak hwa a (f := fun obj t => obj.SetBalance t amount)
      (StateObject.SetBalance_extends · · amount)
  | AddBalance a amount =>
    obtain rfl := Option.some.inj h
    exact extends_of_getOrNew keccak hwa a (f := fun obj t => obj.AddBalance keccak t amount)
      (StateObject.AddBalance_extends · · keccak amount)
  | SubBalance a amount =>
    obtain rfl := Option.some.inj h
    exact extends_of_getOrNew keccak hwa a (f := fun obj t => obj.SubBalance t amount)
      (StateObject.SubBalance_extends · · amount)
  | SetNonce a nonce =>
    obtain rfl := Option.some.inj h
    exact extends_of_getOrNew keccak hwa a (f := fun obj t => obj.SetNonce t nonce)
      (StateObject.SetNonce_extends · · nonce)
  | SetCode a code =>
    obtain rfl := Option.some.inj h
    exact extends_of_getOrNew keccak hwa a (f := fun obj t => obj.SetCode t (keccak code) code)
      (StateObject.SetCode_extends · · _ code)
  | SetState a key value =>
    obtain rfl := Option.some.inj h
    exact extends_of_getOrNew keccak hwa a (f := fun obj t => obj.SetState t key value)
      (StateObject.SetState_extends · · key value)
  | CreateAccount a =>
    obtain rfl := Option.some.inj h
    exact CreateAccount_extends keccak hwa a
  | Suicide a =>
    obtain rfl := Option.some.inj h
    exact Suicide_extends hwa a
  | AddRefund gas =>
    obtain rfl := Option.some.inj h
    exact AddRefund_extends hwa gas
  | SubRefund gas => exact SubRefund_extends hwa h
  | AddLog log =>
    obtain rfl := Option.some.inj h
    exact AddLog_extends hwa log
  | AddPreimage hash preimage =>
    obtain rfl := Option.some.inj h
    exact AddPreimage_extends hwa hash preimage
  | Snapshot => cases hop
  | RevertToSnapshot _ => cases hop

end

variable {s s' u : StateDB}

/-- A revert keeps the objects well addressed and leaves the revisions
alone. -/
theorem revert_preserves {e : JournalEntry} (h : e.revert s = some s') :
    (s.WellAddressed → s'.WellAddressed) ∧ s'.validRevisions = s.validRevisions ∧
      s'.nextRevisionId = s.nextRevisionId := by
  cases e with
  | createObjectChange a =>
    obtain rfl := Option.some.inj h
    exact ⟨(·.erase a), rfl, rfl⟩
  | resetObjectChange prev =>
    obtain rfl := Option.some.inj h
    exact ⟨(·.setStateObject prev), rfl, rfl⟩
  | suicideChange a prev prevbalance =>
    simp only [JournalEntry.revert] at h
    split at h <;> obtain rfl := Option.some.inj h
    · exact ⟨(·.setStateObject _), rfl, rfl⟩
    · exact ⟨id, rfl, rfl⟩
  | balanceChange | nonceChange | codeChange | storageChange =>
    obtain ⟨obj, -, rfl⟩ := Option.map_eq_some_iff.mp h
    exact ⟨(·.setStateObject _), rfl, rfl⟩
  | refundChange | addPreimageChange | touchChange =>
    obtain rfl := Option.some.inj h
    exact ⟨id, rfl, rfl⟩
  | addLogChange txhash =>
    simp only [JournalEntry.revert] at h
    split_ifs at h <;> obtain rfl := Option.some.inj h <;> exact ⟨id, rfl, rfl⟩

/-- `journal.revert` keeps what every revert keeps, and cuts the journal. -/
theorem revertJournal_preserves {n : Nat} (h : s.revertJournal n = some u) :
    (s.WellAddressed → u.WellAddressed) ∧ u.validRevisions = s.validRevisions ∧
      u.nextRevisionId = s.nextRevisionId ∧ u.journal = s.journal.take n := by
  obtain ⟨v, hv, rfl⟩ := Option.map_eq_some_iff.mp h
  obtain ⟨hwa, hr, hn⟩ := UndoLog.undoAll_inv
    (fun t => (s.WellAddressed → t.WellAddressed) ∧ t.validRevisions = s.validRevisions ∧
      t.nextRevisionId = s.nextRevisionId)
    (fun _ _ _ he ⟨hwa, hr, hn⟩ => by
      obtain ⟨hwa', hr', hn'⟩ := revert_preserves he
      exact ⟨hwa' ∘ hwa, hr'.trans hr, hn'.trans hn⟩)
    hv ⟨id, rfl, rfl⟩
  exact ⟨hwa, hr, hn, rfl⟩

/-- The revision `RevertToSnapshot` finds, and the state it leaves. -/
theorem RevertToSnapshot_eq_some {revid : Nat} (h : s.RevertToSnapshot revid = some s') :
    ∃ idx rev u, s.validRevisions[idx]? = some rev ∧ rev.id = revid ∧
      s.revertJournal rev.journalIndex = some u ∧
      s' = { u with validRevisions := s.validRevisions.take idx } := by
  dsimp only [RevertToSnapshot] at h
  split at h
  · rename_i rev hrev
    split_ifs at h with hne
    obtain ⟨u, hu, rfl⟩ := Option.map_eq_some_iff.mp h
    refine ⟨_, rev, u, hrev, not_not.mp hne, hu, ?_⟩
    rw [(revertJournal_preserves hu).2.1]
  · cases h

/-- `RevertToSnapshot` of the revision `sort.Search` finds. -/
theorem RevertToSnapshot_of_found {revid idx : Nat} {rev : Revision}
    (hidx : s.validRevisions.findIdx (fun x => decide (x.id ≥ revid)) = idx)
    (hrev : s.validRevisions[idx]? = some rev) (hid : rev.id = revid)
    (hu : s.revertJournal rev.journalIndex = some u) :
    s.RevertToSnapshot revid = some { u with validRevisions := s.validRevisions.take idx } := by
  dsimp only [RevertToSnapshot]
  rw [hidx, hrev]
  simp [hid, hu, (revertJournal_preserves hu).2.1]

theorem RevertToSnapshot_preserves {revid : Nat} (hwa : s.WellAddressed)
    (h : s.RevertToSnapshot revid = some s') :
    s'.WellAddressed ∧ s'.nextRevisionId = s.nextRevisionId ∧
      ∀ x ∈ s'.validRevisions, x ∈ s.validRevisions := by
  obtain ⟨idx, rev, u, -, -, hu, rfl⟩ := RevertToSnapshot_eq_some h
  obtain ⟨hwa', -, hn, -⟩ := revertJournal_preserves hu
  exact ⟨hwa' hwa, hn, fun x hx => List.mem_of_mem_take hx⟩

theorem snapshot_equiv (s : StateDB) : s.Snapshot.2.Equiv s :=
  equiv_bookkeeping s _ _ _

/-! ## Runs -/

/-- What holds of every state after every step holds after a run. -/
theorem run_inv (keccak : List UInt8 → Hash) (P : StateDB → Prop)
    (hstep : ∀ s s' op, P s → s.step keccak op = some s' → P s') {ops : List StateOp}
    (hs : P s) (h : s.run keccak ops = some s') : P s' := by
  induction ops generalizing s with
  | nil =>
    obtain rfl := Option.some.inj h
    exact hs
  | cons op ops ih =>
    obtain ⟨t, ht, hrun⟩ := Option.bind_eq_some_iff.mp h
    exact ih (hstep s t op hs ht) hrun

/-- What every reachable state satisfies: objects stored under their own
address, and revision ids below the next one. -/
structure Consistent (s : StateDB) : Prop where
  wellAddressed : s.WellAddressed
  idsBelow : ∀ x ∈ s.validRevisions, x.id < s.nextRevisionId

theorem New_consistent (trie : Address → Option TrieAccount) : (New trie).Consistent := by
  refine ⟨fun a o hl => ?_, fun x hx => ?_⟩
  · simp [New, AList.lookup_empty] at hl
  · simp [New] at hx

theorem step_consistent (keccak : List UInt8 → Hash) {op : StateOp} (hc : s.Consistent)
    (h : s.step keccak op = some s') : s'.Consistent := by
  by_cases hop : op.journaled = true
  · have he := step_extends keccak hc.wellAddressed hop h
    exact ⟨he.wellAddressed, by rw [he.validRevisions, he.nextRevisionId]; exact hc.idsBelow⟩
  cases op
  case Snapshot =>
    obtain rfl := Option.some.inj h
    refine ⟨hc.wellAddressed, fun x hx => ?_⟩
    rcases List.mem_append.mp hx with hx | hx
    · exact Nat.lt_succ_of_lt (hc.idsBelow x hx)
    · rw [List.mem_singleton.mp hx]
      exact Nat.lt_succ_self _
  case RevertToSnapshot revid =>
    obtain ⟨hwa, hn, hsub⟩ := RevertToSnapshot_preserves hc.wellAddressed h
    exact ⟨hwa, fun x hx => hn ▸ hc.idsBelow x (hsub x hx)⟩
  all_goals exact absurd rfl hop

/-! ## Tracking a snapshot -/

/-- An element before position `j` of a pairwise related list is related to
the element at `j`. -/
theorem rel_of_mem_take {α : Type} {R : α → α → Prop} {l : List α} (hl : l.Pairwise R)
    {j : Nat} {x y : α} (hx : x ∈ l.take j) (hy : l[j]? = some y) : R x y := by
  rw [← List.take_append_drop j l] at hl
  have hy' : y ∈ l.drop j := List.mem_of_getElem? (i := 0) (by rwa [List.getElem?_drop])
  exact (List.pairwise_append.mp hl).2.2 x hx y hy'

/-- `s` tracks the snapshot taken at `s₀`: the journal extends the one at
`s₀` by a log that undoes back to `s₀`, and the revisions are those of `s₀`,
the snapshot's own, and later ones, taken at increasing journal lengths
between the snapshot's and the current one. -/
structure Tracks (s₀ s : StateDB) : Prop where
  logged : ∃ es, s.journal = s₀.journal ++ es ∧ Logged s₀ es s
  later : ∃ rest, s.validRevisions =
      s₀.validRevisions ++ ⟨s₀.nextRevisionId, s₀.journal.length⟩ :: rest ∧
    (∀ x ∈ rest, s₀.nextRevisionId < x.id ∧ s₀.journal.length ≤ x.journalIndex ∧
      x.journalIndex ≤ s.journal.length) ∧
    rest.Pairwise fun x y => x.journalIndex ≤ y.journalIndex

variable {s₀ : StateDB}

theorem Tracks.snapshot_self (s₀ : StateDB) : Tracks s₀ s₀.Snapshot.2 :=
  ⟨⟨[], by simp [Snapshot], .nil (snapshot_equiv s₀)⟩, [], by simp [Snapshot], by simp, .nil⟩

theorem Tracks.extend (htr : Tracks s₀ s) (he : Extends s s') : Tracks s₀ s' := by
  obtain ⟨⟨es, hj, hlog⟩, rest, hrevs, hrest, hsorted⟩ := htr
  obtain ⟨-, hr, -, fs, hj', hlog'⟩ := he
  refine ⟨⟨es ++ fs, by rw [hj', hj, List.append_assoc],
    UndoLog.Logged.append revert_respects equiv_equivalence hlog hlog'⟩,
    rest, by rw [hr, hrevs], fun x hx => ?_, hsorted⟩
  obtain ⟨hid, hk, hlen⟩ := hrest x hx
  exact ⟨hid, hk, hlen.trans (by simp [hj'])⟩

theorem Tracks.snapshot (htr : Tracks s₀ s) (hr : s₀.nextRevisionId < s.nextRevisionId) :
    Tracks s₀ s.Snapshot.2 := by
  obtain ⟨⟨es, hj, hlog⟩, rest, hrevs, hrest, hsorted⟩ := htr
  have hk : s₀.journal.length ≤ s.journal.length := by simp [hj]
  refine ⟨⟨es, hj, hlog.of_equiv revert_respects equiv_equivalence (snapshot_equiv s)⟩,
    rest ++ [⟨s.nextRevisionId, s.journal.length⟩], by simp [Snapshot, hrevs], fun x hx => ?_, ?_⟩
  · rcases List.mem_append.mp hx with hx | hx
    · exact hrest x hx
    · rw [List.mem_singleton.mp hx]
      exact ⟨hr, hk, le_rfl⟩
  · refine List.pairwise_append.mpr ⟨hsorted, List.pairwise_singleton _ _, fun x hx y hy => ?_⟩
    rw [List.mem_singleton.mp hy]
    exact (hrest x hx).2.2

/-- A revert from a tracking state drops the snapshot, or cuts the log at a
later revision and keeps tracking. -/
theorem Tracks.revert (hbelow : ∀ x ∈ s₀.validRevisions, x.id < s₀.nextRevisionId)
    (htr : Tracks s₀ s) {revid : Nat} (h : s.RevertToSnapshot revid = some s') :
    s₀.nextRevisionId ∉ s'.validRevisions.map Revision.id ∨ Tracks s₀ s' := by
  obtain ⟨idx, rev, u, hrev, -, hu, rfl⟩ := RevertToSnapshot_eq_some h
  obtain ⟨⟨es, hj, hlog⟩, rest, hrevs, hrest, hsorted⟩ := htr
  rw [hrevs] at hrev
  by_cases hidx : idx ≤ s₀.validRevisions.length
  · -- the snapshot itself or an earlier one: only earlier revisions stay
    left
    simp only [hrevs, List.take_append_of_le_length hidx, List.mem_map, not_exists, not_and]
    exact fun x hx hid => absurd hid (hbelow x (List.mem_of_mem_take hx)).ne
  · -- a later revision: the log is cut at its journal index
    right
    obtain ⟨j, rfl⟩ : ∃ j, idx = s₀.validRevisions.length + (j + 1) :=
      ⟨idx - s₀.validRevisions.length - 1, by omega⟩
    have hrevj : rest[j]? = some rev := by
      rwa [List.getElem?_append_right (by omega), Nat.add_sub_cancel_left,
        List.getElem?_cons_succ] at hrev
    obtain ⟨-, hk, hlen⟩ := hrest rev (List.mem_of_getElem? hrevj)
    obtain ⟨m, hm⟩ : ∃ m, rev.journalIndex = s₀.journal.length + m := ⟨_, (Nat.add_sub_cancel' hk).symm⟩
    rw [← List.take_append_drop m es] at hlog
    obtain ⟨v, hv, hlogv⟩ := UndoLog.Logged.undo_suffix revert_respects equiv_equivalence hlog
    have hu' : u = { v with journal := s₀.journal ++ es.take m } := by
      simp only [revertJournal, revertEntries_eq_undoAll, hj, hm, List.drop_length_add_append,
        List.take_length_add_append, hv, Option.map_some, Option.some.injEq] at hu
      exact hu.symm
    subst hu'
    have hmle : m ≤ es.length := by
      have := hlen
      rw [hj, hm, List.length_append] at this
      omega
    refine ⟨⟨es.take m, rfl,
      hlogv.of_equiv revert_respects equiv_equivalence (equiv_bookkeeping v _ _ _)⟩,
      rest.take j, ?_, fun x hx => ?_, hsorted.sublist (List.take_sublist _ _)⟩
    · simp [hrevs, List.take_length_add_append]
    · obtain ⟨hid, hkx, -⟩ := hrest x (List.mem_of_mem_take hx)
      have hx_le : x.journalIndex ≤ rev.journalIndex := rel_of_mem_take hsorted hx hrevj
      refine ⟨hid, hkx, ?_⟩
      simp only [List.length_append, List.length_take, min_eq_left hmle]
      omega

/-- A revert to the snapshot from a tracking state undoes the whole log. -/
theorem Tracks.revert_self (hbelow : ∀ x ∈ s₀.validRevisions, x.id < s₀.nextRevisionId)
    (htr : Tracks s₀ s) :
    ∃ s', s.RevertToSnapshot s₀.nextRevisionId = some s' ∧ s'.Equiv s₀ ∧
      s'.validRevisions = s₀.validRevisions ∧ s'.journal = s₀.journal := by
  obtain ⟨⟨es, hj, hlog⟩, rest, hrevs, -, -⟩ := htr
  obtain ⟨v, hv, hvs⟩ := hlog.undoAll revert_respects equiv_equivalence
  -- `sort.Search` passes over the earlier revisions and stops at the snapshot's
  have hidx : s.validRevisions.findIdx (fun x => decide (x.id ≥ s₀.nextRevisionId)) =
      s₀.validRevisions.length := by
    have hpre : s₀.validRevisions.findIdx (fun x => decide (x.id ≥ s₀.nextRevisionId)) =
        s₀.validRevisions.length :=
      List.findIdx_eq_length.mpr fun x hx => by simpa using hbelow x hx
    rw [hrevs, List.findIdx_append, hpre, List.findIdx_cons]
    simp
  have hu : s.revertJournal s₀.journal.length = some { v with journal := s₀.journal } := by
    simp [revertJournal, revertEntries_eq_undoAll, hj, hv]
  have hrev : s.validRevisions[s₀.validRevisions.length]? =
      some ⟨s₀.nextRevisionId, s₀.journal.length⟩ := by
    simp [hrevs]
  refine ⟨_, RevertToSnapshot_of_found hidx hrev rfl hu,
    equiv_equivalence.trans (equiv_bookkeeping v _ _ _) hvs, by simp [hrevs], rfl⟩

/-- The invariant of a run after `Snapshot` returned the id of `s₀`: the
objects stay well addressed, later snapshots take larger ids, and the state
tracks the snapshot unless its revision was dropped. -/
def AfterSnapshot (s₀ s : StateDB) : Prop :=
  s.WellAddressed ∧ s₀.nextRevisionId < s.nextRevisionId ∧
    (s₀.nextRevisionId ∉ s.validRevisions.map Revision.id ∨ Tracks s₀ s)

theorem AfterSnapshot.step (keccak : List UInt8 → Hash)
    (hbelow : ∀ x ∈ s₀.validRevisions, x.id < s₀.nextRevisionId) {op : StateOp}
    (hs : AfterSnapshot s₀ s) (h : s.step keccak op = some s') : AfterSnapshot s₀ s' := by
  obtain ⟨hwa, hr, hs⟩ := hs
  by_cases hop : op.journaled = true
  · have he := step_extends keccak hwa hop h
    exact ⟨he.wellAddressed, he.nextRevisionId ▸ hr,
      hs.imp (fun hd => he.validRevisions ▸ hd) (·.extend he)⟩
  cases op
  case Snapshot =>
    obtain rfl := Option.some.inj h
    refine ⟨hwa, Nat.lt_succ_of_lt hr, hs.imp (fun hd hmem => ?_) (·.snapshot hr)⟩
    simp only [Snapshot, List.map_append, List.map_cons, List.map_nil, List.mem_append,
      List.mem_singleton] at hmem
    rcases hmem with hmem | heq
    · exact hd hmem
    · exact hr.ne heq
  case RevertToSnapshot revid =>
    obtain ⟨hwa', hn, hsub⟩ := RevertToSnapshot_preserves hwa h
    refine ⟨hwa', hn ▸ hr, ?_⟩
    rcases hs with hd | htr
    · -- a dropped revision stays dropped: a revert only keeps a prefix
      refine .inl fun hmem => hd ?_
      obtain ⟨x, hx, hid⟩ := List.mem_map.mp hmem
      exact List.mem_map.mpr ⟨x, hsub x hx, hid⟩
    · exact htr.revert hbelow h
  all_goals exact absurd rfl hop

/-! ## What the accessors read -/

/-- The values of the accessors of a state. -/
structure Accessors where
  Exist : Address → Bool
  Empty : Address → Bool
  HasSuicided : Address → Bool
  GetBalance : Address → Int
  GetNonce : Address → Nat
  GetCode : Address → List UInt8
  GetCodeHash : Address → Hash
  GetCodeSize : Address → Nat
  GetState : Address → Hash → Hash
  GetRefund : Nat
  GetLogs : Hash → List Log
  Preimages : Hash → Option (List UInt8)

/-- What the accessors of `s` read. -/
def accessors (keccak : List UInt8 → Hash) (s : StateDB) : Accessors :=
  ⟨s.Exist, s.Empty keccak, s.HasSuicided, s.GetBalance, s.GetNonce, s.GetCode, s.GetCodeHash,
    s.GetCodeSize, s.GetState, s.GetRefund, s.GetLogs, s.Preimages⟩

/-- Whatever reads only the view of the object at an address reads the same
in equivalent states. -/
theorem Equiv.map_view {t : StateDB} (h : s.Equiv t) {β : Type} (g : ObjectView → β)
    (a : Address) :
    (s.getStateObject a).map (fun o => g o.view) = (t.getStateObject a).map (fun o => g o.view) := by
  have hv := congrArg (Option.map g) (h.objectView a)
  simp only [StateDB.objectView, Option.map_map] at hv
  exact hv

theorem Empty_eq (keccak : List UInt8 → Hash) (s : StateDB) (a : Address) :
    s.Empty keccak a = ((s.getStateObject a).map (·.empty keccak)).getD true := by
  unfold Empty
  cases s.getStateObject a <;> rfl

/-- Equivalent states are told apart by no accessor. -/
theorem Equiv.accessors (keccak : List UInt8 → Hash) {t : StateDB} (h : s.Equiv t) :
    s.accessors keccak = t.accessors keccak := by
  have hm := @Equiv.map_view _ _ h
  simp only [StateDB.accessors, Accessors.mk.injEq]
  refine ⟨funext fun a => ?_, funext fun a => ?_, funext fun a => ?_, funext fun a => ?_,
    funext fun a => ?_, funext fun a => ?_, funext fun a => ?_, funext fun a => ?_,
    funext fun a => funext fun k => ?_, h.refund, funext h.logs, funext h.preimages⟩
  · simpa [Exist, Option.isSome_map] using congrArg Option.isSome (hm (fun _ => ()) a)
  · rw [Empty_eq, Empty_eq]
    exact congrArg (Option.getD · true)
      (hm (fun v => v.Nonce == 0 && v.Balance == 0 && v.CodeHash == emptyCodeHash keccak) a)
  · exact congrArg (Option.getD · false) (hm ObjectView.suicided a)
  · exact congrArg (Option.getD · 0) (hm ObjectView.Balance a)
  · exact congrArg (Option.getD · 0) (hm ObjectView.Nonce a)
  · exact congrArg (Option.getD · []) (hm ObjectView.Code a)
  · exact congrArg (Option.getD · 0) (hm ObjectView.CodeHash a)
  · exact congrArg (Option.getD · 0) (hm (fun v => v.Code.length) a)
  · exact congrArg (Option.getD · 0) (hm (fun v => v.Storage k) a)

/-! ## Reverting to a snapshot -/

/-- `RevertToSnapshot r`, for a revision `r` that `Snapshot` returned and that
is still valid, succeeds and leaves a state whose accessors read what they read
when `Snapshot` returned `r`, with the revisions taken before `r` valid and
the journal as it was. -/
theorem RevertToSnapshot_restores (keccak : List UInt8 → Hash) (trie : Address → Option TrieAccount)
    (ops₁ ops₂ : List StateOp) {s₀ s₂ : StateDB}
    (h₁ : (New trie).run keccak ops₁ = some s₀) (h₂ : s₀.Snapshot.2.run keccak ops₂ = some s₂)
    (hvalid : s₀.Snapshot.1 ∈ s₂.validRevisions.map Revision.id) :
    ∃ s₃, s₂.RevertToSnapshot s₀.Snapshot.1 = some s₃ ∧
      s₃.accessors keccak = s₀.Snapshot.2.accessors keccak ∧
      s₃.validRevisions = s₀.validRevisions ∧ s₃.journal = s₀.journal := by
  have hc₀ : s₀.Consistent := run_inv keccak Consistent
    (fun _ _ _ hc h => step_consistent keccak hc h) (New_consistent trie) h₁
  have hstart : AfterSnapshot s₀ s₀.Snapshot.2 :=
    ⟨hc₀.wellAddressed, Nat.lt_succ_self _, .inr (Tracks.snapshot_self s₀)⟩
  obtain ⟨-, -, hdropped | htr⟩ := run_inv keccak (AfterSnapshot s₀)
    (fun _ _ _ hs h => AfterSnapshot.step keccak hc₀.idsBelow hs h) hstart h₂
  · exact absurd hvalid hdropped
  · obtain ⟨s₃, hrev, hequiv, hrevs, hj⟩ := htr.revert_self hc₀.idsBelow
    exact ⟨s₃, hrev, (hequiv.accessors keccak).trans ((snapshot_equiv s₀).accessors keccak).symm,
      hrevs, hj⟩

/-- A snapshot after a balance change, a nonce change, a nested snapshot and
another balance change, reverted to the outer snapshot. -/
theorem RevertToSnapshot_restores_nested :
    ∃ s₃, ((((New fun _ => none).AddBalance (fun _ => 0) 1 5).Snapshot.2.SetNonce (fun _ => 0) 1
        3).Snapshot.2.AddBalance (fun _ => 0) 2 7).RevertToSnapshot 0 = some s₃ ∧
      s₃.accessors (fun _ => 0) =
        ((New fun _ => none).AddBalance (fun _ => 0) 1 5).Snapshot.2.accessors (fun _ => 0) ∧
      s₃.validRevisions = [] ∧ s₃.journal = ((New fun _ => none).AddBalance (fun _ => 0) 1 5).journal :=
  RevertToSnapshot_restores (fun _ => 0) (fun _ => none) [.AddBalance 1 5]
    [.SetNonce 1 3, .Snapshot, .AddBalance 2 7] rfl rfl (by decide)

end StateDB

end Btp.State
