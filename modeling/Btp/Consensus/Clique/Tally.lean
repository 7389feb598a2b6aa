import Mathlib
import Btp.Consensus.Clique.Snapshot

/-!
# The vote tally of a Clique snapshot

`Snapshot.Tally` caches, for every account, the number of votes on it in
`Snapshot.Votes`. `apply` updates the cache by hand at each place where it
changes the votes: the reset at a checkpoint, a signer's re-vote on the same
account, a new vote, the purge of a deauthorised signer's votes, and the purge
of the votes on an account whose proposal passed. `VotesInv` says what the
cache has to satisfy; every step of `apply` keeps it, so it holds of every
snapshot reached from a checkpoint.
-/

namespace Btp.Clique

open ExceptRun

/-- The number of votes on `a`. -/
def votesOn (votes : List Vote) (a : Address) : Nat :=
  votes.countP fun v => v.Address == a

@[simp] theorem votesOn_nil (a : Address) : votesOn [] a = 0 := rfl

@[simp] theorem votesOn_append (l₁ l₂ : List Vote) (a : Address) :
    votesOn (l₁ ++ l₂) a = votesOn l₁ a + votesOn l₂ a :=
  List.countP_append

@[simp] theorem votesOn_cons (v : Vote) (l : List Vote) (a : Address) :
    votesOn (v :: l) a = votesOn l a + if v.Address = a then 1 else 0 := by
  simp [votesOn, List.countP_cons]

theorem votesOn_eq_zero {votes : List Vote} {a : Address} :
    votesOn votes a = 0 ↔ ∀ v ∈ votes, v.Address ≠ a := by
  simp [votesOn, List.countP_eq_zero]

/-- The tally entry of one account agrees with the votes on it: there is no
entry and no vote, or the entry counts the votes, all cast its way. -/
def TallyCounts (votes : List Vote) (a : Address) : Option Tally → Prop
  | none => ∀ v ∈ votes, v.Address ≠ a
  | some t => 0 < t.Votes ∧ t.Votes = votesOn votes a ∧
      ∀ v ∈ votes, v.Address = a → v.Authorize = t.Authorize

/-- The part of the invariant that does not involve the signer list: the
tally counts the votes, and no signer has two votes on one account. -/
structure Snapshot.Counted (s : Snapshot) : Prop where
  counts : ∀ a, TallyCounts s.Votes a (s.Tally.lookup a)
  nodup : (s.Votes.map fun v => (v.Signer, v.Address)).Nodup

/-- The invariant of the votes and their tally. -/
structure Snapshot.VotesInv (s : Snapshot) : Prop extends Snapshot.Counted s where
  /-- A proposal is to authorise exactly the accounts that are not signers. -/
  authorize : ∀ a t, s.Tally.lookup a = some t → (t.Authorize = true ↔ a ∉ s.Signers)
  /-- Only current signers have votes. -/
  signer : ∀ v ∈ s.Votes, v.Signer ∈ s.Signers

/-! ## One account's entry -/

/-- An entry still agrees with a list of votes that holds only votes of the
old list on its account, as many as before. -/
theorem TallyCounts.mono {votes votes' : List Vote} {a : Address} {o : Option Tally}
    (h : TallyCounts votes a o) (hsub : ∀ v ∈ votes', v.Address = a → v ∈ votes)
    (hcount : votesOn votes' a = votesOn votes a) : TallyCounts votes' a o := by
  cases o with
  | none => exact fun v hv ha => h v (hsub v hv ha) ha
  | some t =>
    obtain ⟨hpos, hvotes, hauth⟩ := h
    exact ⟨hpos, hcount ▸ hvotes, fun v hv ha => hauth v (hsub v hv ha) ha⟩

/-- Filtering keeps the count on an account whose votes the filter keeps. -/
theorem votesOn_filter {votes : List Vote} {a : Address} {q : Vote → Bool}
    (hq : ∀ v ∈ votes, v.Address = a → q v = true) :
    votesOn (votes.filter q) a = votesOn votes a := by
  rw [votesOn, votesOn, List.countP_filter]
  apply List.countP_congr
  intro v hv
  by_cases ha : v.Address = a
  · simp [ha, hq v hv ha]
  · simp [ha]

theorem TallyCounts.votesOn_eq_zero {votes : List Vote} {a : Address}
    (h : TallyCounts votes a none) : votesOn votes a = 0 :=
  Clique.votesOn_eq_zero.mpr h

/-! ## `cast` and `uncast` -/

section Cast

variable (s : Snapshot)

theorem validVote_iff (a : Address) (b : Bool) :
    s.validVote a b = true ↔ (b = true ↔ a ∉ s.Signers) := by
  unfold Snapshot.validVote
  by_cases h : a ∈ s.Signers <;> cases b <;> simp [h]

/-- The entry a valid vote leaves: one more vote on an existing proposal, or
a new proposal with one vote. -/
def castEntry (old : Option Tally) (authorize : Bool) : Tally :=
  (old.map fun t => { t with Votes := t.Votes + 1 }).getD ⟨authorize, 1⟩

theorem cast_of_valid {a : Address} {b : Bool} (h : s.validVote a b = true) :
    s.cast a b = (true, { s with Tally := s.Tally.insert a (castEntry (s.Tally.lookup a) b) }) := by
  unfold Snapshot.cast
  rw [if_neg (by simp [h])]
  cases s.Tally.lookup a <;> rfl

theorem cast_of_invalid {a : Address} {b : Bool} (h : s.validVote a b = false) :
    s.cast a b = (false, s) := by
  unfold Snapshot.cast
  rw [if_pos (by simp [h])]

theorem uncast_lookup_ne {a c : Address} (b : Bool) (h : c ≠ a) :
    (s.uncast a b).2.Tally.lookup c = s.Tally.lookup c := by
  unfold Snapshot.uncast
  split
  · rfl
  · split_ifs
    · rfl
    · exact AList.lookup_insert_ne h
    · exact AList.lookup_erase_ne h

/-- Uncasting a vote in the proposal's direction takes one vote off it, and
deletes the proposal with its last vote. -/
theorem uncast_lookup_self {a : Address} {t : Tally} (ht : s.Tally.lookup a = some t) :
    (s.uncast a t.Authorize).2.Tally.lookup a =
      if 1 < t.Votes then some { t with Votes := t.Votes - 1 } else none := by
  unfold Snapshot.uncast
  rw [ht]
  dsimp only
  rw [if_neg (not_not.mpr rfl)]
  split_ifs
  · exact AList.lookup_insert _
  · exact AList.lookup_erase _ _

/-- `uncast` creates no proposal and turns none around. -/
theorem uncast_lookup_some (a : Address) (b : Bool) {c : Address} {t : Tally}
    (h : (s.uncast a b).2.Tally.lookup c = some t) :
    ∃ t', s.Tally.lookup c = some t' ∧ t'.Authorize = t.Authorize := by
  by_cases hc : c = a
  · subst hc
    unfold Snapshot.uncast at h
    split at h
    · exact ⟨t, h, rfl⟩
    · rename_i tally htally
      split_ifs at h
      · exact ⟨t, h, rfl⟩
      · rw [AList.lookup_insert, Option.some_inj] at h
        exact ⟨tally, htally, by rw [← h]⟩
      · rw [AList.lookup_erase] at h
        cases h
  · rw [uncast_lookup_ne s b hc] at h
    exact ⟨t, h, rfl⟩

end Cast

/-! ## Removing one vote with `uncast` -/

section Remove

variable {s : Snapshot} {pre post : List Vote} {v : Vote}

/-- Removing a vote from the list and uncasting it from the tally keeps the
tally counting the votes. This is the update of a re-vote and of the purge of
a deauthorised signer's votes. -/
theorem Snapshot.Counted.uncast_remove (hs : s.Counted) (hv : s.Votes = pre ++ v :: post) :
    ({ (s.uncast v.Address v.Authorize).2 with Votes := pre ++ post } : Snapshot).Counted := by
  obtain ⟨hcounts, hnodup⟩ := hs
  have hsub : ∀ w ∈ pre ++ post, w ∈ s.Votes := by
    intro w hw
    rw [hv]
    simp only [List.mem_append, List.mem_cons] at hw ⊢
    tauto
  have hv_mem : v ∈ s.Votes := by simp [hv]
  constructor
  · intro a
    show TallyCounts (pre ++ post) a ((s.uncast v.Address v.Authorize).2.Tally.lookup a)
    by_cases ha : a = v.Address
    · subst ha
      -- the proposal on the removed vote's account exists and points its way
      have hc := hcounts v.Address
      cases ht : s.Tally.lookup v.Address with
      | none =>
        rw [ht] at hc
        exact absurd rfl (hc v hv_mem)
      | some t =>
        rw [ht] at hc
        obtain ⟨hpos, hvotes, hauth⟩ := hc
        have hdir : v.Authorize = t.Authorize := hauth v hv_mem rfl
        have hcount : votesOn (pre ++ post) v.Address + 1 = t.Votes := by
          rw [hvotes, hv]
          simp
          omega
        rw [hdir, uncast_lookup_self s ht]
        split_ifs with hmore
        · refine ⟨show 0 < t.Votes - 1 by omega, show t.Votes - 1 = _ by omega, ?_⟩
          intro w hw hwa
          exact hauth w (hsub w hw) hwa
        · have hzero : votesOn (pre ++ post) v.Address = 0 := by omega
          exact votesOn_eq_zero.mp hzero
    · rw [uncast_lookup_ne s _ ha]
      apply (hcounts a).mono (fun w hw _ => hsub w hw)
      rw [hv]
      simp [Ne.symm ha]
  · show ((pre ++ post).map _).Nodup
    rw [hv] at hnodup
    apply List.Nodup.sublist _ hnodup
    apply List.Sublist.map
    exact List.Sublist.append_left (List.sublist_cons_self v post) pre

theorem Snapshot.Counted.uncast_eraseIdx (hs : s.Counted) {i : Nat} (hi : i < s.Votes.length) :
    ({ (s.uncast s.Votes[i].Address s.Votes[i].Authorize).2 with
        Votes := s.Votes.eraseIdx i } : Snapshot).Counted := by
  have hv : s.Votes = s.Votes.take i ++ s.Votes[i] :: s.Votes.drop (i + 1) := by
    rw [List.getElem_cons_drop, List.take_append_drop]
  rw [List.eraseIdx_eq_take_drop_succ]
  exact hs.uncast_remove hv

theorem Snapshot.VotesInv.uncast_remove (hs : s.VotesInv) (hv : s.Votes = pre ++ v :: post) :
    ({ (s.uncast v.Address v.Authorize).2 with Votes := pre ++ post } : Snapshot).VotesInv where
  toCounted := hs.toCounted.uncast_remove hv
  authorize a t ht := by
    obtain ⟨t', ht', hdir⟩ := uncast_lookup_some s _ _ ht
    show t.Authorize = true ↔ a ∉ (s.uncast v.Address v.Authorize).2.Signers
    rw [← hdir, uncast_Signers]
    exact hs.authorize a t' ht'
  signer w hw := by
    show w.Signer ∈ (s.uncast v.Address v.Authorize).2.Signers
    rw [uncast_Signers]
    apply hs.signer w
    rw [hv]
    simp only [List.mem_append, List.mem_cons] at hw ⊢
    tauto

end Remove

/-! ## The steps of `apply` -/

section Steps

variable {s : Snapshot}

/-- The invariant reads only the signers, the votes and the tally. -/
theorem Snapshot.VotesInv.of_eq {s' : Snapshot} (hs : s.VotesInv) (hS : s'.Signers = s.Signers)
    (hV : s'.Votes = s.Votes) (hT : s'.Tally = s.Tally) : s'.VotesInv := by
  obtain ⟨⟨hcounts, hnodup⟩, hauth, hsigner⟩ := hs
  refine ⟨⟨?_, ?_⟩, ?_, ?_⟩
  · rw [hV, hT]; exact hcounts
  · rw [hV]; exact hnodup
  · rw [hT, hS]; exact hauth
  · rw [hV, hS]; exact hsigner

/-- A snapshot without votes and tallies satisfies the invariant. -/
theorem Snapshot.VotesInv.of_empty (hV : s.Votes = []) (hT : s.Tally = ∅) : s.VotesInv where
  counts a := by
    rw [hT, hV, AList.lookup_empty]
    exact fun _ hv => absurd hv List.not_mem_nil
  nodup := by
    rw [hV]
    exact List.nodup_nil
  authorize a t h := by
    rw [hT, AList.lookup_empty] at h
    cases h
  signer v hv := by
    rw [hV] at hv
    exact absurd hv List.not_mem_nil

theorem VotesInv.newSnapshot (number : Nat) (hash : Btp.Hash) (signers : List Address) :
    (newSnapshot number hash signers).VotesInv :=
  Snapshot.VotesInv.of_empty rfl rfl

theorem Snapshot.VotesInv.beginHeader (hs : s.VotesInv) (cfg : CliqueConfig) (number : Nat) :
    (s.beginHeader cfg number).VotesInv := by
  unfold Snapshot.beginHeader
  dsimp only
  split_ifs with hepoch
  · -- a checkpoint drops every vote and the whole tally
    exact Snapshot.VotesInv.of_empty (by simp) (by simp)
  · exact hs.of_eq (by simp) (by simp) (by simp)

theorem Snapshot.VotesInv.discardVote (hs : s.VotesInv) (signer a : Address) :
    (s.discardVote signer a).VotesInv := by
  unfold Snapshot.discardVote
  split
  · rename_i vote hfind
    obtain ⟨l₁, l₂, -, hl, herase⟩ := List.exists_erase_eq (List.mem_of_find?_eq_some hfind)
    rw [herase]
    exact hs.uncast_remove hl
  · exact hs

/-- After the re-vote step the signer has no vote left on the account: the
step removes the first one, and there was at most one. -/
theorem Snapshot.Counted.discardVote_fresh (hs : s.Counted) (signer a : Address) :
    ∀ v ∈ (s.discardVote signer a).Votes, ¬(v.Signer = signer ∧ v.Address = a) := by
  unfold Snapshot.discardVote
  split
  · rename_i vote hfind
    have hp := List.find?_some hfind
    simp only [Bool.and_eq_true, beq_iff_eq] at hp
    obtain ⟨l₁, l₂, -, hl, herase⟩ := List.exists_erase_eq (List.mem_of_find?_eq_some hfind)
    have hnodup := hs.nodup
    rw [hl, List.map_append, List.map_cons, List.nodup_middle, List.nodup_cons,
      ← List.map_append] at hnodup
    intro v hv ⟨hvs, hva⟩
    rw [herase] at hv
    apply hnodup.1
    exact List.mem_map.mpr ⟨v, hv, by rw [hvs, hva, hp.1, hp.2]⟩
  · rename_i hfind
    intro v hv ⟨hvs, hva⟩
    have hnot := List.find?_eq_none.mp hfind v hv
    simp [hvs, hva] at hnot

/-- A vote by a signer without another vote on the account keeps the
invariant, whether `cast` counts it or rejects it. -/
theorem Snapshot.VotesInv.castVote (hs : s.VotesInv) (vote : Vote)
    (hsig : vote.Signer ∈ s.Signers)
    (hfresh : ∀ v ∈ s.Votes, ¬(v.Signer = vote.Signer ∧ v.Address = vote.Address)) :
    (s.castVote vote).VotesInv := by
  unfold Snapshot.castVote
  cases hvalid : s.validVote vote.Address vote.Authorize with
  | false =>
    rw [cast_of_invalid s hvalid]
    exact hs
  | true =>
    rw [cast_of_valid s hvalid]
    dsimp only
    have hdir := (validVote_iff s _ _).mp hvalid
    obtain ⟨⟨hcounts, hnodup⟩, hauth, hsigner⟩ := hs
    -- the votes of the new list on an account other than the vote's are old votes
    have hold : ∀ a, a ≠ vote.Address → ∀ w ∈ s.Votes ++ [vote], w.Address = a → w ∈ s.Votes := by
      intro a ha w hw hwa
      simp only [List.mem_append, List.mem_singleton] at hw
      rcases hw with hw | rfl
      · exact hw
      · exact absurd hwa.symm ha
    refine ⟨⟨?_, ?_⟩, ?_, ?_⟩
    · intro a
      show TallyCounts (s.Votes ++ [vote]) a
        ((s.Tally.insert vote.Address (castEntry (s.Tally.lookup vote.Address) vote.Authorize)).lookup a)
      by_cases ha : a = vote.Address
      · subst ha
        rw [AList.lookup_insert]
        have hc := hcounts vote.Address
        cases hentry : s.Tally.lookup vote.Address with
        | none =>
          rw [hentry] at hc
          refine ⟨Nat.one_pos, by simp [castEntry, hc.votesOn_eq_zero], ?_⟩
          intro w hw hwa
          simp only [List.mem_append, List.mem_singleton] at hw
          rcases hw with hw | rfl
          · exact absurd hwa (hc w hw)
          · rfl
        | some t =>
          rw [hentry] at hc
          obtain ⟨hpos, hvotes, hauth'⟩ := hc
          -- both the vote and the proposal point away from the current membership
          have hsame : vote.Authorize = t.Authorize :=
            Bool.eq_iff_iff.mpr (hdir.trans (hauth _ t hentry).symm)
          refine ⟨by simp [castEntry], by simp [castEntry, hvotes], ?_⟩
          intro w hw hwa
          simp only [List.mem_append, List.mem_singleton] at hw
          rcases hw with hw | rfl
          · exact hauth' w hw hwa
          · exact hsame
      · rw [AList.lookup_insert_ne ha]
        apply (hcounts a).mono (hold a ha)
        simp [Ne.symm ha]
    · show ((s.Votes ++ [vote]).map _).Nodup
      rw [List.map_append, List.nodup_append_comm]
      simp only [List.map_cons, List.map_nil, List.singleton_append, List.nodup_cons]
      refine ⟨?_, hnodup⟩
      intro hmem
      obtain ⟨w, hw, heq⟩ := List.mem_map.mp hmem
      exact hfresh w hw (Prod.mk.inj heq)
    · intro a t ht
      show t.Authorize = true ↔ a ∉ s.Signers
      by_cases ha : a = vote.Address
      · subst ha
        change (s.Tally.insert vote.Address
          (castEntry (s.Tally.lookup vote.Address) vote.Authorize)).lookup vote.Address = some t at ht
        rw [AList.lookup_insert, Option.some_inj] at ht
        subst ht
        cases hentry : s.Tally.lookup vote.Address with
        | none => exact hdir
        | some t' => exact hauth vote.Address t' hentry
      · change (s.Tally.insert vote.Address _).lookup a = some t at ht
        rw [AList.lookup_insert_ne ha] at ht
        exact hauth a t ht
    · intro w hw
      simp only [List.mem_append, List.mem_singleton] at hw
      rcases hw with hw | rfl
      · exact hsigner w hw
      · exact hsig

theorem Snapshot.VotesInv.castHeader (hs : s.VotesInv) {cfg : CliqueConfig}
    {ecrecover : Header → Option Address} {header : Header} {s' : Snapshot}
    (h : s.castHeader cfg ecrecover header = .ok s') : s'.VotesInv := by
  obtain ⟨signer, authorize, -, hcheck, -, rfl⟩ := castHeader_ok h
  have hsig := (checkSigner_ok.mp hcheck).1
  have h₁ := hs.beginHeader cfg header.Number
  -- recording the signer among the recents leaves the votes alone
  have h₂ : ({ s.beginHeader cfg header.Number with
      Recents := (s.beginHeader cfg header.Number).Recents.insert header.Number signer } :
      Snapshot).VotesInv := h₁.of_eq rfl rfl rfl
  apply (h₂.discardVote signer header.Coinbase).castVote
  · rw [discardVote_Signers]
    exact hsig
  · exact h₂.toCounted.discardVote_fresh signer header.Coinbase

/-! ## A passed proposal -/

/-- The purge of a deauthorised signer's votes keeps the tally counting. -/
theorem Snapshot.Counted.dropVotes_uncast (hs : s.Counted) (p : Vote → Bool) (i : Nat) :
    (s.dropVotes p (fun s v => (s.uncast v.Address v.Authorize).2) i).Counted :=
  dropVotes_induction p _ Snapshot.Counted (fun _ _ hj _ hs' => hs'.uncast_eraseIdx hj) s i hs

/-- The purge creates no proposal and turns none around. -/
theorem dropVotes_uncast_lookup_some (p : Vote → Bool) (i : Nat) {a : Address} {t : Tally}
    (h : (s.dropVotes p (fun s v => (s.uncast v.Address v.Authorize).2) i).Tally.lookup a = some t) :
    ∃ t', s.Tally.lookup a = some t' ∧ t'.Authorize = t.Authorize := by
  -- the entries after each deletion come from entries before it, in the same direction
  have key := dropVotes_induction p (fun s v => (s.uncast v.Address v.Authorize).2)
    (fun s' => ∀ a t, s'.Tally.lookup a = some t →
      ∃ t', s.Tally.lookup a = some t' ∧ t'.Authorize = t.Authorize)
    (by
      intro s' j hj _ hs' a t ht
      obtain ⟨t₁, ht₁, hdir₁⟩ := uncast_lookup_some s' _ _ ht
      obtain ⟨t₂, ht₂, hdir₂⟩ := hs' a t₁ ht₁
      exact ⟨t₂, ht₂, hdir₂.trans hdir₁⟩)
    s i (fun a t ht => ⟨t, ht, rfl⟩)
  exact key a t h

/-- Dropping every vote on `c` and its proposal restores the invariant where
it held away from `c`. -/
theorem Snapshot.VotesInv.clear (c : Address) (hs : s.Counted)
    (hauth : ∀ a t, a ≠ c → s.Tally.lookup a = some t → (t.Authorize = true ↔ a ∉ s.Signers))
    (hsigner : ∀ v ∈ s.Votes, v.Signer ∈ s.Signers) :
    ({ s with Votes := s.Votes.filter (fun v => !(v.Address == c)),
              Tally := s.Tally.erase c } : Snapshot).VotesInv := by
  obtain ⟨hcounts, hnodup⟩ := hs
  have hsub : ∀ v ∈ s.Votes.filter (fun v => !(v.Address == c)), v ∈ s.Votes :=
    fun v hv => (List.mem_filter.mp hv).1
  refine ⟨⟨?_, ?_⟩, ?_, ?_⟩
  · intro a
    show TallyCounts (s.Votes.filter _) a ((s.Tally.erase c).lookup a)
    by_cases ha : a = c
    · subst ha
      rw [AList.lookup_erase]
      intro v hv
      simpa using (List.mem_filter.mp hv).2
    · rw [AList.lookup_erase_ne ha]
      apply (hcounts a).mono (fun v hv _ => hsub v hv)
      apply votesOn_filter
      intro v _ hva
      simp [hva, ha]
  · exact List.Nodup.sublist (List.Sublist.map _ List.filter_sublist) hnodup
  · intro a t ht
    by_cases ha : a = c
    · subst ha
      change (s.Tally.erase a).lookup a = some t at ht
      rw [AList.lookup_erase] at ht
      cases ht
    · change (s.Tally.erase c).lookup a = some t at ht
      rw [AList.lookup_erase_ne ha] at ht
      exact hauth a t ha ht
  · exact fun v hv => hsigner v (hsub v hv)

theorem Snapshot.VotesInv.passVote (hs : s.VotesInv) (number : Nat) (c : Address) :
    (s.passVote number c).VotesInv := by
  unfold Snapshot.passVote
  dsimp only
  split_ifs with hpass hauthorize
  · -- `c` joins the signers
    rw [dropVotes_self]
    have h₁ : ({ s with Signers := insert c s.Signers } : Snapshot).Counted :=
      ⟨hs.counts, hs.nodup⟩
    apply Snapshot.VotesInv.clear c h₁
    · intro a t hac ht
      show t.Authorize = true ↔ a ∉ insert c s.Signers
      rw [Finset.mem_insert, hs.authorize a t ht]
      simp [hac]
    · intro v hv
      exact Finset.mem_insert_of_mem (hs.signer v hv)
  · -- `c` leaves the signers; its own votes are uncast and dropped first
    rw [dropVotes_self]
    set s₁ : Snapshot := ({ s with Signers := s.Signers.erase c } : Snapshot).forgetRecent number
    have h₁ : s₁.Counted := ⟨by simpa [s₁] using hs.counts, by simpa [s₁] using hs.nodup⟩
    apply Snapshot.VotesInv.clear c (h₁.dropVotes_uncast _ 0)
    · intro a t hac ht
      obtain ⟨t', ht', hdir⟩ := dropVotes_uncast_lookup_some _ 0 ht
      rw [dropVotes_field Snapshot.Signers _ _ (fun _ _ => uncast_Signers ..) (fun _ _ => rfl),
        ← hdir]
      simp only [s₁, forgetRecent_Signers, Finset.mem_erase, hac, ne_eq, not_false_eq_true,
        true_and]
      exact hs.authorize a t' (by simpa [s₁] using ht')
    · intro v hv
      rw [dropVotes_zero_Votes, List.mem_filter] at hv
      rw [dropVotes_field Snapshot.Signers _ _ (fun _ _ => uncast_Signers ..) (fun _ _ => rfl)]
      simp only [s₁, forgetRecent_Signers, Finset.mem_erase]
      refine ⟨by simpa using hv.2, hs.signer v (by simpa [s₁] using hv.1)⟩
  · exact hs

/-- Once a proposal passes, no vote and no tally on its account remain. -/
theorem passVote_clears (s : Snapshot) (number : Nat) (c : Address)
    (hpass : s.Signers.card / 2 < ((s.Tally.lookup c).getD ⟨false, 0⟩).Votes) :
    (s.passVote number c).Tally.lookup c = none ∧
      ∀ v ∈ (s.passVote number c).Votes, v.Address ≠ c := by
  unfold Snapshot.passVote
  dsimp only
  rw [if_pos hpass, dropVotes_self]
  refine ⟨AList.lookup_erase _ _, ?_⟩
  intro v hv
  simpa using (List.mem_filter.mp hv).2

/-! ## Whole runs -/

theorem Snapshot.VotesInv.applyHeader (hs : s.VotesInv) {cfg : CliqueConfig}
    {ecrecover : Header → Option Address} {header : Header} {s' : Snapshot}
    (h : s.applyHeader cfg ecrecover header = .ok s') : s'.VotesInv := by
  obtain ⟨s₁, h₁, rfl⟩ := applyHeader_ok.mp h
  exact (hs.castHeader h₁).passVote _ _

theorem Snapshot.VotesInv.apply (hs : s.VotesInv) {cfg : CliqueConfig}
    {ecrecover : Header → Option Address} {headerHash : Header → Btp.Hash}
    {headers : List Header} {s' : Snapshot}
    (h : s.apply cfg ecrecover headerHash headers = .ok s') : s'.VotesInv := by
  rcases apply_ok h with ⟨-, rfl⟩ | ⟨first, rest, snap, -, -, -, hfold, rfl⟩
  · exact hs
  · have hsnap : snap.VotesInv :=
      foldlM_ok_inv Snapshot.VotesInv (fun _ _ _ hx hp => hp.applyHeader hx) _ hfold hs
    exact hsnap.of_eq rfl rfl rfl

theorem Reachable.votesInv {cfg : CliqueConfig} {ecrecover : Header → Option Address}
    {headerHash : Header → Btp.Hash} {s : Snapshot}
    (hs : Reachable cfg ecrecover headerHash s) : s.VotesInv := by
  induction hs with
  | checkpoint number hash signers => exact VotesInv.newSnapshot number hash signers
  | apply headers _ happly ih => exact ih.apply happly

end Steps


/-! ## The tally of a reachable snapshot -/

/-- In every snapshot reached from a checkpoint, a proposal exists exactly
for the accounts with votes, counts them and shares their direction, and is
to authorise exactly the non-signers; every vote is by a current signer and
no signer votes twice on one account. Whenever a proposal passes, no vote
and no proposal on its account remain. -/
theorem reachable_tally_consistent (cfg : CliqueConfig) (ecrecover : Header → Option Address)
    (headerHash : Header → Btp.Hash) (s : Snapshot)
    (hs : Reachable cfg ecrecover headerHash s) :
    (∀ a, (∃ t, s.Tally.lookup a = some t) ↔ ∃ v ∈ s.Votes, v.Address = a) ∧
    (∀ a t, s.Tally.lookup a = some t →
      t.Votes = s.Votes.countP (fun v => v.Address == a) ∧
      ∀ v ∈ s.Votes, v.Address = a → v.Authorize = t.Authorize) ∧
    (∀ a t, s.Tally.lookup a = some t → (t.Authorize = true ↔ a ∉ s.Signers)) ∧
    (∀ v ∈ s.Votes, v.Signer ∈ s.Signers) ∧
    (s.Votes.map fun v => (v.Signer, v.Address)).Nodup ∧
    ∀ (t : Snapshot) (number : Nat) (coinbase : Address),
      t.Signers.card / 2 < ((t.Tally.lookup coinbase).getD ⟨false, 0⟩).Votes →
      (t.passVote number coinbase).Tally.lookup coinbase = none ∧
      ∀ v ∈ (t.passVote number coinbase).Votes, v.Address ≠ coinbase := by
  have hinv := hs.votesInv
  refine ⟨?_, ?_, hinv.authorize, hinv.signer, hinv.nodup, passVote_clears⟩
  · intro a
    have hc := hinv.counts a
    constructor
    · rintro ⟨t, ht⟩
      rw [ht] at hc
      obtain ⟨hpos, hvotes, -⟩ := hc
      -- a positive count has a vote behind it
      by_contra hnone
      have hzero : votesOn s.Votes a = 0 :=
        votesOn_eq_zero.mpr fun v hv hva => hnone ⟨v, hv, hva⟩
      omega
    · rintro ⟨v, hv, hva⟩
      cases ht : s.Tally.lookup a with
      | none =>
        rw [ht] at hc
        exact absurd hva (hc v hv)
      | some t => exact ⟨t, rfl⟩
  · intro a t ht
    have hc := hinv.counts a
    rw [ht] at hc
    exact ⟨hc.2.1, hc.2.2⟩

theorem number_one_lt : (1 : Nat) < 2 ^ 64 := by decide

theorem number_two_lt : (2 : Nat) < 2 ^ 64 := by decide

/-- Two blocks after a checkpoint of the signers `1, 2, 3`: signer `1`
proposes to authorise `9`, signer `2` to drop `3`. -/
def proposingHeaders : List Header :=
  [⟨1, number_one_lt, 9, nonceAuthVote, 2, [1]⟩, ⟨2, number_two_lt, 3, nonceDropVote, 2, [2]⟩]

/-- After the two proposals both tallies are open, one vote each, and the
snapshot they leave is consistent. -/
theorem reachable_tally_consistent_after_two_proposals :
    ∃ s, (newSnapshot 0 0 [1, 2, 3]).apply sealConfig sealSigner (fun _ => 0) proposingHeaders =
        .ok s ∧
      s.Tally.lookup 9 = some ⟨true, 1⟩ ∧ s.Tally.lookup 3 = some ⟨false, 1⟩ ∧
      (∀ a, (∃ t, s.Tally.lookup a = some t) ↔ ∃ v ∈ s.Votes, v.Address = a) ∧
      ∀ a t, s.Tally.lookup a = some t → (t.Authorize = true ↔ a ∉ s.Signers) := by
  have hok : ((newSnapshot 0 0 [1, 2, 3]).apply sealConfig sealSigner (fun _ => 0)
      proposingHeaders).toOption.map (fun s => (s.Tally.lookup 9, s.Tally.lookup 3)) =
      some (some ⟨true, 1⟩, some ⟨false, 1⟩) := by
    decide +kernel
  match h : (newSnapshot 0 0 [1, 2, 3]).apply sealConfig sealSigner (fun _ => 0) proposingHeaders,
    hok with
  | .ok s, hs =>
    have hreach : Reachable sealConfig sealSigner (fun _ => 0) s :=
      .apply proposingHeaders (.checkpoint 0 0 [1, 2, 3]) h
    obtain ⟨hexists, -, hauth, -⟩ := reachable_tally_consistent _ _ _ s hreach
    obtain ⟨h9, h3⟩ := Prod.mk.inj (Option.some.inj hs)
    exact ⟨s, rfl, h9, h3, hexists, hauth⟩

end Btp.Clique
