import Mathlib
import Btp.Consensus.Clique.Clique

/-!
# The recent-signer window

`Snapshot.Recents` records the signer of each block in a window of the last
`limit = len(Signers)/2 + 1` blocks, so that a signer cannot sign again until
its block has left the window. `apply` keeps the window by deleting the block
that falls out of it before each header, and once more when a signer is
dropped and the window shrinks.

The recents of a snapshot reached from a checkpoint lie in the window and
name distinct signers. With that, the check `apply` makes and the one
`verifySeal` makes on the parent snapshot agree once the chain has `limit`
blocks; before that, `number - limit` wraps in `verifySeal` and the two
disagree.
-/

namespace Btp.Clique

open ExceptRun

/-- Every recorded block is one of the `limit` blocks up to `number`. -/
def InWindow (recents : GoMap Nat Address) (number limit : Nat) : Prop :=
  ∀ k x, recents.lookup k = some x → k ≤ number ∧ number < k + limit

/-- No signer is recorded for two blocks. -/
def Distinct (recents : GoMap Nat Address) : Prop :=
  ∀ k k' x, recents.lookup k = some x → recents.lookup k' = some x → k = k'

/-- The recents of a snapshot whose last block is `number`. -/
structure Snapshot.RecentsWindow (s : Snapshot) (number : Nat) : Prop where
  window : InWindow s.Recents number (s.Signers.card / 2 + 1)
  distinct : Distinct s.Recents

/-! ## Moving the window -/

section Window

variable {R : GoMap Nat Address} {n L : Nat}

theorem lookup_erase_some {m k : Nat} {x : Address} (h : (R.erase m).lookup k = some x) :
    k ≠ m ∧ R.lookup k = some x := by
  by_cases hkm : k = m
  · subst hkm
    rw [AList.lookup_erase] at h
    cases h
  · rw [AList.lookup_erase_ne hkm] at h
    exact ⟨hkm, h⟩

theorem InWindow.mono (h : InWindow R n L) {L' : Nat} (hL : L ≤ L') : InWindow R n L' := by
  intro k x hk
  obtain ⟨h₁, h₂⟩ := h k x hk
  exact ⟨h₁, by omega⟩

/-- The next block moves the window up by one and, until a block is
forgotten, makes it one longer. -/
theorem InWindow.succ (h : InWindow R n L) : InWindow R (n + 1) (L + 1) := by
  intro k x hk
  obtain ⟨h₁, h₂⟩ := h k x hk
  exact ⟨by omega, by omega⟩

/-- Forgetting block `number - limit` shortens the window by one. -/
theorem InWindow.forget (h : InWindow R n (L + 1)) :
    InWindow (if L ≤ n then R.erase (n - L) else R) n L := by
  intro k x hk
  split_ifs at hk with hL
  · obtain ⟨hne, hk⟩ := lookup_erase_some hk
    obtain ⟨h₁, h₂⟩ := h k x hk
    exact ⟨h₁, by omega⟩
  · obtain ⟨h₁, h₂⟩ := h k x hk
    exact ⟨h₁, by omega⟩

theorem InWindow.insert (h : InWindow R n L) (hL : 0 < L) (x : Address) :
    InWindow (R.insert n x) n L := by
  intro k y hk
  by_cases hkn : k = n
  · subst hkn
    exact ⟨le_refl k, by omega⟩
  · rw [AList.lookup_insert_ne hkn] at hk
    exact h k y hk

theorem Distinct.erase (h : Distinct R) (m : Nat) : Distinct (R.erase m) :=
  fun k k' x hk hk' => h k k' x (lookup_erase_some hk).2 (lookup_erase_some hk').2

theorem Distinct.forget (h : Distinct R) (c : Prop) [Decidable c] (m : Nat) :
    Distinct (if c then R.erase m else R) := by
  split_ifs
  · exact h.erase m
  · exact h

/-- Recording a signer that is not among the recents keeps them distinct. -/
theorem Distinct.insert (h : Distinct R) {x : Address} (hx : ∀ k, R.lookup k ≠ some x) :
    Distinct (R.insert n x) := by
  intro k k' y hk hk'
  by_cases hkn : k = n <;> by_cases hkn' : k' = n
  · rw [hkn, hkn']
  · subst hkn
    rw [AList.lookup_insert, Option.some_inj] at hk
    rw [AList.lookup_insert_ne hkn', ← hk] at hk'
    exact absurd hk' (hx k')
  · subst hkn'
    rw [AList.lookup_insert, Option.some_inj] at hk'
    rw [AList.lookup_insert_ne hkn, ← hk'] at hk
    exact absurd hk (hx k)
  · rw [AList.lookup_insert_ne hkn] at hk
    rw [AList.lookup_insert_ne hkn'] at hk'
    exact h k k' y hk hk'

/-- Inside the window, the signer's blocks are all at or below
`number - limit` exactly when none is left once that block is forgotten. -/
theorem InWindow.le_iff_forgotten (h : InWindow R n (L + 1)) (hL : L ≤ n) (x : Address) :
    (∀ k, R.lookup k = some x → k ≤ n - L) ↔ ∀ k, (R.erase (n - L)).lookup k ≠ some x := by
  constructor
  · intro hle k hk
    obtain ⟨hne, hk⟩ := lookup_erase_some hk
    have h₁ := hle k hk
    have h₂ := (h k x hk).2
    omega
  · intro hfree k hk
    by_cases hkm : k = n - L
    · exact le_of_eq hkm
    · rw [← AList.lookup_erase_ne hkm] at hk
      exact absurd hk (hfree k)

end Window

/-! ## The steps of `apply` -/

section Steps

variable {s : Snapshot} {N : Nat}

/-- Before the signer checks of the header after `N`, the recents lie in the
window up to it, and the header's own block is still free. -/
theorem Snapshot.RecentsWindow.beginHeader (hs : s.RecentsWindow N) (cfg : CliqueConfig) :
    InWindow (s.beginHeader cfg (N + 1)).Recents (N + 1) (s.Signers.card / 2 + 1) ∧
      Distinct (s.beginHeader cfg (N + 1)).Recents := by
  rw [beginHeader_Recents, forgetRecent_Recents]
  exact ⟨hs.window.succ.forget, hs.distinct.forget _ _⟩

theorem Snapshot.RecentsWindow.castHeader (hs : s.RecentsWindow N) {cfg : CliqueConfig}
    {ecrecover : Header → Option Address} {header : Header} {s' : Snapshot}
    (h : s.castHeader cfg ecrecover header = .ok s') (hn : header.Number = N + 1) :
    s'.RecentsWindow (N + 1) := by
  obtain ⟨signer, authorize, -, hcheck, -, rfl⟩ := castHeader_ok h
  obtain ⟨-, hfresh⟩ := checkSigner_ok.mp hcheck
  obtain ⟨hwin, hdist⟩ := hs.beginHeader cfg
  rw [hn] at hfresh ⊢
  constructor
  · simp only [castVote_Recents, discardVote_Recents, castVote_Signers, discardVote_Signers,
      beginHeader_Signers]
    exact hwin.insert (Nat.succ_pos _) signer
  · simp only [castVote_Recents, discardVote_Recents]
    exact hdist.insert hfresh

/-- A passed proposal keeps the window: adding a signer never shortens it,
and removing one shortens it by at most one block, which `apply` forgets. -/
theorem Snapshot.RecentsWindow.passVote (hs : s.RecentsWindow N) (c : Address) :
    (s.passVote N c).RecentsWindow N := by
  rcases passVote_Signers_Recents s N c with ⟨hS, hR⟩ | ⟨hS, hR⟩
  · have hcard : s.Signers.card ≤ (s.passVote N c).Signers.card := by
      rcases hS with hS | hS <;> rw [hS]
      exact Finset.card_le_card (Finset.subset_insert c s.Signers)
    constructor
    · rw [hR]
      exact hs.window.mono (by omega)
    · rw [hR]
      exact hs.distinct
  · have hcard : s.Signers.card - 1 ≤ (s.Signers.erase c).card := Finset.pred_card_le_card_erase
    constructor
    · rw [hR, forgetRecent_Recents, hS]
      dsimp only
      exact (hs.window.mono (by omega)).forget
    · rw [hR, forgetRecent_Recents]
      exact hs.distinct.forget _ _

theorem Snapshot.RecentsWindow.applyHeader (hs : s.RecentsWindow N) {cfg : CliqueConfig}
    {ecrecover : Header → Option Address} {header : Header} {s' : Snapshot}
    (h : s.applyHeader cfg ecrecover header = .ok s') (hn : header.Number = N + 1) :
    s'.RecentsWindow (N + 1) := by
  obtain ⟨s₁, h₁, rfl⟩ := applyHeader_ok.mp h
  rw [hn]
  exact (hs.castHeader h₁ hn).passVote _

theorem applyHeader_Number {cfg : CliqueConfig} {ecrecover : Header → Option Address}
    {header : Header} {s' : Snapshot} (h : s.applyHeader cfg ecrecover header = .ok s') :
    s'.Number = s.Number := by
  obtain ⟨s₁, h₁, rfl⟩ := applyHeader_ok.mp h
  obtain ⟨signer, authorize, -, -, -, rfl⟩ := castHeader_ok h₁
  simp

/-- An accepted `apply` moves the window to its last header. -/
theorem Snapshot.RecentsWindow.apply (hs : s.RecentsWindow s.Number) {cfg : CliqueConfig}
    {ecrecover : Header → Option Address} {headerHash : Header → Btp.Hash}
    {headers : List Header} {s' : Snapshot}
    (h : s.apply cfg ecrecover headerHash headers = .ok s') : s'.RecentsWindow s'.Number := by
  rcases apply_ok h with ⟨-, rfl⟩ | ⟨first, rest, snap, rfl, hc, hfirst, hfold, rfl⟩
  · exact hs
  · -- the fold keeps the number and the window at the last header it applied
    have key := foldlM_ok_induction (first :: rest)
      (fun pre t => t.RecentsWindow (s.Number + pre.length) ∧ t.Number = s.Number)
      (by
        intro pre x post t t' hl hx ⟨ht, hnum⟩
        have hxn : x.Number = s.Number + pre.length + 1 := by
          cases pre with
          | nil =>
            simp only [List.nil_append, List.cons.injEq] at hl
            rw [← hl.1, hfirst, List.length_nil]
          | cons y pre =>
            simp only [List.cons_append, List.cons.injEq] at hl
            obtain ⟨rfl, rfl⟩ := hl
            rw [contiguous_number hc, hfirst, List.length_cons]
            omega
        refine ⟨?_, (applyHeader_Number hx).trans hnum⟩
        rw [List.length_append, List.length_singleton, ← Nat.add_assoc]
        exact ht.applyHeader hx hxn)
      hfold ⟨hs, rfl⟩
    obtain ⟨hwin, hnum⟩ := key
    rw [hnum]
    exact ⟨hwin.window, hwin.distinct⟩

theorem Reachable.recentsWindow {cfg : CliqueConfig} {ecrecover : Header → Option Address}
    {headerHash : Header → Btp.Hash} (hs : Reachable cfg ecrecover headerHash s) :
    s.RecentsWindow s.Number := by
  induction hs with
  | checkpoint number hash signers =>
    constructor
    · intro k x hk
      simp [newSnapshot] at hk
    · intro k k' x hk
      simp [newSnapshot] at hk
  | apply headers _ happly ih => exact ih.apply happly

end Steps

/-! ## The signer checks of `apply` and of `verifySeal` -/

section Checks

variable {cfg : CliqueConfig} {ecrecover : Header → Option Address}
  {headerHash : Header → Btp.Hash} {s : Snapshot} {header : Header}

theorem checkSigner_error {signer : Address} {e : CliqueError}
    (h : s.checkSigner signer = .error e) : e = .unauthorizedSigner ∨ e = .recentlySigned := by
  unfold Snapshot.checkSigner at h
  by_cases h₁ : signer ∈ s.Signers
  · by_cases h₂ : (s.Recents.entries.any fun e => e.2 == signer) = true
    · simp only [h₁, h₂, not_true_eq_false, if_false, if_true] at h
      exact Or.inr (Except.error.inj h).symm
    · simp [h₁, h₂, pure, Except.pure] at h
  · simp only [h₁, not_false_eq_true, if_true] at h
    exact Or.inl (Except.error.inj h).symm

theorem voteOf_error {nonce : BitVec 64} {e : CliqueError} (h : voteOf nonce = .error e) :
    e = .invalidVote := by
  unfold voteOf at h
  split_ifs at h
  · simp [pure, Except.pure] at h
  · simp [pure, Except.pure] at h
  · simp [throw, throwThe, MonadExceptOf.throw] at h
    exact h.symm

/-- For a recovered signer, `apply`'s processing of a header fails neither as
unauthorised nor as recently signed exactly when its signer checks pass: the
only later failure is an invalid vote. -/
theorem castHeader_signer_checks {signer : Address} (hrec : ecrecover header = some signer) :
    (s.castHeader cfg ecrecover header ≠ .error .unauthorizedSigner ∧
      s.castHeader cfg ecrecover header ≠ .error .recentlySigned) ↔
      (s.beginHeader cfg header.Number).checkSigner signer = .ok () := by
  unfold Snapshot.castHeader
  rw [hrec]
  simp only [pure_bind]
  cases hc : (s.beginHeader cfg header.Number).checkSigner signer with
  | error e =>
    rcases checkSigner_error hc with rfl | rfl <;> simp [bind, Except.bind]
  | ok u =>
    cases hv : voteOf header.Nonce with
    | error e =>
      rw [voteOf_error hv]
      simp [bind, Except.bind]
    | ok a => simp [bind, Except.bind, pure, Except.pure]

/-- `apply` on the next header fails as its processing of the header does. -/
theorem apply_singleton_error (hn : header.Number = s.Number + 1) {e : CliqueError} :
    s.apply cfg ecrecover headerHash [header] = .error e ↔
      s.castHeader cfg ecrecover header = .error e := by
  unfold Snapshot.apply
  simp only [contiguous, Bool.not_true, Bool.false_eq_true, if_false, hn, ne_eq,
    not_true_eq_false, List.foldlM_cons, List.foldlM_nil, bind_pure, Snapshot.applyHeader]
  rw [bind_pure_eq_error, bind_pure_eq_error]

/-- Once the chain has `limit` blocks, `verifySeal`'s signer checks on the
parent snapshot accept a header exactly when `apply` does not reject it as
unauthorised or recently signed. -/
theorem verifySeal_agrees_apply_past_limit (hs : Reachable cfg ecrecover headerHash s)
    {signer : Address} (hn : header.Number = s.Number + 1)
    (hsigner : ecrecover header = some signer)
    (hlimit : s.Signers.card / 2 + 1 ≤ header.Number) :
    verifySeal true ecrecover s header = .ok () ↔
      s.apply cfg ecrecover headerHash [header] ≠ .error .unauthorizedSigner ∧
      s.apply cfg ecrecover headerHash [header] ≠ .error .recentlySigned := by
  have hwin : InWindow s.Recents header.Number (s.Signers.card / 2 + 1 + 1) := by
    rw [hn]
    exact hs.recentsWindow.window.succ
  rw [ne_eq, ne_eq, apply_singleton_error hn, apply_singleton_error hn, ← ne_eq, ← ne_eq,
    castHeader_signer_checks hsigner,
    checkSigner_ok, verifySeal_fakeDiff_ok, beginHeader_Signers, beginHeader_Recents,
    forgetRecent_Recents, if_pos hlimit, uint64Sub_of_le header.number_lt hlimit,
    ← hwin.le_iff_forgotten hlimit signer]
  simp [hsigner, hn]

/-- The first block after a genesis with four signers, sealed by signer 1
out of turn, with no vote. -/
def firstHeader : Header := ⟨1, by decide, 0, nonceDropVote, diffNoTurn, [1]⟩

/-- The next block, sealed by signer 1 again, out of turn. -/
def secondHeader : Header := ⟨2, by decide, 0, nonceDropVote, diffNoTurn, [1]⟩

/-- The snapshot after `firstHeader`: signer 1 is recorded for block 1. -/
def signedOnceSnap : Snapshot :=
  ⟨1, 0, [1, 2, 3, 4].toFinset, (∅ : GoMap Nat Address).insert 1 1, [], ∅⟩

theorem signedOnceSnap_signers : signedOnceSnap.signers = [1, 2, 3, 4] := by
  have himage : signedOnceSnap.Signers.image BitVec.toNat = {1, 2, 3, 4} := by decide
  rw [Snapshot.signers, himage]
  simp (disch := decide) only [Finset.sort_insert, Finset.sort_singleton]

/-- Before the chain has `limit` blocks, `number - limit` wraps around in
`verifySeal`, which then lets a signer seal two blocks in a row that `apply`
rejects: with four signers the window is three blocks, and signer 1 seals
blocks 1 and 2. -/
theorem verifySeal_passes_recent_signer :
    Reachable sealConfig sealSigner (fun _ => 0) signedOnceSnap ∧
      secondHeader.Number = signedOnceSnap.Number + 1 ∧ sealSigner secondHeader = some 1 ∧
      verifySeal false sealSigner signedOnceSnap secondHeader = .ok () ∧
      signedOnceSnap.apply sealConfig sealSigner (fun _ => 0) [secondHeader] =
        .error .recentlySigned := by
  refine ⟨.apply [firstHeader] (.checkpoint 0 0 [1, 2, 3, 4]) rfl, rfl, rfl, ?_, rfl⟩
  unfold verifySeal Snapshot.inturn
  rw [signedOnceSnap_signers]
  rfl

end Checks

end Btp.Clique
