import Mathlib
import Btp.Common.Types
import Btp.Lib.ExceptRun

/-!
# Clique voting snapshots

`consensus/clique/snapshot.go`. A snapshot records the authorised signers,
the signers of the most recent blocks (`Recents`, keyed by block number) and
the votes cast since the last checkpoint, with `Tally` a cache of the vote
count per proposal. `Snapshot.apply` replays headers on a snapshot.

The signer of a header is recovered from its seal by elliptic-curve
signature recovery, which is outside this model: `ecrecover` is a parameter
(`none` for a failed recovery). Block numbers are `uint64` in Go; headers
here carry a number below `2^64`, and the one place that wraps,
`number - limit` in `verifySeal`, wraps explicitly.
-/

namespace Btp.Clique

/-- A single vote of an authorised signer to change the signer list. -/
structure Vote where
  /-- Authorised signer that cast this vote. -/
  Signer : Address
  /-- Block number the vote was cast in. -/
  Block : Nat
  /-- Account being voted on. -/
  Address : Address
  /-- Whether to authorise or deauthorise the voted account. -/
  Authorize : Bool
deriving DecidableEq, Repr

/-- The running score of one proposal. Votes against it are not counted. -/
structure Tally where
  Authorize : Bool
  Votes : Nat
deriving DecidableEq, Repr

/-- The state of the authorisation voting at a block. -/
structure Snapshot where
  Number : Nat
  Hash : Hash
  /-- `map[common.Address]struct{}`, the set of authorised signers. -/
  Signers : Finset Address
  /-- Recent signers, by block number, for spam protection. -/
  Recents : GoMap Nat Address
  /-- Votes cast in chronological order. -/
  Votes : List Vote
  /-- Current vote tally, to avoid recalculating. -/
  Tally : GoMap Address Tally

/-- The fields of a header the voting reads. `Extra` holds the seal, which
only `ecrecover` reads. -/
structure Header where
  Number : Nat
  number_lt : Number < 2 ^ 64
  Coinbase : Address
  Nonce : BitVec 64
  Difficulty : Nat
  Extra : List UInt8

/-- The parameter of `params.CliqueConfig` that `apply` reads; `New`
replaces a zero epoch by the default, so it is positive. -/
structure CliqueConfig where
  Epoch : Nat
  epoch_pos : 0 < Epoch

inductive CliqueError where
  | unknownBlock
  | invalidVotingChain
  | unauthorizedSigner
  | recentlySigned
  | invalidVote
  | wrongDifficulty
  /-- A failed signature recovery (`errMissingSignature`, or an error of
  `crypto.Ecrecover`). -/
  | recover
deriving DecidableEq, Repr

/-- Magic nonce to vote on adding a new signer. -/
def nonceAuthVote : BitVec 64 := 0xffffffffffffffff

/-- Magic nonce to vote on removing a signer. -/
def nonceDropVote : BitVec 64 := 0

def diffInTurn : Nat := 2

def diffNoTurn : Nat := 1

/-- `newSnapshot`: a checkpoint snapshot with the given signers and no
recents, votes or tallies. -/
def newSnapshot (number : Nat) (hash : Hash) (signers : List Address) : Snapshot :=
  ⟨number, hash, signers.toFinset, ∅, [], ∅⟩

/-- `Snapshot.validVote`: whether the vote would change something. -/
def Snapshot.validVote (s : Snapshot) (address : Address) (authorize : Bool) : Bool :=
  let signer := decide (address ∈ s.Signers)
  (signer && !authorize) || (!signer && authorize)

/-- `Snapshot.cast`: add a vote to the tally. -/
def Snapshot.cast (s : Snapshot) (address : Address) (authorize : Bool) : Bool × Snapshot :=
  if !s.validVote address authorize then (false, s)
  else
    match s.Tally.lookup address with
    | some old => (true, { s with Tally := s.Tally.insert address { old with Votes := old.Votes + 1 } })
    | none => (true, { s with Tally := s.Tally.insert address ⟨authorize, 1⟩ })

/-- `Snapshot.uncast`: remove a previously cast vote from the tally. -/
def Snapshot.uncast (s : Snapshot) (address : Address) (authorize : Bool) : Bool × Snapshot :=
  match s.Tally.lookup address with
  | none => (false, s)
  | some tally =>
    if tally.Authorize ≠ authorize then (false, s)
    else if tally.Votes > 1 then
      (true, { s with Tally := s.Tally.insert address { tally with Votes := tally.Votes - 1 } })
    else (true, { s with Tally := s.Tally.erase address })

/-- `if limit := uint64(len(snap.Signers)/2 + 1); number >= limit
{ delete(snap.Recents, number-limit) }`: forget the signer that the window
of recent signers has just moved past. -/
def Snapshot.forgetRecent (s : Snapshot) (number : Nat) : Snapshot :=
  let limit := s.Signers.card / 2 + 1
  if number ≥ limit then { s with Recents := s.Recents.erase (number - limit) } else s

/-- The first loop of `apply` over the votes: the signer's earlier vote on
the same account, if any, is uncast and removed (`break` after the first). -/
def Snapshot.discardVote (s : Snapshot) (signer address : Address) : Snapshot :=
  match s.Votes.find? (fun v => v.Signer == signer && v.Address == address) with
  | some vote => { (s.uncast vote.Address vote.Authorize).2 with Votes := s.Votes.erase vote }
  | none => s

/-- The Go loop
`for i := 0; i < len(snap.Votes); i++ { if p(snap.Votes[i]) { f(snap.Votes[i]);
snap.Votes = append(snap.Votes[:i], snap.Votes[i+1:]...); i-- } }`, from
index `i` on. -/
def Snapshot.dropVotes (p : Vote → Bool) (f : Snapshot → Vote → Snapshot)
    (s : Snapshot) (i : Nat) : Snapshot :=
  if h : i < s.Votes.length then
    if p s.Votes[i] then
      Snapshot.dropVotes p f { f s s.Votes[i] with Votes := s.Votes.eraseIdx i } i
    else Snapshot.dropVotes p f s (i + 1)
  else s
termination_by 2 * s.Votes.length - i
decreasing_by
  · simp only [List.length_eraseIdx, h, if_true]
    omega
  · omega

/-- The end of `apply`'s loop body: if the proposal on `coinbase` has more
votes than half the signers, the signer list changes and every vote and the
tally on `coinbase` are discarded; a deauthorised signer's own votes are
uncast and dropped too. -/
def Snapshot.passVote (s : Snapshot) (number : Nat) (coinbase : Address) : Snapshot :=
  let tally := (s.Tally.lookup coinbase).getD ⟨false, 0⟩
  if tally.Votes > s.Signers.card / 2 then
    let s :=
      if tally.Authorize then { s with Signers := insert coinbase s.Signers }
      else
        let s := { s with Signers := s.Signers.erase coinbase }
        -- signer list shrunk, delete any leftover recent caches
        let s := s.forgetRecent number
        s.dropVotes (fun v => v.Signer == coinbase) (fun s v => (s.uncast v.Address v.Authorize).2) 0
    let s := s.dropVotes (fun v => v.Address == coinbase) (fun s _ => s) 0
    { s with Tally := s.Tally.erase coinbase }
  else s

/-- The start of `apply`'s loop body: remove any votes on checkpoint blocks,
and delete the oldest signer from the recent list to allow it signing again. -/
def Snapshot.beginHeader (cfg : CliqueConfig) (snap : Snapshot) (number : Nat) : Snapshot :=
  let snap := if number % cfg.Epoch = 0 then { snap with Votes := [], Tally := ∅ } else snap
  snap.forgetRecent number

/-- `apply`'s checks on the recovered signer: it is authorised and is not
among the recent signers. -/
def Snapshot.checkSigner (snap : Snapshot) (signer : Address) : Except CliqueError Unit := do
  if signer ∉ snap.Signers then throw .unauthorizedSigner
  if snap.Recents.entries.any (fun e => e.2 == signer) then throw .recentlySigned

/-- The vote a header's nonce casts. -/
def voteOf (nonce : BitVec 64) : Except CliqueError Bool :=
  if nonce = nonceAuthVote then pure true
  else if nonce = nonceDropVote then pure false
  else throw .invalidVote

/-- `if snap.cast(vote.Address, vote.Authorize) { snap.Votes = append(snap.Votes, vote) }`. -/
def Snapshot.castVote (snap : Snapshot) (vote : Vote) : Snapshot :=
  match snap.cast vote.Address vote.Authorize with
  | (true, snap) => { snap with Votes := snap.Votes ++ [vote] }
  | (false, snap) => snap

/-- The body of `apply`'s loop up to the vote being cast. -/
def Snapshot.castHeader (cfg : CliqueConfig) (ecrecover : Header → Option Address)
    (snap : Snapshot) (header : Header) : Except CliqueError Snapshot := do
  let number := header.Number
  let snap := snap.beginHeader cfg number
  let signer ← match ecrecover header with
    | some signer => pure signer
    | none => throw .recover
  snap.checkSigner signer
  let snap := { snap with Recents := snap.Recents.insert number signer }
  -- header authorized, discard any previous votes from the signer
  let snap := snap.discardVote signer header.Coinbase
  let authorize ← voteOf header.Nonce
  pure (snap.castVote ⟨signer, number, header.Coinbase, authorize⟩)

/-- The body of `apply`'s loop for one header. -/
def Snapshot.applyHeader (cfg : CliqueConfig) (ecrecover : Header → Option Address)
    (snap : Snapshot) (header : Header) : Except CliqueError Snapshot := do
  let snap ← snap.castHeader cfg ecrecover header
  pure (snap.passVote header.Number header.Coinbase)

/-- Consecutive headers have consecutive numbers. -/
def contiguous : List Header → Bool
  | a :: b :: rest => b.Number == a.Number + 1 && contiguous (b :: rest)
  | _ => true

/-- In a contiguous run the header after `pre` is `pre.length + 1` blocks
past the first. -/
theorem contiguous_number {pre post : List Header} {x : Header} :
    ∀ {first : Header}, contiguous (first :: (pre ++ x :: post)) = true →
      x.Number = first.Number + pre.length + 1 := by
  induction pre with
  | nil =>
    intro first h
    simp only [List.nil_append, contiguous, Bool.and_eq_true, beq_iff_eq] at h
    simpa using h.1
  | cons y pre ih =>
    intro first h
    simp only [List.cons_append, contiguous, Bool.and_eq_true, beq_iff_eq] at h
    rw [ih h.2, h.1, List.length_cons]
    omega

/-- `Snapshot.apply`: replay `headers` on `s`. `headerHash` is
`Header.Hash`. -/
def Snapshot.apply (cfg : CliqueConfig) (ecrecover : Header → Option Address)
    (headerHash : Header → Btp.Hash) (s : Snapshot) (headers : List Header) :
    Except CliqueError Snapshot :=
  match headers with
  | [] => pure s
  | first :: rest =>
    if !contiguous (first :: rest) then throw .invalidVotingChain
    else if first.Number ≠ s.Number + 1 then throw .invalidVotingChain
    else do
      let snap ← (first :: rest).foldlM (Snapshot.applyHeader cfg ecrecover) s
      pure { snap with
        Number := snap.Number + (first :: rest).length
        Hash := headerHash ((first :: rest).getLast (List.cons_ne_nil _ _)) }

/-- The snapshots that `apply` reaches from a checkpoint snapshot, one made by
`newSnapshot` from any signer list. -/
inductive Reachable (cfg : CliqueConfig) (ecrecover : Header → Option Address)
    (headerHash : Header → Btp.Hash) : Snapshot → Prop
  | checkpoint (number : Nat) (hash : Btp.Hash) (signers : List Address) :
      Reachable cfg ecrecover headerHash (newSnapshot number hash signers)
  | apply {s s' : Snapshot} (headers : List Header) :
      Reachable cfg ecrecover headerHash s →
      s.apply cfg ecrecover headerHash headers = .ok s' →
      Reachable cfg ecrecover headerHash s'

/-! ## What each operation leaves alone -/

section Frame

variable (s : Snapshot) (a : Address) (b : Bool)

@[simp] theorem cast_Signers : (s.cast a b).2.Signers = s.Signers := by
  unfold Snapshot.cast; split <;> [rfl; split <;> rfl]

@[simp] theorem cast_Recents : (s.cast a b).2.Recents = s.Recents := by
  unfold Snapshot.cast; split <;> [rfl; split <;> rfl]

@[simp] theorem cast_Votes : (s.cast a b).2.Votes = s.Votes := by
  unfold Snapshot.cast; split <;> [rfl; split <;> rfl]

@[simp] theorem uncast_Signers : (s.uncast a b).2.Signers = s.Signers := by
  unfold Snapshot.uncast; split <;> [rfl; (split <;> [rfl; split <;> rfl])]

@[simp] theorem uncast_Recents : (s.uncast a b).2.Recents = s.Recents := by
  unfold Snapshot.uncast; split <;> [rfl; (split <;> [rfl; split <;> rfl])]

@[simp] theorem uncast_Votes : (s.uncast a b).2.Votes = s.Votes := by
  unfold Snapshot.uncast; split <;> [rfl; (split <;> [rfl; split <;> rfl])]

@[simp] theorem discardVote_Signers (c : Address) : (s.discardVote a c).Signers = s.Signers := by
  unfold Snapshot.discardVote; split <;> simp

@[simp] theorem discardVote_Recents (c : Address) : (s.discardVote a c).Recents = s.Recents := by
  unfold Snapshot.discardVote; split <;> simp

@[simp] theorem forgetRecent_Signers (n : Nat) : (s.forgetRecent n).Signers = s.Signers := by
  unfold Snapshot.forgetRecent; dsimp only; split <;> rfl

@[simp] theorem forgetRecent_Votes (n : Nat) : (s.forgetRecent n).Votes = s.Votes := by
  unfold Snapshot.forgetRecent; dsimp only; split <;> rfl

@[simp] theorem forgetRecent_Tally (n : Nat) : (s.forgetRecent n).Tally = s.Tally := by
  unfold Snapshot.forgetRecent; dsimp only; split <;> rfl

@[simp] theorem cast_Number : (s.cast a b).2.Number = s.Number := by
  unfold Snapshot.cast; split <;> [rfl; split <;> rfl]

@[simp] theorem uncast_Number : (s.uncast a b).2.Number = s.Number := by
  unfold Snapshot.uncast; split <;> [rfl; (split <;> [rfl; split <;> rfl])]

@[simp] theorem discardVote_Number (c : Address) : (s.discardVote a c).Number = s.Number := by
  unfold Snapshot.discardVote; split <;> simp

@[simp] theorem forgetRecent_Number (n : Nat) : (s.forgetRecent n).Number = s.Number := by
  unfold Snapshot.forgetRecent; dsimp only; split <;> rfl

theorem forgetRecent_Recents (n : Nat) :
    (s.forgetRecent n).Recents =
      if s.Signers.card / 2 + 1 ≤ n then s.Recents.erase (n - (s.Signers.card / 2 + 1))
      else s.Recents := by
  unfold Snapshot.forgetRecent; dsimp only; split <;> rfl

/-- `castVote` changes only the votes and the tally. -/
theorem castVote_field {α : Type} (g : Snapshot → α)
    (hc : ∀ (s : Snapshot) a b, g (s.cast a b).2 = g s)
    (hv : ∀ (s : Snapshot) l, g { s with Votes := l } = g s) (vote : Vote) :
    g (s.castVote vote) = g s := by
  have h := hc s vote.Address vote.Authorize
  unfold Snapshot.castVote
  split
  · rename_i s' heq
    rw [heq] at h
    rw [hv, ← h]
  · rename_i s' heq
    rw [heq] at h
    exact h

@[simp] theorem castVote_Signers (vote : Vote) : (s.castVote vote).Signers = s.Signers :=
  castVote_field s Snapshot.Signers cast_Signers (fun _ _ => rfl) vote

@[simp] theorem castVote_Recents (vote : Vote) : (s.castVote vote).Recents = s.Recents :=
  castVote_field s Snapshot.Recents cast_Recents (fun _ _ => rfl) vote

@[simp] theorem castVote_Number (vote : Vote) : (s.castVote vote).Number = s.Number :=
  castVote_field s Snapshot.Number cast_Number (fun _ _ => rfl) vote

@[simp] theorem beginHeader_Number (cfg : CliqueConfig) (n : Nat) :
    (s.beginHeader cfg n).Number = s.Number := by
  unfold Snapshot.beginHeader; dsimp only; split <;> simp

/-- The checkpoint reset does not touch the recents. -/
theorem beginHeader_Recents (cfg : CliqueConfig) (n : Nat) :
    (s.beginHeader cfg n).Recents = (s.forgetRecent n).Recents := by
  unfold Snapshot.beginHeader; dsimp only
  split <;> simp only [forgetRecent_Recents]

@[simp] theorem beginHeader_Signers (cfg : CliqueConfig) (n : Nat) :
    (s.beginHeader cfg n).Signers = s.Signers := by
  unfold Snapshot.beginHeader; dsimp only; split <;> simp

end Frame

/-! ## The vote-dropping loop -/

/-- Whatever holds of the snapshot and is kept by one deletion holds after
the whole loop. -/
theorem dropVotes_induction (p : Vote → Bool) (f : Snapshot → Vote → Snapshot)
    (Q : Snapshot → Prop)
    (hstep : ∀ s i (h : i < s.Votes.length), p s.Votes[i] = true → Q s →
      Q { f s s.Votes[i] with Votes := s.Votes.eraseIdx i }) :
    ∀ s i, Q s → Q (s.dropVotes p f i) := by
  intro s i hq
  induction s, i using Snapshot.dropVotes.induct p f with
  | case1 s i h hp ih =>
      rw [Snapshot.dropVotes, dif_pos h, if_pos hp]
      exact ih (hstep s i h hp hq)
  | case2 s i h hp ih =>
      rw [Snapshot.dropVotes, dif_pos h, if_neg hp]
      exact ih hq
  | case3 s i h =>
      rw [Snapshot.dropVotes, dif_neg h]
      exact hq

/-- The loop keeps the votes before index `i` and drops exactly the votes
from `i` on that satisfy `p`: the `i--` after each deletion makes it visit
every vote once. -/
theorem dropVotes_Votes (p : Vote → Bool) (f : Snapshot → Vote → Snapshot) (s : Snapshot)
    (i : Nat) :
    (s.dropVotes p f i).Votes = s.Votes.take i ++ (s.Votes.drop i).filter (fun v => !p v) := by
  induction s, i using Snapshot.dropVotes.induct p f with
  | case1 s i h hp ih =>
      rw [Snapshot.dropVotes, dif_pos h, if_pos hp, ih]
      simp only [List.eraseIdx_eq_take_drop_succ]
      rw [List.drop_eq_getElem_cons h, List.filter_cons_of_neg (by simp [hp])]
      have hlen : (s.Votes.take i).length = i := by simp; omega
      simp [List.take_append_of_le_length (le_of_eq hlen.symm), List.drop_append_of_le_length
        (le_of_eq hlen.symm), hlen]
  | case2 s i h hp ih =>
      rw [Snapshot.dropVotes, dif_pos h, if_neg hp, ih, List.drop_eq_getElem_cons h,
        List.filter_cons_of_pos (by simpa using hp), List.take_add_one, List.getElem?_eq_getElem h]
      simp only [Option.toList_some, List.append_assoc, List.singleton_append]
  | case3 s i h =>
      rw [Snapshot.dropVotes, dif_neg h, List.take_of_length_le (by omega),
        List.drop_of_length_le (by omega)]
      simp

/-- A field that the callback and the deletion both leave alone, the whole
loop leaves alone. -/
theorem dropVotes_field {α : Type} (g : Snapshot → α) (p : Vote → Bool)
    (f : Snapshot → Vote → Snapshot) (hf : ∀ s v, g (f s v) = g s)
    (hv : ∀ (s : Snapshot) l, g { s with Votes := l } = g s) (s : Snapshot) (i : Nat) :
    g (s.dropVotes p f i) = g s := by
  apply dropVotes_induction p f (fun s' => g s' = g s) _ s i rfl
  intro s' j _ _ hs'
  rw [hv, hf, hs']

/-- Run from the start, the loop keeps exactly the votes failing `p`. -/
theorem dropVotes_zero_Votes (p : Vote → Bool) (f : Snapshot → Vote → Snapshot)
    (s : Snapshot) : (s.dropVotes p f 0).Votes = s.Votes.filter (fun v => !p v) := by
  rw [dropVotes_Votes, List.take_zero, List.drop_zero, List.nil_append]

/-- Without a callback, the loop only changes the votes. -/
theorem dropVotes_self (p : Vote → Bool) (s : Snapshot) :
    s.dropVotes p (fun s _ => s) 0 = { s with Votes := s.Votes.filter (fun v => !p v) } := by
  have hrest := dropVotes_induction p (fun s _ => s) (fun s' => s' = { s with Votes := s'.Votes })
    (fun s' j _ _ hs' => by rw [hs']) s 0 rfl
  rw [hrest, dropVotes_zero_Votes]

@[simp] theorem passVote_Number (s : Snapshot) (n : Nat) (c : Address) :
    (s.passVote n c).Number = s.Number := by
  unfold Snapshot.passVote; dsimp only
  split_ifs
  · rw [dropVotes_self]
  · rw [dropVotes_self, dropVotes_field Snapshot.Number _ _ (fun _ _ => uncast_Number ..)
      (fun _ _ => rfl)]
    simp
  · rfl

/-- A passed proposal to authorise adds a signer and leaves the recents; one
to deauthorise removes a signer and forgets the recent block that falls out
of the shrunk window. -/
theorem passVote_Signers_Recents (s : Snapshot) (n : Nat) (c : Address) :
    ((s.passVote n c).Signers = s.Signers ∨ (s.passVote n c).Signers = insert c s.Signers) ∧
      (s.passVote n c).Recents = s.Recents ∨
    (s.passVote n c).Signers = s.Signers.erase c ∧
      (s.passVote n c).Recents =
        (({ s with Signers := s.Signers.erase c } : Snapshot).forgetRecent n).Recents := by
  unfold Snapshot.passVote; dsimp only
  split_ifs
  · rw [dropVotes_self]
    exact Or.inl ⟨Or.inr rfl, rfl⟩
  · rw [dropVotes_self, dropVotes_field Snapshot.Signers _ _ (fun _ _ => uncast_Signers ..)
      (fun _ _ => rfl), dropVotes_field Snapshot.Recents _ _ (fun _ _ => uncast_Recents ..)
      (fun _ _ => rfl)]
    exact Or.inr ⟨by simp, rfl⟩
  · exact Or.inl ⟨Or.inl rfl, rfl⟩

/-! ## What one header does when it is accepted -/

section Accepted

open ExceptRun

theorem checkSigner_ok {snap : Snapshot} {signer : Address} :
    snap.checkSigner signer = .ok () ↔
      signer ∈ snap.Signers ∧ ∀ k, snap.Recents.lookup k ≠ some signer := by
  have hany := GoMap.any_entries_iff snap.Recents (fun _ v => v == signer)
  simp only [beq_iff_eq, exists_eq_right] at hany
  unfold Snapshot.checkSigner
  by_cases h₁ : signer ∈ snap.Signers
  · by_cases h₂ : ∃ k, snap.Recents.lookup k = some signer
    · simp [h₁, hany.mpr h₂, h₂]
    · simp_all
  · simp [h₁]

theorem voteOf_ok {nonce : BitVec 64} {authorize : Bool} :
    voteOf nonce = .ok authorize ↔
      nonce = nonceAuthVote ∧ authorize = true ∨ nonce = nonceDropVote ∧ authorize = false := by
  unfold voteOf
  have hne : nonceAuthVote ≠ nonceDropVote := by decide
  split_ifs with h₁ h₂
  · rw [pure_eq_ok, h₁]
    cases authorize <;> simp [hne]
  · rw [pure_eq_ok, h₂]
    cases authorize <;> simp [hne.symm]
  · simp [h₁, h₂]

/-- Everything an accepted header does up to the vote count. -/
theorem castHeader_ok {cfg : CliqueConfig} {ecrecover : Header → Option Address}
    {snap s' : Snapshot} {header : Header} (h : snap.castHeader cfg ecrecover header = .ok s') :
    ∃ signer authorize, ecrecover header = some signer ∧
      (snap.beginHeader cfg header.Number).checkSigner signer = .ok () ∧
      voteOf header.Nonce = .ok authorize ∧
      s' = ({ snap.beginHeader cfg header.Number with
          Recents := (snap.beginHeader cfg header.Number).Recents.insert header.Number signer
        }.discardVote signer header.Coinbase).castVote
          ⟨signer, header.Number, header.Coinbase, authorize⟩ := by
  unfold Snapshot.castHeader at h
  cases hrec : ecrecover header with
  | none => simp only [hrec, bind_eq_ok, throw_ne_ok, false_and, exists_false] at h
  | some signer =>
    simp only [hrec, pure_bind, bind_eq_ok, pure_eq_ok] at h
    obtain ⟨u, hcheck, authorize, hvote, rfl⟩ := h
    exact ⟨signer, authorize, rfl, hcheck, hvote, rfl⟩

theorem applyHeader_ok {cfg : CliqueConfig} {ecrecover : Header → Option Address}
    {snap s' : Snapshot} {header : Header} :
    snap.applyHeader cfg ecrecover header = .ok s' ↔
      ∃ s₁, snap.castHeader cfg ecrecover header = .ok s₁ ∧
        s' = s₁.passVote header.Number header.Coinbase := by
  unfold Snapshot.applyHeader
  simp only [bind_eq_ok, pure_eq_ok]
  constructor <;> rintro ⟨s₁, h₁, h₂⟩ <;> exact ⟨s₁, h₁, h₂.symm⟩

/-- What an accepted `apply` does: nothing on no headers; otherwise the
headers are consecutive from the snapshot's successor, each is applied in
turn, and the number and hash move to the last one. -/
theorem apply_ok {cfg : CliqueConfig} {ecrecover : Header → Option Address}
    {headerHash : Header → Btp.Hash} {s s' : Snapshot} {headers : List Header}
    (h : s.apply cfg ecrecover headerHash headers = .ok s') :
    headers = [] ∧ s' = s ∨
      ∃ first rest snap, headers = first :: rest ∧ contiguous headers = true ∧
        first.Number = s.Number + 1 ∧
        headers.foldlM (Snapshot.applyHeader cfg ecrecover) s = .ok snap ∧
        s' = { snap with Number := snap.Number + headers.length,
                         Hash := headerHash ((first :: rest).getLast (List.cons_ne_nil _ _)) } := by
  unfold Snapshot.apply at h
  cases headers with
  | nil =>
    rw [pure_eq_ok] at h
    exact Or.inl ⟨rfl, h.symm⟩
  | cons first rest =>
    dsimp only at h
    by_cases hc : contiguous (first :: rest) = true
    · by_cases hn : first.Number = s.Number + 1
      · rw [if_neg (by simp [hc]), if_neg (by simp [hn]), bind_eq_ok] at h
        obtain ⟨snap, hfold, hs'⟩ := h
        rw [pure_eq_ok] at hs'
        exact Or.inr ⟨first, rest, snap, rfl, hc, hn, hfold, hs'.symm⟩
      · rw [if_neg (by simp [hc]), if_pos hn] at h
        exact absurd h throw_ne_ok
    · rw [if_pos (by simpa using hc)] at h
      exact absurd h throw_ne_ok

end Accepted

/-- Signature recovery for headers whose seal names the signer in its first
byte: any signer can seal any header, so this stands for `ecrecover` on
headers that the named signer sealed. -/
def sealSigner (header : Header) : Option Address :=
  some (BitVec.ofNat 160 (header.Extra.headD 0).toNat)

/-- The default epoch of 30000 blocks. -/
def sealConfig : CliqueConfig := ⟨30000, by decide⟩

end Btp.Clique
