import Mathlib
import Btp.Consensus.Clique.Recents
import Btp.Lib.ByteBits
import Btp.Lib.ExceptRun

/-!
# Rebuilding a snapshot through the caches

`Clique.snapshot` in `consensus/clique/clique.go` finds the voting snapshot at
a block by walking back from it, through the explicitly passed parents and
then the chain, until it meets a snapshot it already has: one in the in-memory
`recents` cache, a checkpoint snapshot stored in the database every
`checkpointInterval` blocks, or the checkpoint it builds from the genesis
header's extra-data. It then replays the headers it gathered on that snapshot
with `Snapshot.apply`, caches the result and, at a checkpoint, stores it.

A replay can be cut anywhere: the loop body of `apply` reads only the signers,
recents, votes and tally of a snapshot, never its number or hash (`SameBody`),
so replaying `h₁` and then `h₂` is replaying `h₁ ++ h₂` (`apply_append`). Every
snapshot the caches hold for a block is the replay of the chain up to that
block (`CacheInv`), and `snapshot` keeps it so; whatever the caches hold and
however many parents are passed, `snapshot` then returns the replay from
genesis.
-/

-- the engine is `clique.Clique` in the source
set_option linter.dupNamespace false

namespace Btp.Clique

open ExceptRun

/-! ## Snapshots alike but for their number and hash -/

/-- Two snapshots with the same signers, recents, votes and tally. -/
structure SameBody (x y : Snapshot) : Prop where
  signers : x.Signers = y.Signers
  recents : x.Recents = y.Recents
  votes : x.Votes = y.Votes
  tally : x.Tally = y.Tally

namespace SameBody

variable {x y : Snapshot}

theorem refl (x : Snapshot) : SameBody x x := ⟨rfl, rfl, rfl, rfl⟩

theorem symm (h : SameBody x y) : SameBody y x :=
  ⟨h.signers.symm, h.recents.symm, h.votes.symm, h.tally.symm⟩

/-- A snapshot is alike to itself under any other head. -/
theorem withHead (x : Snapshot) (n : Nat) (hh : Btp.Hash) :
    SameBody x { x with Number := n, Hash := hh } := ⟨rfl, rfl, rfl, rfl⟩

/-- Alike snapshots differ at most in their head. -/
theorem head (h : SameBody x y) : ∃ n hh, y = { x with Number := n, Hash := hh } := by
  obtain ⟨N, H, S, R, V, T⟩ := x
  obtain ⟨N', H', S', R', V', T'⟩ := y
  obtain ⟨hS, hR, hV, hT⟩ := h
  dsimp only at hS hR hV hT
  subst hS hR hV hT
  exact ⟨N', H', rfl⟩

/-- Alike snapshots with the same head are equal. -/
theorem eq (h : SameBody x y) (hn : x.Number = y.Number) (hh : x.Hash = y.Hash) : x = y := by
  obtain ⟨n, h', rfl⟩ := h.head
  dsimp only at hn hh
  rw [← hn, ← hh]

theorem setSigners (h : SameBody x y) (g : Finset Address → Finset Address) :
    SameBody { x with Signers := g x.Signers } { y with Signers := g y.Signers } :=
  ⟨congrArg g h.signers, h.recents, h.votes, h.tally⟩

theorem setRecents (h : SameBody x y) (g : GoMap Nat Address → GoMap Nat Address) :
    SameBody { x with Recents := g x.Recents } { y with Recents := g y.Recents } :=
  ⟨h.signers, congrArg g h.recents, h.votes, h.tally⟩

theorem setTally (h : SameBody x y) (g : GoMap Address Tally → GoMap Address Tally) :
    SameBody { x with Tally := g x.Tally } { y with Tally := g y.Tally } :=
  ⟨h.signers, h.recents, h.votes, congrArg g h.tally⟩

end SameBody

/-! ## The loop body of `apply` reads no head -/

section Body

variable {x y : Snapshot}

theorem cast_sameBody (h : SameBody x y) (a : Address) (b : Bool) :
    (x.cast a b).1 = (y.cast a b).1 ∧ SameBody (x.cast a b).2 (y.cast a b).2 := by
  obtain ⟨n, hh, rfl⟩ := h.head
  unfold Snapshot.cast Snapshot.validVote
  dsimp only
  split
  · exact ⟨rfl, SameBody.withHead x n hh⟩
  · cases x.Tally.lookup a <;> exact ⟨rfl, ⟨rfl, rfl, rfl, rfl⟩⟩

theorem uncast_sameBody (h : SameBody x y) (a : Address) (b : Bool) :
    SameBody (x.uncast a b).2 (y.uncast a b).2 := by
  obtain ⟨n, hh, rfl⟩ := h.head
  unfold Snapshot.uncast
  dsimp only
  cases x.Tally.lookup a with
  | none => exact SameBody.withHead x n hh
  | some t =>
    dsimp only
    split_ifs
    · exact SameBody.withHead x n hh
    · exact ⟨rfl, rfl, rfl, rfl⟩
    · exact ⟨rfl, rfl, rfl, rfl⟩

theorem forgetRecent_sameBody (h : SameBody x y) (m : Nat) :
    SameBody (x.forgetRecent m) (y.forgetRecent m) := by
  obtain ⟨n, hh, rfl⟩ := h.head
  unfold Snapshot.forgetRecent
  dsimp only
  split_ifs
  · exact ⟨rfl, rfl, rfl, rfl⟩
  · exact SameBody.withHead x n hh

theorem discardVote_sameBody (h : SameBody x y) (signer a : Address) :
    SameBody (x.discardVote signer a) (y.discardVote signer a) := by
  obtain ⟨n, hh, rfl⟩ := h.head
  unfold Snapshot.discardVote
  dsimp only
  cases x.Votes.find? (fun v => v.Signer == signer && v.Address == a) with
  | none => exact SameBody.withHead x n hh
  | some v =>
    have hu := uncast_sameBody (SameBody.withHead x n hh) v.Address v.Authorize
    exact ⟨hu.signers, hu.recents, rfl, hu.tally⟩

theorem dropVotes_sameBody (p : Vote → Bool) (f : Snapshot → Vote → Snapshot)
    (hf : ∀ x y v, SameBody x y → SameBody (f x v) (f y v)) (i : Nat) :
    SameBody x y → SameBody (x.dropVotes p f i) (y.dropVotes p f i) := by
  induction x, i using Snapshot.dropVotes.induct p f generalizing y with
  | case1 x i hi hp ih =>
    intro h
    obtain ⟨n, hh, rfl⟩ := h.head
    conv_lhs => rw [Snapshot.dropVotes]
    conv_rhs => rw [Snapshot.dropVotes]
    dsimp only
    simp only [dif_pos hi, if_pos hp]
    have hb := hf _ _ x.Votes[i] (SameBody.withHead x n hh)
    exact ih ⟨hb.signers, hb.recents, rfl, hb.tally⟩
  | case2 x i hi hp ih =>
    intro h
    obtain ⟨n, hh, rfl⟩ := h.head
    conv_lhs => rw [Snapshot.dropVotes]
    conv_rhs => rw [Snapshot.dropVotes]
    dsimp only
    simp only [dif_pos hi, hp]
    exact ih (SameBody.withHead x n hh)
  | case3 x i hi =>
    intro h
    obtain ⟨n, hh, rfl⟩ := h.head
    conv_lhs => rw [Snapshot.dropVotes]
    conv_rhs => rw [Snapshot.dropVotes]
    dsimp only
    simp only [dif_neg hi]
    exact SameBody.withHead x n hh

theorem passVote_sameBody (h : SameBody x y) (m : Nat) (c : Address) :
    SameBody (x.passVote m c) (y.passVote m c) := by
  have hu : ∀ x y v, SameBody x y →
      SameBody ((fun (s : Snapshot) (v : Vote) => (s.uncast v.Address v.Authorize).2) x v)
        ((fun (s : Snapshot) (v : Vote) => (s.uncast v.Address v.Authorize).2) y v) :=
    fun _ _ v h => uncast_sameBody h v.Address v.Authorize
  have hid : ∀ x y (v : Vote), SameBody x y →
      SameBody ((fun (s : Snapshot) (_ : Vote) => s) x v) ((fun (s : Snapshot) (_ : Vote) => s) y v) :=
    fun _ _ _ h => h
  obtain ⟨n, hh, rfl⟩ := h.head
  unfold Snapshot.passVote
  dsimp only
  split_ifs
  · refine SameBody.setTally ?_ (·.erase c)
    exact dropVotes_sameBody _ _ hid 0 ⟨rfl, rfl, rfl, rfl⟩
  · refine SameBody.setTally ?_ (·.erase c)
    refine dropVotes_sameBody _ _ hid 0 (dropVotes_sameBody _ _ hu 0 (forgetRecent_sameBody ?_ m))
    exact ⟨rfl, rfl, rfl, rfl⟩
  · exact SameBody.withHead x n hh

theorem beginHeader_sameBody (cfg : CliqueConfig) (h : SameBody x y) (m : Nat) :
    SameBody (x.beginHeader cfg m) (y.beginHeader cfg m) := by
  obtain ⟨n, hh, rfl⟩ := h.head
  unfold Snapshot.beginHeader
  dsimp only
  split_ifs
  · refine forgetRecent_sameBody ?_ m
    exact ⟨rfl, rfl, rfl, rfl⟩
  · exact forgetRecent_sameBody (SameBody.withHead x n hh) m

theorem checkSigner_sameBody (h : SameBody x y) (signer : Address) :
    x.checkSigner signer = y.checkSigner signer := by
  unfold Snapshot.checkSigner
  rw [h.signers, h.recents]

theorem castVote_sameBody (h : SameBody x y) (vote : Vote) :
    SameBody (x.castVote vote) (y.castVote vote) := by
  obtain ⟨hb, hs⟩ := cast_sameBody h vote.Address vote.Authorize
  unfold Snapshot.castVote
  generalize x.cast vote.Address vote.Authorize = px at hb hs ⊢
  generalize y.cast vote.Address vote.Authorize = py at hb hs ⊢
  obtain ⟨bx, sx⟩ := px
  obtain ⟨by', sy⟩ := py
  dsimp only at hb hs
  subst hb
  cases bx
  · exact hs
  · exact ⟨hs.signers, hs.recents, congrArg (· ++ [vote]) hs.votes, hs.tally⟩

end Body

/-! ## Cutting a replay -/

section Cut

variable {cfg : CliqueConfig} {ecrecover : Header → Option Address}
  {headerHash : Header → Btp.Hash}

/-- The converse of `castHeader_ok`: a header whose checks pass is cast. -/
theorem castHeader_of_checks {snap : Snapshot} {header : Header} {signer : Address}
    {authorize : Bool} (hrec : ecrecover header = some signer)
    (hcheck : (snap.beginHeader cfg header.Number).checkSigner signer = .ok ())
    (hvote : voteOf header.Nonce = .ok authorize) :
    snap.castHeader cfg ecrecover header = .ok (({ snap.beginHeader cfg header.Number with
        Recents := (snap.beginHeader cfg header.Number).Recents.insert header.Number signer
      }.discardVote signer header.Coinbase).castVote
        ⟨signer, header.Number, header.Coinbase, authorize⟩) := by
  unfold Snapshot.castHeader
  simp only [hrec, pure_bind, hcheck, hvote]
  rfl

theorem castHeader_sameBody {x y x' : Snapshot} (h : SameBody x y) {header : Header}
    (hx : x.castHeader cfg ecrecover header = .ok x') :
    ∃ y', y.castHeader cfg ecrecover header = .ok y' ∧ SameBody x' y' := by
  obtain ⟨signer, authorize, hrec, hcheck, hvote, rfl⟩ := castHeader_ok hx
  have hb := beginHeader_sameBody cfg h header.Number
  refine ⟨_, castHeader_of_checks hrec (checkSigner_sameBody hb signer ▸ hcheck) hvote, ?_⟩
  exact castVote_sameBody
    (discardVote_sameBody (hb.setRecents (·.insert header.Number signer)) _ _) _

theorem applyHeader_sameBody {x y x' : Snapshot} (h : SameBody x y) {header : Header}
    (hx : x.applyHeader cfg ecrecover header = .ok x') :
    ∃ y', y.applyHeader cfg ecrecover header = .ok y' ∧ SameBody x' y' := by
  obtain ⟨x₁, h₁, rfl⟩ := applyHeader_ok.mp hx
  obtain ⟨y₁, hy₁, hb⟩ := castHeader_sameBody h h₁
  exact ⟨_, applyHeader_ok.mpr ⟨y₁, hy₁, rfl⟩, passVote_sameBody hb _ _⟩

/-- Replaying headers on alike snapshots gives alike snapshots. -/
theorem foldlM_sameBody {x y x' : Snapshot} (h : SameBody x y) {headers : List Header}
    (hx : headers.foldlM (Snapshot.applyHeader cfg ecrecover) x = .ok x') :
    ∃ y', headers.foldlM (Snapshot.applyHeader cfg ecrecover) y = .ok y' ∧ SameBody x' y' :=
  foldlM_ok_sim (f := Snapshot.applyHeader cfg ecrecover) (g := Snapshot.applyHeader cfg ecrecover)
    SameBody (fun _ _ _ _ hr hs => applyHeader_sameBody hr hs) headers h hx

theorem foldlM_applyHeader_Number {x x' : Snapshot} {headers : List Header}
    (h : headers.foldlM (Snapshot.applyHeader cfg ecrecover) x = .ok x') :
    x'.Number = x.Number :=
  foldlM_ok_inv (fun s => s.Number = x.Number)
    (fun _ _ _ hs hn => (applyHeader_Number hs).trans hn) headers h rfl

/-- The last header of a contiguous run is as many blocks past the first as
the run has headers after it. -/
theorem contiguous_getLast_Number {a : Header} {l : List Header} (h : contiguous (a :: l) = true) :
    ((a :: l).getLast (List.cons_ne_nil _ _)).Number = a.Number + l.length := by
  induction l generalizing a with
  | nil => rfl
  | cons b l ih =>
    simp only [contiguous, Bool.and_eq_true, beq_iff_eq] at h
    rw [List.getLast_cons (List.cons_ne_nil _ _), ih h.2, h.1, List.length_cons]
    omega

/-- Two runs make one when the second starts right after the first ends. -/
theorem contiguous_append {a b : Header} {l₁ l₂ : List Header} :
    contiguous (a :: l₁ ++ b :: l₂) = true ↔
      contiguous (a :: l₁) = true ∧ contiguous (b :: l₂) = true ∧
        b.Number = ((a :: l₁).getLast (List.cons_ne_nil _ _)).Number + 1 := by
  induction l₁ generalizing a with
  | nil =>
    simp only [List.cons_append, List.nil_append, contiguous, Bool.and_eq_true, beq_iff_eq,
      List.getLast_singleton, true_and]
    exact and_comm
  | cons c l₁ ih =>
    simp only [List.cons_append, contiguous, Bool.and_eq_true, beq_iff_eq] at ih ⊢
    rw [ih, List.getLast_cons (List.cons_ne_nil _ _)]
    constructor
    · rintro ⟨h₁, h₂, h₃, h₄⟩
      exact ⟨⟨h₁, h₂⟩, h₃, h₄⟩
    · rintro ⟨⟨h₁, h₂⟩, h₃, h₄⟩
      exact ⟨h₁, h₂, h₃, h₄⟩

theorem apply_cons_eq_ok {s s' : Snapshot} {first : Header} {rest : List Header} :
    s.apply cfg ecrecover headerHash (first :: rest) = .ok s' ↔
      contiguous (first :: rest) = true ∧ first.Number = s.Number + 1 ∧
        ∃ snap, (first :: rest).foldlM (Snapshot.applyHeader cfg ecrecover) s = .ok snap ∧
          s' = { snap with Number := snap.Number + (rest.length + 1),
                           Hash := headerHash ((first :: rest).getLast (List.cons_ne_nil _ _)) } := by
  unfold Snapshot.apply
  dsimp only
  by_cases hc : contiguous (first :: rest) = true
  · by_cases hn : first.Number = s.Number + 1
    · rw [if_neg (by simp [hc]), if_neg (by simp [hn]), bind_eq_ok]
      simp only [pure_eq_ok, List.length_cons, hc, hn, true_and]
      constructor <;> rintro ⟨snap, h₁, h₂⟩ <;> exact ⟨snap, h₁, h₂.symm⟩
    · rw [if_neg (by simp [hc]), if_pos hn]
      simp [hn]
  · rw [if_pos (by simpa using hc)]
    simp [hc]

/-- The snapshots that the end of a cut replay and the whole replay return:
alike bodies, the same number of blocks past where each fold started. -/
theorem apply_result_eq {x y : Snapshot} (h : SameBody x y) {n m : Nat} {hh : Btp.Hash}
    (hn : x.Number + n = y.Number + m) :
    { x with Number := x.Number + n, Hash := hh } = { y with Number := y.Number + m, Hash := hh } :=
  SameBody.eq ⟨h.signers, h.recents, h.votes, h.tally⟩ hn rfl

theorem apply_append_of_bind {s s₁ r : Snapshot} {a b : Header} {l₁ l₂ : List Header}
    (h₁ : s.apply cfg ecrecover headerHash (a :: l₁) = .ok s₁)
    (h₂ : s₁.apply cfg ecrecover headerHash (b :: l₂) = .ok r) :
    s.apply cfg ecrecover headerHash (a :: l₁ ++ b :: l₂) = .ok r := by
  obtain ⟨hc₁, hn₁, snap₁, hf₁, rfl⟩ := apply_cons_eq_ok.mp h₁
  obtain ⟨hc₂, hn₂, snap₂, hf₂, rfl⟩ := apply_cons_eq_ok.mp h₂
  -- the second part ran on `snap₁` under the head the first part gave it
  obtain ⟨t, ht, hbody⟩ := foldlM_sameBody (SameBody.withHead snap₁ _ _).symm hf₂
  have hN₁ := foldlM_applyHeader_Number hf₁
  have hN₂ := foldlM_applyHeader_Number hf₂
  have hNt := foldlM_applyHeader_Number ht
  have hlast := contiguous_getLast_Number hc₁
  dsimp only at hn₂ hN₂
  rw [List.cons_append, apply_cons_eq_ok]
  refine ⟨?_, hn₁, t, ?_, ?_⟩
  · rw [← List.cons_append, contiguous_append]
    exact ⟨hc₁, hc₂, by omega⟩
  · rw [← List.cons_append, List.foldlM_append, hf₁]
    exact ht
  · have hlast' : (a :: (l₁ ++ b :: l₂)).getLast (List.cons_ne_nil _ _) =
        (b :: l₂).getLast (List.cons_ne_nil _ _) := by simp
    rw [hlast']
    refine apply_result_eq hbody ?_
    simp only [List.length_append, List.length_cons]
    omega

theorem apply_bind_of_append {s r : Snapshot} {a b : Header} {l₁ l₂ : List Header}
    (h : s.apply cfg ecrecover headerHash (a :: l₁ ++ b :: l₂) = .ok r) :
    ∃ s₁, s.apply cfg ecrecover headerHash (a :: l₁) = .ok s₁ ∧
      s₁.apply cfg ecrecover headerHash (b :: l₂) = .ok r := by
  rw [List.cons_append, apply_cons_eq_ok] at h
  obtain ⟨hc, hn, snap, hf, rfl⟩ := h
  rw [← List.cons_append, contiguous_append] at hc
  obtain ⟨hc₁, hc₂, hb⟩ := hc
  rw [← List.cons_append, List.foldlM_append, bind_eq_ok] at hf
  obtain ⟨snap₁, hf₁, hf₂⟩ := hf
  have hlast := contiguous_getLast_Number hc₁
  have hN₁ := foldlM_applyHeader_Number hf₁
  have hN := foldlM_applyHeader_Number hf₂
  -- the rest of the fold, run on `snap₁` under the head the first part gives it
  obtain ⟨t, ht, hbody⟩ := foldlM_sameBody
    (SameBody.withHead snap₁ (snap₁.Number + (l₁.length + 1))
      (headerHash ((a :: l₁).getLast (List.cons_ne_nil _ _)))) hf₂
  have hNt := foldlM_applyHeader_Number ht
  dsimp only at hNt
  refine ⟨_, apply_cons_eq_ok.mpr ⟨hc₁, hn, snap₁, hf₁, rfl⟩,
    apply_cons_eq_ok.mpr ⟨hc₂, by dsimp only; omega, t, ht, ?_⟩⟩
  have hlast' : (a :: (l₁ ++ b :: l₂)).getLast (List.cons_ne_nil _ _) =
      (b :: l₂).getLast (List.cons_ne_nil _ _) := by simp
  rw [hlast']
  refine apply_result_eq hbody ?_
  simp only [List.length_append, List.length_cons]
  omega

/-- Replaying `h₁` and then `h₂` is replaying `h₁ ++ h₂`: the one succeeds
exactly when the other does, with the same snapshot. -/
theorem apply_append {s r : Snapshot} {h₁ h₂ : List Header} :
    (s.apply cfg ecrecover headerHash h₁ >>= fun s₁ => s₁.apply cfg ecrecover headerHash h₂) =
        .ok r ↔ s.apply cfg ecrecover headerHash (h₁ ++ h₂) = .ok r := by
  have hnil : ∀ t : Snapshot, t.apply cfg ecrecover headerHash [] = pure t := fun _ => rfl
  match h₁, h₂ with
  | [], _ => rw [hnil, pure_bind, List.nil_append]
  | _ :: _, [] => simp only [hnil, bind_pure, List.append_nil]
  | a :: l₁, b :: l₂ =>
    rw [bind_eq_ok]
    constructor
    · rintro ⟨s₁, h₁, h₂⟩
      exact apply_append_of_bind h₁ h₂
    · exact apply_bind_of_append

end Cut

/-! ## `Clique.snapshot` -/

/-- Number of blocks after which to save the vote snapshot to the database. -/
def checkpointInterval : Nat := 1024

/-- Fixed number of extra-data prefix bytes reserved for signer vanity. -/
def extraVanity : Nat := 32

/-- Fixed number of extra-data suffix bytes reserved for signer seal. -/
def extraSeal : Nat := 65

/-- `params.ImmutabilityThreshold`: the number of blocks after which a chain
segment is considered immutable. -/
def ImmutabilityThreshold : Nat := 90000

/-- The errors of `snapshot`: a header the walk needs is missing, or `apply`
refused the headers gathered. -/
inductive SnapshotError where
  | ErrUnknownAncestor
  | apply (e : CliqueError)
deriving DecidableEq, Repr

/-- The parts of `consensus.ChainReader` that `snapshot` reads: the canonical
header at a number, and the header of a hash and number. -/
structure ChainReader where
  GbtpeaderByNumber : Nat → Option Header
  Gbtpeader : Btp.Hash → Nat → Option Header

/-- What `snapshot` reads and writes of the engine: `recents`, the in-memory
cache of snapshots by block hash, and the snapshots in the database under
`clique-` and a block hash. A snapshot read back from its JSON is the one
stored, so the database holds snapshots. -/
structure Clique where
  recents : Btp.Hash → Option Snapshot
  db : Btp.Hash → Option Snapshot

/-- `Snapshot.store`: the database gains the snapshot under its hash. -/
def Snapshot.store (s : Snapshot) (c : Clique) : Clique :=
  { c with db := Function.update c.db s.Hash (some s) }

/-- The signers a checkpoint header lists in its extra-data, between the
vanity and the seal. Their number is computed with Go's `int`s: below zero
`make` panics (`none`), and the division rounds toward zero. Each address is
copied whole, as the seal follows it. -/
def checkpointSigners (extra : List UInt8) : Option (List Address) :=
  let n := ((extra.length : Int) - extraVanity - extraSeal).tdiv AddressLength
  if n < 0 then none
  else some ((List.range n.toNat).map fun i =>
    BitVec.ofNat 160
      (ByteBits.ofBytesBE ((extra.drop (extraVanity + i * AddressLength)).take AddressLength)))

/-- The snapshot the walk finds ready at `(number, hash)`: in memory, or else
on disk at a checkpoint interval. -/
def Clique.cached (c : Clique) (number : Nat) (hash : Btp.Hash) : Option Snapshot :=
  match c.recents hash with
  | some s => some s
  | none => if number % checkpointInterval = 0 then c.db hash else none

/-- Whether the walk takes the header at `number` as a trusted checkpoint:
at the genesis, or at an epoch block without a parent on the chain or with
more than `ImmutabilityThreshold` headers gathered above it. -/
def trustsCheckpoint (cfg : CliqueConfig) (chain : ChainReader) (number gathered : Nat) : Bool :=
  number == 0 || (number % cfg.Epoch == 0 &&
    (decide (gathered > ImmutabilityThreshold) || (chain.GbtpeaderByNumber (number - 1)).isNone))

/-- The header the walk gathers at `(number, hash)`, with the parents left:
the last explicit parent, which must be that block, or else the chain's header
of that hash and number. -/
def nextHeader (chain : ChainReader) (headerHash : Header → Btp.Hash) (number : Nat)
    (hash : Btp.Hash) (parents : List Header) : Except SnapshotError (Header × List Header) :=
  match parents.getLast? with
  | some header =>
    if headerHash header ≠ hash ∨ header.Number ≠ number then throw .ErrUnknownAncestor
    else pure (header, parents.dropLast)
  | none =>
    match chain.Gbtpeader hash number with
    | some header => pure (header, [])
    | none => throw .ErrUnknownAncestor

/-- The walk of `snapshot`, for at most `fuel` rounds, from block `number` of
hash `hash`, with `parents` still to use and the `headers` gathered so far,
newest first. It ends with the engine, whose database may have gained a
checkpoint, the snapshot found and the headers gathered; `none` when `make`
panics or the rounds run out. -/
def Clique.search (c : Clique) (cfg : CliqueConfig) (chain : ChainReader)
    (headerHash parentHash : Header → Btp.Hash) :
    Nat → Nat → Btp.Hash → List Header → List Header →
      Option (Except SnapshotError (Clique × Snapshot × List Header))
  | 0, _, _, _, _ => none
  | fuel + 1, number, hash, parents, headers =>
    match c.cached number hash with
    | some snap => some (.ok (c, snap, headers))
    | none =>
      let checkpoint :=
        if trustsCheckpoint cfg chain number headers.length then chain.GbtpeaderByNumber number
        else none
      match checkpoint with
      | some checkpoint =>
        (checkpointSigners checkpoint.Extra).map fun signers =>
          let snap := newSnapshot number (headerHash checkpoint) signers
          .ok (snap.store c, snap, headers)
      | none =>
        -- no snapshot for this header, gather the header and move backward
        match nextHeader chain headerHash number hash parents with
        | .error e => some (.error e)
        | .ok (header, parents) =>
          Clique.search c cfg chain headerHash parentHash fuel (uint64Sub number 1)
            (parentHash header) parents (headers ++ [header])

/-- `Clique.snapshot`: the walk, then the headers gathered applied oldest
first on the snapshot found; the result is cached, and stored when it is a
new checkpoint. The cache of recent snapshots holds at most 128 of them: what
it evicts is not modelled, and the results below hold whatever it holds. -/
def Clique.snapshot (c : Clique) (cfg : CliqueConfig) (ecrecover : Header → Option Address)
    (chain : ChainReader) (headerHash parentHash : Header → Btp.Hash) (fuel number : Nat)
    (hash : Btp.Hash) (parents : List Header) : Option (Except SnapshotError (Clique × Snapshot)) :=
  (c.search cfg chain headerHash parentHash fuel number hash parents []).map fun found => do
    let (c, snap, headers) ← found
    let snap ← (snap.apply cfg ecrecover headerHash headers.reverse).mapError .apply
    let c := { c with recents := Function.update c.recents snap.Hash (some snap) }
    pure (if snap.Number % checkpointInterval = 0 ∧ 0 < headers.length then snap.store c else c,
      snap)

/-! ## Rebuilding from any cache -/

/-- The chain `snapshot` walks: header `i` has number `i` and names the hash
of header `i - 1` as its parent, the chain reader returns each header by
number and by hash and number, and no two headers share a hash. -/
structure ChainOf (chain : ChainReader) (headerHash parentHash : Header → Btp.Hash)
    (H : List Header) : Prop where
  number : ∀ i (h : i < H.length), H[i].Number = i
  parent : ∀ i (h : i + 1 < H.length), parentHash H[i + 1] = headerHash H[i]
  byNumber : ∀ i (h : i < H.length), chain.GbtpeaderByNumber i = some H[i]
  byHash : ∀ i (h : i < H.length), chain.Gbtpeader (headerHash H[i]) i = some H[i]
  hashes : ∀ i j (hi : i < H.length) (hj : j < H.length),
    headerHash H[i] = headerHash H[j] → i = j

/-- The snapshot at block `n` of `H`: the headers `1..n` replayed on the
snapshot `genesis` of its first block. -/
def replay (cfg : CliqueConfig) (ecrecover : Header → Option Address)
    (headerHash : Header → Btp.Hash) (genesis : Snapshot) (H : List Header) (n : Nat) :
    Except CliqueError Snapshot :=
  genesis.apply cfg ecrecover headerHash ((H.take (n + 1)).drop 1)

/-- A table of snapshots by block hash whose every entry for a block of `H`
is the replay of that block. -/
def ReplaysOf (cfg : CliqueConfig) (ecrecover : Header → Option Address)
    (headerHash : Header → Btp.Hash) (genesis : Snapshot) (H : List Header)
    (T : Btp.Hash → Option Snapshot) : Prop :=
  ∀ i (h : i < H.length) s, T (headerHash H[i]) = some s →
    replay cfg ecrecover headerHash genesis H i = .ok s

/-- What `snapshot` assumes of the snapshots it has made before: in memory
and on disk, each is the replay of its block. -/
structure CacheInv (cfg : CliqueConfig) (ecrecover : Header → Option Address)
    (headerHash : Header → Btp.Hash) (genesis : Snapshot) (H : List Header) (c : Clique) :
    Prop where
  recents : ReplaysOf cfg ecrecover headerHash genesis H c.recents
  db : ReplaysOf cfg ecrecover headerHash genesis H c.db

section Rebuild

variable {cfg : CliqueConfig} {ecrecover : Header → Option Address} {chain : ChainReader}
  {headerHash parentHash : Header → Btp.Hash} {genesis : Snapshot} {H : List Header}

/-- A table gaining the replay of a block under that block's hash still holds
replays only: no other block has that hash. -/
theorem ReplaysOf.update {T : Btp.Hash → Option Snapshot}
    (hT : ReplaysOf cfg ecrecover headerHash genesis H T)
    (hH : ChainOf chain headerHash parentHash H) {n : Nat} (hn : n < H.length) {s : Snapshot}
    (hs : replay cfg ecrecover headerHash genesis H n = .ok s) (hhash : s.Hash = headerHash H[n]) :
    ReplaysOf cfg ecrecover headerHash genesis H (Function.update T s.Hash (some s)) := by
  intro i hi s' h
  by_cases he : headerHash H[i] = s.Hash
  · rw [he, Function.update_self] at h
    obtain rfl := Option.some.inj h
    obtain rfl := hH.hashes i n hi hn (he.trans hhash)
    exact hs
  · rw [Function.update_of_ne he] at h
    exact hT i hi s' h

theorem CacheInv.cached {c : Clique} (hc : CacheInv cfg ecrecover headerHash genesis H c) {i : Nat}
    (hi : i < H.length) {s : Snapshot} (h : c.cached i (headerHash H[i]) = some s) :
    replay cfg ecrecover headerHash genesis H i = .ok s := by
  unfold Clique.cached at h
  split at h
  · rename_i s' hs
    obtain rfl := Option.some.inj h
    exact hc.recents i hi s' hs
  · split_ifs at h
    exact hc.db i hi s h

theorem CacheInv.store {c : Clique} (hc : CacheInv cfg ecrecover headerHash genesis H c)
    (hH : ChainOf chain headerHash parentHash H) {n : Nat} (hn : n < H.length) {s : Snapshot}
    (hs : replay cfg ecrecover headerHash genesis H n = .ok s) (hhash : s.Hash = headerHash H[n]) :
    CacheInv cfg ecrecover headerHash genesis H (s.store c) :=
  ⟨hc.recents, hc.db.update hH hn hs hhash⟩

theorem replay_zero : replay cfg ecrecover headerHash genesis H 0 = .ok genesis := by
  have hnil : (H.take 1).drop 1 = [] := List.drop_eq_nil_of_le (by simp)
  rw [replay, zero_add, hnil]
  rfl

/-- The blocks `1..n` are the blocks `1..k` and then `k+1..n`. -/
theorem take_drop_split {k n : Nat} (hkn : k ≤ n) (hn : n < H.length) :
    (H.take (n + 1)).drop 1 = (H.take (k + 1)).drop 1 ++ (H.take (n + 1)).drop (k + 1) := by
  have htake : H.take (k + 1) = (H.take (n + 1)).take (k + 1) := by
    rw [List.take_take, Nat.min_eq_left (by omega)]
  rw [htake, ← List.drop_append_of_le_length (by simp; omega), List.take_append_drop]

/-- From the replay of block `k`, replaying the blocks above it up to `n`
gives the replay of block `n`. -/
theorem replay_step {k n : Nat} (hkn : k ≤ n) (hn : n < H.length) {s r : Snapshot}
    (hs : replay cfg ecrecover headerHash genesis H k = .ok s)
    (hr : replay cfg ecrecover headerHash genesis H n = .ok r) :
    s.apply cfg ecrecover headerHash ((H.take (n + 1)).drop (k + 1)) = .ok r := by
  unfold replay at hs hr
  rw [take_drop_split hkn hn, ← apply_append, hs] at hr
  exact hr

/-- A chain that `apply` accepts from genesis is accepted up to each block. -/
theorem replay_ok_of_accepted {final : Snapshot}
    (hacc : genesis.apply cfg ecrecover headerHash (H.drop 1) = .ok final) {n : Nat}
    (hn : n < H.length) : ∃ r, replay cfg ecrecover headerHash genesis H n = .ok r := by
  have hsplit : H.drop 1 = (H.take (n + 1)).drop 1 ++ H.drop (n + 1) := by
    conv_lhs => rw [← List.take_append_drop (n + 1) H]
    rw [List.drop_append_of_le_length (by simp; omega)]
  rw [hsplit, ← apply_append, bind_eq_ok] at hacc
  obtain ⟨r, hr, -⟩ := hacc
  exact ⟨r, hr⟩

/-- The last of the blocks `1..n` is block `n`. -/
theorem getLast_take_drop {n : Nat} (hn : n < H.length) (h : (H.take (n + 1)).drop 1 ≠ []) :
    ((H.take (n + 1)).drop 1).getLast h = H[n] := by
  have hpos : 0 < n := by
    rcases Nat.eq_zero_or_pos n with h0 | h0
    · subst h0
      exact absurd (List.drop_eq_nil_of_le (by simp)) h
    · exact h0
  simp only [List.getLast_eq_getElem, List.getElem_drop, List.getElem_take, List.length_drop,
    List.length_take]
  congr 1
  omega

/-- The replay of block `n` has the number and hash of block `n`. -/
theorem replay_head {n : Nat} (hn : n < H.length) {r : Snapshot} (hg : genesis.Number = 0)
    (hgh : genesis.Hash = headerHash H[0]) (hr : replay cfg ecrecover headerHash genesis H n = .ok r) :
    r.Number = n ∧ r.Hash = headerHash H[n] := by
  have hlen : ((H.take (n + 1)).drop 1).length = n := by
    simp only [List.length_drop, List.length_take]
    omega
  unfold replay at hr
  rcases apply_ok hr with ⟨hnil, rfl⟩ | ⟨first, rest, snap, hl, -, -, hfold, rfl⟩
  · -- nothing replayed: the genesis itself
    have h0 : n = 0 := by rw [← hlen, hnil, List.length_nil]
    subst h0
    exact ⟨hg, hgh⟩
  · refine ⟨by rw [foldlM_applyHeader_Number hfold, hg, hlen, zero_add], ?_⟩
    have hlast := getLast_take_drop hn (by rw [hl]; exact List.cons_ne_nil _ _)
    simp only [hl] at hlast
    dsimp only
    rw [hlast]

/-- At a block of the chain the walk gathers that block: from the parents
while any are left, and from the chain after. -/
theorem nextHeader_chain (hH : ChainOf chain headerHash parentHash H) {k : Nat}
    (hk : k < H.length) (p : Nat) :
    nextHeader chain headerHash k (headerHash H[k]) ((H.take (k + 1)).drop p) =
      .ok (H[k], (H.take k).drop p) := by
  unfold nextHeader
  by_cases hp : p ≤ k
  · have hlast : ((H.take (k + 1)).drop p).getLast? = some H[k] := by
      simp only [List.getLast?_drop, List.getLast?_take]
      simp [hk]
      omega
    have hrest : ((H.take (k + 1)).drop p).dropLast = (H.take k).drop p := by
      rw [List.dropLast_drop_eq_drop_dropLast, List.take_add_one, List.getElem?_eq_getElem hk,
        Option.toList_some, List.dropLast_concat]
    rw [hlast]
    dsimp only
    rw [if_neg (by simp [hH.number k hk]), hrest]
    rfl
  · have hnil : (H.take (k + 1)).drop p = [] := List.drop_eq_nil_of_le (by simp; omega)
    have hnil' : (H.take k).drop p = [] := List.drop_eq_nil_of_le (by simp; omega)
    rw [hnil, hnil', List.getLast?_nil]
    dsimp only
    rw [hH.byHash k hk]
    rfl

/-- The walk from block `k`, with the parents below `k` still to use and the
headers above `k` up to `n` gathered, when no snapshot is ready above `k` and
no epoch block deep enough for the trusted-checkpoint shortcut can be reached:
it stops at a block `j ≤ k` with the replay of `j`, having gathered the headers
above `j`, and the engine still holds replays only. The induction is on `k`,
one round of the walk per block. -/
theorem search_spec (hH : ChainOf chain headerHash parentHash H) {c : Clique}
    (hc : CacheInv cfg ecrecover headerHash genesis H c) (h0 : 0 < H.length)
    {signers : List Address} (hsig : checkpointSigners H[0].Extra = some signers)
    (hgen : genesis = newSnapshot 0 (headerHash H[0]) signers) {n : Nat} (hn : n < H.length)
    (p : Nat)
    (hshort : ∀ k, 0 < k → k ≤ n → k % cfg.Epoch = 0 → ImmutabilityThreshold < n - k →
      ∃ j, ∃ hjn : j ≤ n, k ≤ j ∧ (c.cached j (headerHash H[j])).isSome) :
    ∀ k (hk : k ≤ n), (∀ i, k < i → ∀ hin : i ≤ n, c.cached i (headerHash H[i]) = none) →
      ∀ fuel, k < fuel →
      ∃ c' j s, c.search cfg chain headerHash parentHash fuel k (headerHash H[k])
          ((H.take (k + 1)).drop p) ((H.take (n + 1)).drop (k + 1)).reverse =
            some (.ok (c', s, ((H.take (n + 1)).drop (j + 1)).reverse)) ∧
        j ≤ k ∧ replay cfg ecrecover headerHash genesis H j = .ok s ∧
        CacheInv cfg ecrecover headerHash genesis H c' := by
  intro k
  induction k with
  | zero =>
    intro hk hnone fuel hfuel
    obtain ⟨fuel, rfl⟩ : ∃ f, fuel = f + 1 := ⟨fuel - 1, by omega⟩
    rw [Clique.search]
    cases hcache : c.cached 0 (headerHash H[0]) with
    | some s => exact ⟨c, 0, s, rfl, le_rfl, hc.cached h0 hcache, hc⟩
    | none =>
      -- the genesis checkpoint, built from the signers in its extra-data
      have htrust : trustsCheckpoint cfg chain 0
          ((H.take (n + 1)).drop (0 + 1)).reverse.length = true := rfl
      dsimp only
      rw [htrust, if_pos rfl, hH.byNumber 0 h0]
      dsimp only
      rw [hsig, Option.map_some, ← hgen]
      have hhash : genesis.Hash = headerHash H[0] := by rw [hgen]; rfl
      exact ⟨genesis.store c, 0, genesis, rfl, le_rfl, replay_zero,
        hc.store hH h0 replay_zero hhash⟩
  | succ k ih =>
    intro hk hnone fuel hfuel
    obtain ⟨fuel, rfl⟩ : ∃ f, fuel = f + 1 := ⟨fuel - 1, by omega⟩
    have hk' : k + 1 < H.length := by omega
    rw [Clique.search]
    cases hcache : c.cached (k + 1) (headerHash H[k + 1]) with
    | some s => exact ⟨c, k + 1, s, rfl, le_rfl, hc.cached hk' hcache, hc⟩
    | none =>
      -- no shortcut: the parent is on the chain, and above a deep epoch block a
      -- snapshot would have been ready
      have hgathered : ((H.take (n + 1)).drop (k + 1 + 1)).reverse.length = n - (k + 1) := by
        simp only [List.length_reverse, List.length_drop, List.length_take]
        omega
      have htrust : trustsCheckpoint cfg chain (k + 1)
          ((H.take (n + 1)).drop (k + 1 + 1)).reverse.length = false := by
        rw [hgathered, Bool.eq_false_iff]
        intro htrue
        simp only [trustsCheckpoint, Nat.add_sub_cancel, hH.byNumber k (by omega),
          Option.isNone_some, Bool.or_false, Bool.or_eq_true, Bool.and_eq_true, beq_iff_eq,
          decide_eq_true_eq] at htrue
        obtain h | ⟨hepoch, hdeep⟩ := htrue
        · omega
        obtain ⟨j, hj₂, hj₁, hj⟩ := hshort (k + 1) (by omega) hk hepoch hdeep
        rcases Nat.eq_or_lt_of_le hj₁ with rfl | hlt
        · rw [hcache] at hj
          exact absurd hj (by simp)
        · rw [hnone j hlt hj₂] at hj
          exact absurd hj (by simp)
      dsimp only
      rw [htrust, if_neg Bool.false_ne_true, nextHeader_chain hH hk' p]
      dsimp only
      -- the walk moves to the parent, block `k`
      have hnum : uint64Sub (k + 1) 1 = k := by
        rw [uint64Sub_of_le (by simpa [hH.number (k + 1) hk'] using H[k + 1].number_lt)
          (by omega)]
        rfl
      have hgather : ((H.take (n + 1)).drop (k + 1 + 1)).reverse ++ [H[k + 1]] =
          ((H.take (n + 1)).drop (k + 1)).reverse := by
        rw [List.drop_eq_getElem_cons (show k + 1 < (H.take (n + 1)).length by simp; omega),
          List.reverse_cons, List.getElem_take]
      rw [hnum, hH.parent k hk', hgather]
      have hnone' : ∀ i, k < i → ∀ hin : i ≤ n, c.cached i (headerHash H[i]) = none := by
        intro i hi hin
        rcases Nat.eq_or_lt_of_le (Nat.succ_le_of_lt hi) with rfl | hlt
        · exact hcache
        · exact hnone i hlt hin
      obtain ⟨c', j, s, hs, hj, hr, hc'⟩ := ih (by omega) hnone' fuel (by omega)
      exact ⟨c', j, s, hs, by omega, hr, hc'⟩

/-- `snapshot` at block `n` of the chain, whatever snapshots of the chain the
engine holds and however many of the blocks up to `n` are passed as parents,
returns the replay of block `n` when the trusted-checkpoint shortcut cannot be
taken, and the engine it leaves holds replays only. -/
theorem snapshot_spec (hH : ChainOf chain headerHash parentHash H) {c : Clique}
    (hc : CacheInv cfg ecrecover headerHash genesis H c) (h0 : 0 < H.length)
    {signers : List Address} (hsig : checkpointSigners H[0].Extra = some signers)
    (hgen : genesis = newSnapshot 0 (headerHash H[0]) signers) {n : Nat} (hn : n < H.length)
    (p : Nat)
    (hshort : ∀ k, 0 < k → k ≤ n → k % cfg.Epoch = 0 → ImmutabilityThreshold < n - k →
      ∃ j, ∃ hjn : j ≤ n, k ≤ j ∧ (c.cached j (headerHash H[j])).isSome)
    {r : Snapshot} (hr : replay cfg ecrecover headerHash genesis H n = .ok r) {fuel : Nat}
    (hfuel : n < fuel) :
    ∃ c', c.snapshot cfg ecrecover chain headerHash parentHash fuel n (headerHash H[n])
        ((H.take (n + 1)).drop p) = some (.ok (c', r)) ∧
      CacheInv cfg ecrecover headerHash genesis H c' := by
  have hnil : ((H.take (n + 1)).drop (n + 1)).reverse = [] := by
    rw [List.reverse_eq_nil_iff]
    exact List.drop_eq_nil_of_le (by simp)
  obtain ⟨c₁, j, s, hs, hj, hsr, hc₁⟩ := search_spec hH hc h0 hsig hgen hn p hshort n le_rfl
    (fun i hi hin => absurd hin (by omega)) fuel hfuel
  rw [hnil] at hs
  have happ := replay_step hj hn hsr hr
  obtain ⟨-, hhash⟩ := replay_head hn (by rw [hgen]; rfl) (by rw [hgen]; rfl) hr
  -- the replay is cached under the hash of block `n`, and stored there at a checkpoint
  have hc₂ : CacheInv cfg ecrecover headerHash genesis H
      { c₁ with recents := Function.update c₁.recents r.Hash (some r) } :=
    ⟨hc₁.recents.update hH hn hr hhash, hc₁.db⟩
  refine ⟨?c', ?run, ?inv⟩
  case run =>
    unfold Clique.snapshot
    rw [hs, Option.map_some]
    simp only [bind, Except.bind, List.reverse_reverse, happ, Except.mapError]
    rfl
  case inv =>
    split
    · exact hc₂.store hH hn hr hhash
    · exact hc₂

end Rebuild

/-! ## Any cache, any split -/

/-- A genesis header listing signers 1 to 4 between its vanity and its seal. -/
def genesisHeader : Header :=
  ⟨0, by decide, 0, nonceDropVote, 0, List.replicate 32 0 ++
    ([1, 2, 3, 4].flatMap fun a => List.replicate 19 0 ++ [a]) ++ List.replicate 65 0⟩

/-- Header hashes by number, which tell the blocks of one chain apart. -/
def numberHash (header : Header) : Btp.Hash := BitVec.ofNat 256 header.Number

/-- The parent hash that goes with `numberHash`. -/
def parentNumberHash (header : Header) : Btp.Hash := BitVec.ofNat 256 (header.Number - 1)

/-- A chain reader serving the headers of a list by their number. -/
def ChainReader.ofList (H : List Header) : ChainReader := ⟨fun i => H[i]?, fun _ i => H[i]?⟩

/-- Replaying on a snapshot can be cut anywhere. `Clique.snapshot` at block
`n` of a chain that `apply` accepts from its genesis checkpoint returns the
replay of the headers `1..n` on that checkpoint, whatever replays the
in-memory cache and the database hold and however many of the blocks are
passed as explicit parents, as long as the trusted-checkpoint shortcut is
never reached; and it leaves both holding replays only. -/
theorem snapshot_replays_from_genesis (cfg : CliqueConfig) (ecrecover : Header → Option Address)
    (chain : ChainReader) (headerHash parentHash : Header → Btp.Hash) :
    (∀ (s r : Snapshot) (h₁ h₂ : List Header),
      (s.apply cfg ecrecover headerHash h₁ >>= fun s₁ => s₁.apply cfg ecrecover headerHash h₂) =
          .ok r ↔ s.apply cfg ecrecover headerHash (h₁ ++ h₂) = .ok r) ∧
    ∀ (H : List Header) (h0 : 0 < H.length) (signers : List Address) (final : Snapshot)
      (c : Clique), ChainOf chain headerHash parentHash H →
      checkpointSigners H[0].Extra = some signers →
      (newSnapshot 0 (headerHash H[0]) signers).apply cfg ecrecover headerHash (H.drop 1) =
        .ok final →
      CacheInv cfg ecrecover headerHash (newSnapshot 0 (headerHash H[0]) signers) H c →
      ∀ n (hn : n < H.length) (p fuel : Nat), n < fuel →
      (∀ k, 0 < k → k ≤ n → k % cfg.Epoch = 0 → ImmutabilityThreshold < n - k →
        ∃ j, ∃ hjn : j ≤ n, k ≤ j ∧ (c.cached j (headerHash H[j])).isSome) →
      ∃ c' s, c.snapshot cfg ecrecover chain headerHash parentHash fuel n (headerHash H[n])
          ((H.take (n + 1)).drop p) = some (.ok (c', s)) ∧
        replay cfg ecrecover headerHash (newSnapshot 0 (headerHash H[0]) signers) H n = .ok s ∧
        CacheInv cfg ecrecover headerHash (newSnapshot 0 (headerHash H[0]) signers) H c' := by
  refine ⟨fun s r h₁ h₂ => apply_append, ?_⟩
  intro H h0 signers final c hH hsig hacc hc n hn p fuel hfuel hshort
  obtain ⟨r, hr⟩ := replay_ok_of_accepted hacc hn
  obtain ⟨c', hrun, hc'⟩ := snapshot_spec hH hc h0 hsig rfl hn p hshort hr hfuel
  exact ⟨c', r, hrun, hr, hc'⟩

theorem snapshot_replays_from_genesis_on_two_blocks :
    ChainOf (ChainReader.ofList [genesisHeader, firstHeader]) numberHash parentNumberHash
        [genesisHeader, firstHeader] ∧
      ∃ c' s, (⟨fun _ => none, fun _ => none⟩ : Clique).snapshot sealConfig sealSigner
          (ChainReader.ofList [genesisHeader, firstHeader]) numberHash parentNumberHash 2 1
          (numberHash firstHeader) [firstHeader] = some (.ok (c', s)) ∧
        replay sealConfig sealSigner numberHash (newSnapshot 0 0 [1, 2, 3, 4])
          [genesisHeader, firstHeader] 1 = .ok s := by
  have hH : ChainOf (ChainReader.ofList [genesisHeader, firstHeader]) numberHash parentNumberHash
      [genesisHeader, firstHeader] := by
    refine ⟨by decide, fun i hi => ?_, fun i hi => List.getElem?_eq_getElem hi,
      fun i hi => List.getElem?_eq_getElem hi, fun i j hi hj h => ?_⟩
    · obtain rfl : i = 0 := by simp at hi; omega
      rfl
    · have hi' : i < 2 := hi
      have hj' : j < 2 := hj
      interval_cases i <;> interval_cases j <;>
        first | rfl | simp [numberHash, genesisHeader, firstHeader] at h
  refine ⟨hH, ?_⟩
  obtain ⟨c', s, hrun, hr, -⟩ :=
    (snapshot_replays_from_genesis sealConfig sealSigner _ numberHash parentNumberHash).2
      [genesisHeader, firstHeader] (by decide) [1, 2, 3, 4] _ ⟨fun _ => none, fun _ => none⟩ hH
      (by decide +kernel) rfl ⟨fun _ _ _ h => (by cases h), fun _ _ _ h => (by cases h)⟩ 1 (by decide) 1 2 (by decide)
      (fun k hk hkn hepoch _ => absurd hepoch (by obtain rfl : k = 1 := (by omega); decide))
  exact ⟨c', s, hrun, hr⟩

end Btp.Clique
