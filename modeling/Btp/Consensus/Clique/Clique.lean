import Mathlib
import Btp.Consensus.Clique.Snapshot

/-!
# Seal verification

`Clique.verifySeal` in `consensus/clique/clique.go` checks a header against
the snapshot of its parent: the recovered signer must be authorised, must not
have signed within the window of recent blocks, and the difficulty must match
whether it is the signer's turn. The snapshot is a parameter here; in the code
`Clique.snapshot` retrieves it from the chain, from the parent's number and
hash.

The recent-signer window is checked with `uint64` arithmetic,
`seen > number - limit`; the subtraction wraps for `number < limit`.
-/

namespace Btp.Clique

open ExceptRun

/-- `uint64(a) - uint64(b)`: subtraction modulo `2^64`. -/
def uint64Sub (a b : Nat) : Nat :=
  (BitVec.ofNat 64 a - BitVec.ofNat 64 b).toNat

/-- `Snapshot.signers`: the authorised signers in ascending order. Addresses
are compared as big-endian byte strings (`bytes.Compare`), that is, as
numbers. -/
def Snapshot.signers (s : Snapshot) : List Nat :=
  (s.Signers.image BitVec.toNat).sort (· ≤ ·)

/-- `Snapshot.inturn`: whether it is `signer`'s turn at `number`. The loop
stops at the signer's position, or at the end of the list if it is absent.
`verifySeal` calls it only for an authorised signer, so the list is not
empty and the Go division does not fault. -/
def Snapshot.inturn (s : Snapshot) (number : Nat) (signer : Address) : Bool :=
  let signers := s.signers
  number % signers.length == signers.idxOf signer.toNat

/-- `Clique.verifySeal`, with `snap` the snapshot of the parent block. -/
def verifySeal (fakeDiff : Bool) (ecrecover : Header → Option Address) (snap : Snapshot)
    (header : Header) : Except CliqueError Unit := do
  -- verifying the genesis block is not supported
  let number := header.Number
  if number = 0 then throw .unknownBlock
  let signer ← match ecrecover header with
    | some signer => pure signer
    | none => throw .recover
  if signer ∉ snap.Signers then throw .unauthorizedSigner
  let limit := snap.Signers.card / 2 + 1
  -- signer is among recents, only fail if the current block doesn't shift it out
  if snap.Recents.entries.any (fun e => e.2 == signer && decide (e.1 > uint64Sub number limit)) then
    throw .recentlySigned
  if !fakeDiff then
    let inturn := snap.inturn number signer
    if inturn && header.Difficulty ≠ diffInTurn then throw .wrongDifficulty
    if !inturn && header.Difficulty ≠ diffNoTurn then throw .wrongDifficulty

/-! ## The window arithmetic -/

/-- Without wrap-around, `uint64` subtraction is subtraction. -/
theorem uint64Sub_of_le {a b : Nat} (ha : a < 2 ^ 64) (hba : b ≤ a) : uint64Sub a b = a - b := by
  have ha' : a % 2 ^ 64 = a := Nat.mod_eq_of_lt ha
  have hb' : b % 2 ^ 64 = b := Nat.mod_eq_of_lt (lt_of_le_of_lt hba ha)
  unfold uint64Sub
  rw [BitVec.toNat_sub_of_le]
  · simp only [BitVec.toNat_ofNat, ha', hb']
  · rw [BitVec.le_def]
    simp only [BitVec.toNat_ofNat, ha', hb']
    exact hba

/-- For `a < b` the subtraction wraps to `2^64 - (b - a)`. -/
theorem uint64Sub_of_lt {a b : Nat} (hb : b < 2 ^ 64) (hab : a < b) :
    uint64Sub a b = 2 ^ 64 - (b - a) := by
  unfold uint64Sub
  rw [BitVec.toNat_sub]
  simp only [BitVec.toNat_ofNat, Nat.mod_eq_of_lt hb, Nat.mod_eq_of_lt (hab.trans hb)]
  rw [show 2 ^ 64 - b + a = 2 ^ 64 - (b - a) by omega, Nat.mod_eq_of_lt (by omega)]

/-! ## What an accepted seal says -/

/-- With the difficulty check off, `verifySeal` accepts exactly the headers
past genesis whose signer is recovered, authorised, and absent from the
recent blocks above `number - limit` (in `uint64` arithmetic). -/
theorem verifySeal_fakeDiff_ok {ecrecover : Header → Option Address} {snap : Snapshot}
    {header : Header} :
    verifySeal true ecrecover snap header = .ok () ↔
      header.Number ≠ 0 ∧ ∃ signer, ecrecover header = some signer ∧ signer ∈ snap.Signers ∧
        ∀ k, snap.Recents.lookup k = some signer →
          k ≤ uint64Sub header.Number (snap.Signers.card / 2 + 1) := by
  unfold verifySeal
  by_cases h0 : header.Number = 0
  · simp [h0]
  · cases hrec : ecrecover header with
    | none => simp [h0]
    | some signer =>
      set bound := uint64Sub header.Number (snap.Signers.card / 2 + 1)
      have hany := GoMap.any_entries_iff snap.Recents (fun k v => v == signer && decide (k > bound))
      simp only [beq_iff_eq, Bool.and_eq_true, decide_eq_true_eq] at hany
      simp only [h0, if_false, ne_eq, not_false_eq_true, Option.some.injEq, exists_eq_left',
        true_and, pure_bind]
      by_cases hsig : signer ∈ snap.Signers
      · simp only [hsig, not_true_eq_false, if_false, true_and]
        by_cases hr : (snap.Recents.entries.any fun e => e.2 == signer && decide (e.1 > bound)) = true
        · -- a recent block of the signer lies above the bound
          obtain ⟨k, v, hk, rfl, hgt⟩ := hany.mp hr
          rw [if_pos hr]
          simp only [bind_eq_ok, throw_ne_ok, false_and, exists_false, false_iff, not_forall,
            not_le]
          exact ⟨k, hk, hgt⟩
        · rw [if_neg hr]
          simp only [Bool.not_true, Bool.false_eq_true, if_false, pure_eq_ok,
            true_iff]
          intro k hk
          by_contra hgt
          exact hr (hany.mpr ⟨k, signer, hk, rfl, by omega⟩)
      · simp [hsig]

end Btp.Clique
