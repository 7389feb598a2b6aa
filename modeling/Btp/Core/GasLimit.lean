import Mathlib
import Btp.Lib.WordCast

/-!
# The gas limit of the next block

`CalcGasLimit` of `core/block_validator.go` picks the gas limit of the block
to mine over `parent`: it moves the parent's limit by the gas the parent used
(up when more than two thirds was used) and hones it towards the miner's floor
and ceiling. The ethash engine's `verifyHeader` (`consensus/ethash`) checks
the gas of every header against its parent: the limit is at most `2^63 - 1`,
the gas used is within the limit, and the limit differs from the parent's by
less than `parent.GasLimit / GasLimitBoundDivisor` and is at least
`MinGasLimit`. The arithmetic is the code's: `uint64` and `int64` with their
wrapping.

The two agree once the parent's limit is at least five times the divisor
(`CalcGasLimit_accepted`): a header with the limit `CalcGasLimit` picks passes
the gas checks, for any floor and ceiling. The bound is needed: with the
divisor 1024 and the minimum 5000, a parent of limit 5000 that used all of
its gas gets the limit 5004, one more than the check allows (the example
after `CalcGasLimit_accepted`).

Along a chain the miner (`miner/worker.go`) builds, the range between its
floor and its ceiling is kept: a genesis within it keeps every header within
it, and every header passes the checks against its parent
(`mined_chain_accepted`).

The constants of `params` (`GasLimitBoundDivisor`, `MinGasLimit`) are
parameters, since that package is not part of this source tree.
-/

namespace Btp.Core

/-- The constants of `params` that the gas limit rules read. -/
structure GasLimitParams where
  GasLimitBoundDivisor : UInt64
  MinGasLimit : UInt64

/-- The fields of `types.Header` the gas limit rules read. -/
structure GasHeader where
  GasLimit : UInt64
  GasUsed : UInt64
  deriving DecidableEq, Repr

/-- The errors of the gas checks of `verifyHeader`, with the values their
messages print. -/
inductive GasLimitError
  /-- `invalid gasLimit: have %v, max %v` -/
  | invalidGasLimitCap (gasLimit cap : UInt64)
  /-- `invalid gasUsed: have %d, gasLimit %d` -/
  | invalidGasUsed (gasUsed gasLimit : UInt64)
  /-- `invalid gas limit: have %d, want %d += %d` -/
  | invalidGasLimit (gasLimit parentGasLimit limit : UInt64)
  deriving DecidableEq, Repr

section Rules
variable (P : GasLimitParams)

/-- `CalcGasLimit`. -/
def CalcGasLimit (parent : GasHeader) (gasFloor gasCeil : UInt64) : UInt64 :=
  -- contrib = (parentGasUsed * 3 / 2) / 1024
  let contrib := (parent.GasUsed + parent.GasUsed / 2) / P.GasLimitBoundDivisor
  -- decay = parentGasLimit / 1024 - 1
  let decay := parent.GasLimit / P.GasLimitBoundDivisor - 1
  let limit := parent.GasLimit - decay + contrib
  let limit := if limit < P.MinGasLimit then P.MinGasLimit else limit
  -- outside the allowed range, hone towards it
  if limit < gasFloor then
    let limit := parent.GasLimit + decay
    if limit > gasFloor then gasFloor else limit
  else if limit > gasCeil then
    let limit := parent.GasLimit - decay
    if limit < gasCeil then gasCeil else limit
  else limit

/-- The gas checks of `btpash.verifyHeader`, in its order. -/
def verifyGas (header parent : GasHeader) : Except GasLimitError Unit :=
  -- the gas limit is at most 2^63 - 1
  let cap : UInt64 := 0x7fffffffffffffff
  if header.GasLimit > cap then .error (.invalidGasLimitCap header.GasLimit cap)
  else if header.GasUsed > header.GasLimit then
    .error (.invalidGasUsed header.GasUsed header.GasLimit)
  else
    -- the gas limit stays within the allowed bounds
    let diff : Int64 := parent.GasLimit.toInt64 - header.GasLimit.toInt64
    let diff := if diff < 0 then diff * -1 else diff
    let limit := parent.GasLimit / P.GasLimitBoundDivisor
    if diff.toUInt64 ≥ limit || header.GasLimit < P.MinGasLimit then
      .error (.invalidGasLimit header.GasLimit parent.GasLimit limit)
    else .ok ()

/-- A header as `commitNewWork` of `miner/worker.go` builds it over `parent`:
its limit is the one `CalcGasLimit` picks for the miner's floor and ceiling,
and the transactions it holds use at most that limit. -/
def Mined (gasFloor gasCeil : UInt64) (parent header : GasHeader) : Prop :=
  header.GasLimit = CalcGasLimit P parent gasFloor gasCeil ∧ header.GasUsed ≤ header.GasLimit

instance (gasFloor gasCeil : UInt64) : DecidableRel (Mined P gasFloor gasCeil) :=
  fun _ _ => inferInstanceAs (Decidable (_ ∧ _))

end Rules

/-! ## The limit picked is the limit accepted -/

section Agreement
variable (P : GasLimitParams)

/-- What `contrib` adds is at most twice the bound less two, for a parent
that used at most its limit and whose limit is at least five times the
divisor: the parent's limit is below `(q + 1) * D` for `q = L / D`, and three
halves of that are below `(2 * q - 1) * D` once `q ≥ 5`. -/
theorem contrib_add_two_le {L u D : Nat} (hD : 0 < D) (hq : 5 * D ≤ L) (hu : u ≤ L) :
    (u + u / 2) / D + 2 ≤ 2 * (L / D) := by
  have hlt : L < L / D * D + D := Nat.lt_div_mul_add hD
  have hle : L / D * D ≤ L := Nat.div_mul_le_self L D
  have h5 : 5 * D ≤ L / D * D := Nat.mul_le_mul_right D ((Nat.le_div_iff_mul_le hD).2 (by omega))
  have hdiv : (u + u / 2) / D < 2 * (L / D) - 1 := by
    rw [Nat.div_lt_iff_lt_mul hD, Nat.sub_mul, Nat.mul_assoc, one_mul]
    omega
  generalize (u + u / 2) / D = c at hdiv
  generalize L / D = q at hdiv
  omega

/-- `contrib` as a number: for a parent that used at most its limit, and a
limit below `2^61`, three halves of the gas used do not wrap. -/
theorem contrib_toNat {parent : GasHeader} (hL : parent.GasLimit.toNat < 2 ^ 61)
    (hu : parent.GasUsed ≤ parent.GasLimit) :
    ((parent.GasUsed + parent.GasUsed / 2) / P.GasLimitBoundDivisor).toNat =
      (parent.GasUsed.toNat + parent.GasUsed.toNat / 2) / P.GasLimitBoundDivisor.toNat := by
  have hu' : parent.GasUsed.toNat ≤ parent.GasLimit.toNat := UInt64.le_iff_toNat_le.1 hu
  rw [UInt64.toNat_div, UInt64.toNat_add, UInt64.toNat_div, Nat.mod_eq_of_lt (by simp; omega)]
  rfl

/-- `decay` as a number: once the parent's limit is at least the divisor the
bound is at least one, and taking one off does not wrap. -/
theorem decay_toNat {parent : GasHeader} (hD : 0 < P.GasLimitBoundDivisor.toNat)
    (hq : P.GasLimitBoundDivisor.toNat ≤ parent.GasLimit.toNat) :
    (parent.GasLimit / P.GasLimitBoundDivisor - 1).toNat =
      parent.GasLimit.toNat / P.GasLimitBoundDivisor.toNat - 1 := by
  have hq1 : 1 ≤ parent.GasLimit.toNat / P.GasLimitBoundDivisor.toNat :=
    (Nat.le_div_iff_mul_le hD).2 (by omega)
  have hlt := UInt64.toNat_lt (parent.GasLimit / P.GasLimitBoundDivisor)
  rw [UInt64.toNat_sub, UInt64.toNat_div]
  rw [UInt64.toNat_div] at hlt
  simp only [UInt64.toNat_one]
  omega

variable {P}

/-- The limit `CalcGasLimit` picks is within the bound of the parent's limit,
on both sides, and at least `MinGasLimit`: `decay` takes off less than the
bound, `contrib` adds less than twice it, and the floor and the ceiling only
move the limit towards the parent's within those. -/
theorem CalcGasLimit_within {parent : GasHeader} (gasFloor gasCeil : UInt64)
    (hD : 0 < P.GasLimitBoundDivisor.toNat)
    (hq : 5 * P.GasLimitBoundDivisor.toNat ≤ parent.GasLimit.toNat)
    (hmin : P.MinGasLimit.toNat + parent.GasLimit.toNat / P.GasLimitBoundDivisor.toNat ≤
      parent.GasLimit.toNat + 1)
    (hL : parent.GasLimit.toNat < 2 ^ 61) (hu : parent.GasUsed ≤ parent.GasLimit) :
    parent.GasLimit.toNat < (CalcGasLimit P parent gasFloor gasCeil).toNat +
        parent.GasLimit.toNat / P.GasLimitBoundDivisor.toNat ∧
      (CalcGasLimit P parent gasFloor gasCeil).toNat <
        parent.GasLimit.toNat + parent.GasLimit.toNat / P.GasLimitBoundDivisor.toNat ∧
      P.MinGasLimit.toNat ≤ (CalcGasLimit P parent gasFloor gasCeil).toNat := by
  have hu' : parent.GasUsed.toNat ≤ parent.GasLimit.toNat := UInt64.le_iff_toNat_le.1 hu
  have hq5 : 5 ≤ parent.GasLimit.toNat / P.GasLimitBoundDivisor.toNat :=
    (Nat.le_div_iff_mul_le hD).2 (by omega)
  have hqL := Nat.div_le_self parent.GasLimit.toNat P.GasLimitBoundDivisor.toNat
  have hcon := contrib_add_two_le hD hq hu'
  have hcontrib := contrib_toNat P hL hu
  have hdecay := decay_toNat P hD (show _ ≤ parent.GasLimit.toNat by omega)
  unfold CalcGasLimit
  dsimp only
  generalize (parent.GasUsed + parent.GasUsed / 2) / P.GasLimitBoundDivisor = contrib at hcontrib ⊢
  generalize parent.GasLimit / P.GasLimitBoundDivisor - 1 = decay at hdecay ⊢
  -- the bound and what `contrib` adds, as plain numbers for `omega`
  generalize (parent.GasUsed.toNat + parent.GasUsed.toNat / 2) / P.GasLimitBoundDivisor.toNat = c
    at hcon hcontrib
  generalize parent.GasLimit.toNat / P.GasLimitBoundDivisor.toNat = q at hcon hq5 hqL hmin hdecay ⊢
  split_ifs <;>
    simp only [UInt64.lt_iff_toNat_lt, UInt64.toNat_add, UInt64.toNat_sub, hcontrib, hdecay] at * <;>
    omega

/-- A parent's limit between the floor and the ceiling gives a limit between
them: inside the range the limit stays, and outside it `CalcGasLimit` hones
to the floor or the ceiling from the parent's side, never past it. -/
theorem CalcGasLimit_in_range {parent : GasHeader} {gasFloor gasCeil : UInt64}
    (hD : 0 < P.GasLimitBoundDivisor.toNat)
    (hq : P.GasLimitBoundDivisor.toNat ≤ parent.GasLimit.toNat)
    (hL : parent.GasLimit.toNat < 2 ^ 61) (hu : parent.GasUsed ≤ parent.GasLimit)
    (hfloor : gasFloor ≤ parent.GasLimit) (hceil : parent.GasLimit ≤ gasCeil) :
    gasFloor ≤ CalcGasLimit P parent gasFloor gasCeil ∧
      CalcGasLimit P parent gasFloor gasCeil ≤ gasCeil := by
  have hu' : parent.GasUsed.toNat ≤ parent.GasLimit.toNat := UInt64.le_iff_toNat_le.1 hu
  have hqL := Nat.div_le_self parent.GasLimit.toNat P.GasLimitBoundDivisor.toNat
  have hcon := Nat.div_le_self (parent.GasUsed.toNat + parent.GasUsed.toNat / 2)
    P.GasLimitBoundDivisor.toNat
  have hcontrib := contrib_toNat P hL hu
  have hdecay := decay_toNat P hD hq
  rw [UInt64.le_iff_toNat_le] at hfloor hceil
  unfold CalcGasLimit
  dsimp only
  generalize (parent.GasUsed + parent.GasUsed / 2) / P.GasLimitBoundDivisor = contrib at hcontrib ⊢
  generalize parent.GasLimit / P.GasLimitBoundDivisor - 1 = decay at hdecay ⊢
  generalize (parent.GasUsed.toNat + parent.GasUsed.toNat / 2) / P.GasLimitBoundDivisor.toNat = c
    at hcon hcontrib
  generalize parent.GasLimit.toNat / P.GasLimitBoundDivisor.toNat = q at hqL hdecay
  split_ifs <;>
    simp only [UInt64.le_iff_toNat_le, UInt64.lt_iff_toNat_lt, UInt64.toNat_add, UInt64.toNat_sub,
      hcontrib, hdecay] at * <;>
    omega

/-- The distance between two limits that `verifyHeader` works out in `int64`:
for limits that fit an `int64`, neither the difference nor the negation
wraps, and the distance is the plain one. -/
theorem gasDiff_toNat {a b : UInt64} (ha : a.toNat < 2 ^ 63) (hb : b.toNat < 2 ^ 63) :
    (if a.toInt64 - b.toInt64 < 0 then (a.toInt64 - b.toInt64) * -1
      else a.toInt64 - b.toInt64).toUInt64.toNat = ((a.toNat : Int) - b.toNat).natAbs := by
  have hdiff : (a.toInt64 - b.toInt64).toInt = (a.toNat : Int) - b.toNat := by
    rw [WordCast.toInt_sub_of_range] <;> rw [WordCast.toInt_toInt64 ha, WordCast.toInt_toInt64 hb] <;>
      omega
  have hone : (-1 : Int64).toInt = -1 := rfl
  have hzero : (0 : Int64).toInt = 0 := rfl
  split_ifs with hneg
  · -- a negative difference is negated, which cannot overflow
    rw [Int64.lt_iff_toInt_lt, hdiff, hzero] at hneg
    have hmul : ((a.toInt64 - b.toInt64) * -1).toInt = (b.toNat : Int) - a.toNat := by
      rw [WordCast.toInt_mul_of_range] <;> rw [hdiff, hone] <;> omega
    rw [WordCast.toNat_toUInt64 (by rw [hmul]; omega), hmul]
    omega
  · rw [Int64.lt_iff_toInt_lt, hdiff, hzero] at hneg
    rw [WordCast.toNat_toUInt64 (by rw [hdiff]; omega), hdiff]
    omega

/-- A header passes the gas checks when its limit fits an `int64`, covers its
gas used, is at least `MinGasLimit`, and is within the bound of its parent's
limit on both sides, for a parent whose limit fits an `int64`. -/
theorem verifyGas_ok {header parent : GasHeader} (hparent : parent.GasLimit.toNat < 2 ^ 63)
    (hcap : header.GasLimit.toNat < 2 ^ 63) (hused : header.GasUsed ≤ header.GasLimit)
    (hlo : parent.GasLimit.toNat <
      header.GasLimit.toNat + parent.GasLimit.toNat / P.GasLimitBoundDivisor.toNat)
    (hhi : header.GasLimit.toNat <
      parent.GasLimit.toNat + parent.GasLimit.toNat / P.GasLimitBoundDivisor.toNat)
    (hmin : P.MinGasLimit.toNat ≤ header.GasLimit.toNat) :
    verifyGas P header parent = .ok () := by
  have hcap' : (0x7fffffffffffffff : UInt64).toNat = 2 ^ 63 - 1 := rfl
  unfold verifyGas
  dsimp only
  rw [if_neg (by rw [gt_iff_lt, UInt64.lt_iff_toNat_lt, hcap']; omega),
    if_neg (by rw [gt_iff_lt, UInt64.lt_iff_toNat_lt]; exact Nat.not_lt.2 (UInt64.le_iff_toNat_le.1 hused)),
    if_neg]
  -- the distance is below the bound, and the limit not below the minimum
  simp only [Bool.or_eq_true, decide_eq_true_eq, ge_iff_le, UInt64.le_iff_toNat_le,
    UInt64.lt_iff_toNat_lt, UInt64.toNat_div]
  rw [gasDiff_toNat hparent hcap]
  omega

/-- A header the miner builds over a parent passes the gas checks against that
parent, whatever the floor and the ceiling: when the parent's limit is at
least five times `GasLimitBoundDivisor`, the minimum is at most the parent's
limit less the bound plus one, the parent used at most its limit, and its
limit is below `2^61`. -/
theorem Mined.accepted {parent header : GasHeader} {gasFloor gasCeil : UInt64}
    (hD : 0 < P.GasLimitBoundDivisor.toNat)
    (hq : 5 * P.GasLimitBoundDivisor.toNat ≤ parent.GasLimit.toNat)
    (hmin : P.MinGasLimit.toNat + parent.GasLimit.toNat / P.GasLimitBoundDivisor.toNat ≤
      parent.GasLimit.toNat + 1)
    (hL : parent.GasLimit.toNat < 2 ^ 61) (hu : parent.GasUsed ≤ parent.GasLimit)
    (hm : Mined P gasFloor gasCeil parent header) :
    verifyGas P header parent = .ok () := by
  obtain ⟨hlimit, hused⟩ := hm
  obtain ⟨hlo, hhi, hmin'⟩ := CalcGasLimit_within gasFloor gasCeil hD hq hmin hL hu
  rw [← hlimit] at hlo hhi hmin'
  have hqL := Nat.div_le_self parent.GasLimit.toNat P.GasLimitBoundDivisor.toNat
  exact verifyGas_ok (by omega) (by omega) hused hlo hhi hmin'

/-- The gas limit `CalcGasLimit` picks over a parent passes the gas checks of
`verifyHeader` against that parent, whatever the floor and the ceiling, for a
header that uses at most that limit (as `Process` guarantees): when the
parent's limit is at least five times `GasLimitBoundDivisor`, the minimum is
at most the parent's limit less the bound plus one, the parent used at most
its limit, and its limit is below `2^61`. -/
theorem CalcGasLimit_accepted {parent : GasHeader} (gasFloor gasCeil gasUsed : UInt64)
    (hD : 0 < P.GasLimitBoundDivisor.toNat)
    (hq : 5 * P.GasLimitBoundDivisor.toNat ≤ parent.GasLimit.toNat)
    (hmin : P.MinGasLimit.toNat + parent.GasLimit.toNat / P.GasLimitBoundDivisor.toNat ≤
      parent.GasLimit.toNat + 1)
    (hL : parent.GasLimit.toNat < 2 ^ 61) (hu : parent.GasUsed ≤ parent.GasLimit)
    (hused : gasUsed ≤ CalcGasLimit P parent gasFloor gasCeil) :
    verifyGas P ⟨CalcGasLimit P parent gasFloor gasCeil, gasUsed⟩ parent = .ok () :=
  Mined.accepted hD hq hmin hL hu ⟨rfl, hused⟩

/-- The mainnet divisor and minimum, over a parent of limit 8000000 that used
six million of it, with the floor and the ceiling at 8000000. -/
theorem CalcGasLimit_accepted_busy_parent :
    verifyGas ⟨1024, 5000⟩ ⟨CalcGasLimit ⟨1024, 5000⟩ ⟨8000000, 6000000⟩ 8000000 8000000, 0⟩
      ⟨8000000, 6000000⟩ = .ok () :=
  CalcGasLimit_accepted 8000000 8000000 0 (by decide) (by decide) (by decide) (by decide)
    (by decide) (by decide)

-- Below five times the divisor the bound of `CalcGasLimit_accepted` fails: a
-- parent at the minimum that used all of its gas gets 5004, and the check
-- allows at most 5003.
example : CalcGasLimit ⟨1024, 5000⟩ ⟨5000, 5000⟩ 0 0xffffffffffffffff = 5004 ∧
    verifyGas ⟨1024, 5000⟩ ⟨5004, 0⟩ ⟨5000, 5000⟩ = .error (.invalidGasLimit 5004 5000 4) := by
  decide

end Agreement

/-! ## Along a chain the miner builds -/

section Chain
variable {P : GasLimitParams} {gasFloor gasCeil : UInt64}

/-- A header whose limit is within the miner's floor and ceiling, and whose
gas used is within its limit. -/
structure InRange (gasFloor gasCeil : UInt64) (header : GasHeader) : Prop where
  floor_le : gasFloor ≤ header.GasLimit
  le_ceil : header.GasLimit ≤ gasCeil
  used_le : header.GasUsed ≤ header.GasLimit

/-- Taking off the bound keeps the order: where `x` grows by one, `x / D`
grows by at most one. -/
theorem sub_div_le_sub_div {a b : Nat} (D : Nat) (hab : a ≤ b) : a - a / D ≤ b - b / D := by
  induction b, hab using Nat.le_induction with
  | base => exact le_rfl
  | succ x _ ih =>
    have hmono : x / D ≤ (x + 1) / D := Nat.div_le_div_right (Nat.le_succ x)
    have hstep : (x + 1) / D ≤ x / D + 1 := by
      rw [Nat.succ_div]
      split <;> omega
    have hx := Nat.div_le_self x D
    generalize (x + 1) / D = c at hmono hstep
    generalize x / D = d at hmono hstep hx ih
    omega

/-- The step of the chain: a header mined over a parent in range is in range,
for a floor of at least the divisor and a ceiling below `2^61`. -/
theorem InRange.mined {parent header : GasHeader} (hD : 0 < P.GasLimitBoundDivisor.toNat)
    (hq : P.GasLimitBoundDivisor.toNat ≤ gasFloor.toNat) (hceil : gasCeil.toNat < 2 ^ 61)
    (hp : InRange gasFloor gasCeil parent) (hm : Mined P gasFloor gasCeil parent header) :
    InRange gasFloor gasCeil header := by
  obtain ⟨hlimit, hused⟩ := hm
  have hfloor := UInt64.le_iff_toNat_le.1 hp.floor_le
  have hceil' := UInt64.le_iff_toNat_le.1 hp.le_ceil
  obtain ⟨hlo, hhi⟩ :=
    CalcGasLimit_in_range hD (by omega) (by omega) hp.used_le hp.floor_le hp.le_ceil
  exact ⟨hlimit ▸ hlo, hlimit ▸ hhi, hused⟩

/-- Along a chain of headers the miner builds from a genesis within its floor
and ceiling, every header stays within them and passes the gas checks of
`verifyHeader` against its parent: when the floor is at least five times
`GasLimitBoundDivisor`, the minimum is at most the floor less the floor's
bound plus one, and the ceiling is below `2^61`. -/
theorem mined_chain_accepted (hD : 0 < P.GasLimitBoundDivisor.toNat)
    (hq : 5 * P.GasLimitBoundDivisor.toNat ≤ gasFloor.toNat)
    (hmin : P.MinGasLimit.toNat + gasFloor.toNat / P.GasLimitBoundDivisor.toNat ≤
      gasFloor.toNat + 1)
    (hceil : gasCeil.toNat < 2 ^ 61) {genesis : GasHeader} {headers : List GasHeader}
    (hgenesis : InRange gasFloor gasCeil genesis)
    (hchain : (genesis :: headers).IsChain (Mined P gasFloor gasCeil)) :
    (genesis :: headers).IsChain (fun parent header => verifyGas P header parent = .ok ()) ∧
      ∀ header ∈ genesis :: headers, InRange gasFloor gasCeil header := by
  -- induction on the chain, from its first header on: being in range carries it
  induction headers generalizing genesis with
  | nil => exact ⟨.singleton genesis, by simpa using hgenesis⟩
  | cons header headers ih =>
    obtain ⟨hm, hrest⟩ := List.isChain_cons_cons.1 hchain
    have hfloor := UInt64.le_iff_toNat_le.1 hgenesis.floor_le
    have hceil' := UInt64.le_iff_toNat_le.1 hgenesis.le_ceil
    -- the minimum is below the parent's limit less its bound, as it is below the floor's
    have hmin' : P.MinGasLimit.toNat + genesis.GasLimit.toNat / P.GasLimitBoundDivisor.toNat ≤
        genesis.GasLimit.toNat + 1 := by
      have hmono := sub_div_le_sub_div P.GasLimitBoundDivisor.toNat hfloor
      have hf := Nat.div_le_self gasFloor.toNat P.GasLimitBoundDivisor.toNat
      have hg := Nat.div_le_self genesis.GasLimit.toNat P.GasLimitBoundDivisor.toNat
      omega
    have hheader := hgenesis.mined hD (by omega) hceil hm
    obtain ⟨hverify, hall⟩ := ih hheader hrest
    refine ⟨.cons_cons (Mined.accepted hD (by omega) hmin' (by omega) hgenesis.used_le hm) hverify, ?_⟩
    intro h hh
    rcases List.mem_cons.1 hh with rfl | hh
    · exact hgenesis
    · exact hall h hh

/-- Three headers the miner builds with the floor 5120 and the ceiling 10000:
a full genesis, then one that raises the limit, then one that lowers it. -/
theorem mined_chain_accepted_three_headers :
    [(⟨9000, 9000⟩ : GasHeader), ⟨9006, 0⟩, ⟨8999, 100⟩].IsChain
        (fun parent header => verifyGas ⟨1024, 5000⟩ header parent = .ok ()) ∧
      ∀ header ∈ [(⟨9000, 9000⟩ : GasHeader), ⟨9006, 0⟩, ⟨8999, 100⟩],
        InRange 5120 10000 header :=
  mined_chain_accepted (by decide) (by decide) (by decide) (by decide)
    ⟨by decide, by decide, by decide⟩ (by decide)

end Chain

end Btp.Core
