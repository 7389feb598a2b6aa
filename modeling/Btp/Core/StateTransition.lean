import Mathlib

/-!
# Intrinsic gas

`IntrinsicGas` in `core/state_transition.go`: the gas a transaction pays
before any code runs, a base charge plus a charge per byte of data, computed
in `uint64` with explicit guards against wrap-around. The base and per-byte
charges are constants of the `params` package, which is not part of this
source tree; they are parameters here.
-/

namespace Btp.Core

/-- `math.MaxUint64`. -/
def MaxUint64 : Nat := 2 ^ 64 - 1

/-- The constants of the `params` package that `IntrinsicGas` reads. They are
`uint64` constants, and the per-byte charges are positive (the code divides by
them). -/
structure GasParams where
  TxGas : Nat
  TxGasContractCreation : Nat
  TxDataZeroGas : Nat
  TxDataNonZeroGas : Nat
  txGas_le : TxGas ≤ MaxUint64
  txGasContractCreation_le : TxGasContractCreation ≤ MaxUint64
  zero_pos : 0 < TxDataZeroGas
  nonZero_pos : 0 < TxDataNonZeroGas

/-- `IntrinsicGas`; `none` is `vm.ErrOutOfGas`, returned when the charge does
not fit in 64 bits. -/
def IntrinsicGas (gp : GasParams) (data : List UInt8) (contractCreation homestead : Bool) :
    Option Nat :=
  let gas := if contractCreation && homestead then gp.TxGasContractCreation else gp.TxGas
  if data.length > 0 then
    -- zero and non-zero bytes are priced differently
    let nz := data.countP (· != 0)
    if (MaxUint64 - gas) / gp.TxDataNonZeroGas < nz then none
    else
      let gas := gas + nz * gp.TxDataNonZeroGas
      let z := data.length - nz
      if (MaxUint64 - gas) / gp.TxDataZeroGas < z then none
      else some (gas + z * gp.TxDataZeroGas)
  else some gas

/-- A quotient guard `(max - a) / b ≥ n` is what keeps `a + n * b` within
`max`, so the `uint64` sums of `IntrinsicGas` never wrap. -/
theorem add_mul_le_of_div {a b n max : Nat} (ha : a ≤ max) (hb : 0 < b)
    (h : ¬ (max - a) / b < n) : a + n * b ≤ max := by
  have hnb : n * b ≤ max - a := (Nat.le_div_iff_mul_le hb).mp (Nat.le_of_not_lt h)
  omega

/-- A successful `IntrinsicGas` is the base charge plus the data charges, and
fits in 64 bits. -/
theorem IntrinsicGas_eq {gp : GasParams} {data : List UInt8} {contractCreation homestead : Bool}
    {gas : Nat} (h : IntrinsicGas gp data contractCreation homestead = some gas) :
    gas = (if contractCreation && homestead then gp.TxGasContractCreation else gp.TxGas) +
        data.countP (· != 0) * gp.TxDataNonZeroGas +
        (data.length - data.countP (· != 0)) * gp.TxDataZeroGas ∧
      gas ≤ MaxUint64 := by
  unfold IntrinsicGas at h
  generalize hb : (if (contractCreation && homestead) = true then gp.TxGasContractCreation
    else gp.TxGas) = base at h ⊢
  have hbase : base ≤ MaxUint64 := by
    rw [← hb]
    split
    · exact gp.txGasContractCreation_le
    · exact gp.txGas_le
  simp only at h
  split_ifs at h with hlen h₁ h₂
  · cases h
    exact ⟨rfl, add_mul_le_of_div (add_mul_le_of_div hbase gp.nonZero_pos h₁) gp.zero_pos h₂⟩
  · cases h
    have hnil : data = [] := List.eq_nil_of_length_eq_zero (by omega)
    subst hnil
    simp [hbase]

end Btp.Core
