import Mathlib
import Btp.Vm.Instructions

/-!
# Dynamic gas

`core/vm/gas_table.go`, `core/vm/gas.go` and the gas constants of `params`.
A gas function charges for the memory an operation expands through
`memoryGasCost`, which records the new cost in the memory, and may touch the
state (the refunds of `SSTORE` and `SELFDESTRUCT`) and `callGasTemp`, the gas
a call instruction hands over.
-/

namespace Btp.Vm

/-! ## Constants -/

def GasQuickStep : Nat := 2
def GasFastestStep : Nat := 3
def GasFastStep : Nat := 5
def GasMidStep : Nat := 8
def GasSlowStep : Nat := 10
def GasExtStep : Nat := 20

/-- The `params` constants the gas functions read, at their values in
`params/protocol_params.go`. -/
def ExpGas : Nat := 10
def Sha3Gas : Nat := 30
def Sha3WordGas : Nat := 6
def CopyGas : Nat := 3
def LogGas : Nat := 375
def LogTopicGas : Nat := 375
def LogDataGas : Nat := 8
def CreateGas : Nat := 32000
def Create2Gas : Nat := 32000
def CallValueTransferGas : Nat := 9000
def CallNewAccountGas : Nat := 25000
def SuicideRefundGas : Nat := 24000
def JumpdestGas : Nat := 1
def SstoreSetGas : Nat := 20000
def SstoreResetGas : Nat := 5000
def SstoreClearGas : Nat := 5000
def SstoreRefundGas : Nat := 15000
def NetSstoreNoopGas : Nat := 200
def NetSstoreInitGas : Nat := 20000
def NetSstoreCleanGas : Nat := 5000
def NetSstoreDirtyGas : Nat := 200
def NetSstoreClearRefund : Nat := 15000
def NetSstoreResetRefund : Nat := 4800
def NetSstoreResetClearRefund : Nat := 19800

/-- `params.GasTable`: the prices that change between forks. -/
structure GasTable where
  ExtcodeSize : Nat
  ExtcodeCopy : Nat
  ExtcodeHash : Nat
  Balance : Nat
  SLoad : Nat
  Calls : Nat
  Suicide : Nat
  ExpByte : Nat
  CreateBySuicide : Nat

/-- `callGas`: the gas a call hands over. Under EIP-150 (a table with a
`CreateBySuicide` price) it is at most all but one 64th of what is left after
`base`; the subtraction is in `uint64`. -/
def callGas (gasTable : GasTable) (availableGas base : Nat) (callCost : Nat) : Except VmError Nat :=
  let eip150 :=
    if gasTable.CreateBySuicide > 0 then
      let availableGas := (availableGas + 2 ^ 64 - base % 2 ^ 64) % 2 ^ 64
      let gas := availableGas - availableGas / 64
      if !IsUint64 callCost || decide (gas < Uint64 callCost) then some gas else none
    else none
  match eip150 with
  | some gas => .ok gas
  | none => if !IsUint64 callCost then .error .errGasUintOverflow else .ok (Uint64 callCost)

/-! ## The gas functions -/

/-- What a gas function leaves, unless it panics: an error, or the gas with
the new frame and state. A `do` block is written at the unfolded type, in which
`Except VmError` is the monad. -/
abbrev GasOutcome (σ : Type) := Except VmError (Nat × Frame × σ)

section
variable {σ : Type} (gt : GasTable) (h : Host σ) (f : Frame) (s : σ) (memorySize : Nat)

/-- `memoryGasCost` on the frame's memory. -/
def memoryGas : Except VmError (Nat × Frame) :=
  (memoryGasCost f.memory memorySize).map fun (gas, mem) => (gas, { f with memory := mem })

/-- Add to the gas, failing on a `uint64` overflow. -/
def addGas (gas x : Nat) : Except VmError Nat :=
  let (gas, overflow) := SafeAdd gas x
  if overflow then .error .errGasUintOverflow else .ok gas

/-- The cost of the words that stack item `n` counts: `bigUint64` of the item,
rounded up to words and priced by `perWord`. -/
def wordsGas (n perWord : Nat) : Option (Except VmError Nat) := do
  let words ← f.stack.Back n
  if !IsUint64 words then some (.error .errGasUintOverflow)
  else
    let (wordGas, overflow) := SafeMul (toWordSize (Uint64 words)) perWord
    some (if overflow then .error .errGasUintOverflow else .ok wordGas)

/-- The shape of `gasCallDataCopy`, `gasReturnDataCopy`, `gasCodeCopy`,
`gasExtCodeCopy`, `gasSha3` and `gasCreate2`: memory, a base price, and a
price per word of stack item `n`. -/
def copyGas (base n perWord : Nat) : Option (GasOutcome σ) :=
  match memoryGas f memorySize with
  | .error e => some (.error e)
  | .ok (gas, f) =>
    match addGas gas base with
    | .error e => some (.error e)
    | .ok gas => (wordsGas f n perWord).map fun r =>
      r.bind fun words => (addGas gas words).map fun gas => (gas, f, s)

/-- The shape of `gasMLoad`, `gasMStore`, `gasMStore8` and `gasCreate`: memory
and a base price. -/
def memoryPlusGas (base : Nat) (memErr : Option VmError) : GasOutcome σ :=
  match memoryGas f memorySize with
  | .error e => .error (memErr.getD e)
  | .ok (gas, f) => (addGas gas base).map fun gas => (gas, f, s)

def gasCallDataCopy : Option (GasOutcome σ) := copyGas f s memorySize GasFastestStep 2 CopyGas
def gasReturnDataCopy : Option (GasOutcome σ) := copyGas f s memorySize GasFastestStep 2 CopyGas
def gasCodeCopy : Option (GasOutcome σ) := copyGas f s memorySize GasFastestStep 2 CopyGas
def gasExtCodeCopy : Option (GasOutcome σ) := copyGas f s memorySize gt.ExtcodeCopy 3 CopyGas
def gasSha3 : Option (GasOutcome σ) := copyGas f s memorySize Sha3Gas 1 Sha3WordGas
def gasCreate2 : Option (GasOutcome σ) := copyGas f s memorySize Create2Gas 2 Sha3WordGas

/-- `gasMLoad`, `gasMStore` and `gasMStore8` report any memory error as an
overflow. -/
def gasMLoad : GasOutcome σ := memoryPlusGas f s memorySize GasFastestStep (some .errGasUintOverflow)
def gasMStore : GasOutcome σ := memoryPlusGas f s memorySize GasFastestStep (some .errGasUintOverflow)
def gasMStore8 : GasOutcome σ := memoryPlusGas f s memorySize GasFastestStep (some .errGasUintOverflow)
def gasCreate : GasOutcome σ := memoryPlusGas f s memorySize CreateGas none

/-- `gasReturn` and `gasRevert`: the memory alone. -/
def gasReturn : GasOutcome σ := (memoryGas f memorySize).map fun (gas, f) => (gas, f, s)

/-- `makeGasLog`: the data size is read before the memory is charged. -/
def makeGasLog (n : Nat) : Option (GasOutcome σ) := do
  let requestedSize ← f.stack.Back 1
  if !IsUint64 requestedSize then some (.error .errGasUintOverflow)
  else some (do
    let (gas, f) ← memoryGas f memorySize
    let gas ← addGas gas LogGas
    let gas ← addGas gas ((n * LogTopicGas) % 2 ^ 64)
    let (memorySizeGas, overflow) := SafeMul (Uint64 requestedSize) LogDataGas
    if overflow then .error .errGasUintOverflow
    else
      let gas ← addGas gas memorySizeGas
      pure (gas, f, s) : Except VmError (Nat × Frame × σ))

/-- `gasExp`: a price per byte of the exponent. -/
def gasExp : Option (GasOutcome σ) := do
  let exponent ← f.stack.Back 1
  let expByteLen := (bitLen exponent + 7) / 8
  pure ((addGas ((expByteLen * gt.ExpByte) % 2 ^ 64) ExpGas).map fun gas => (gas, f, s))

/-- `gasSStore`: the legacy prices before Constantinople and from Petersburg
on, the net metering of EIP-1283 in between. -/
def gasSStore : Option (GasOutcome σ) := do
  let y ← f.stack.Back 1
  let x ← f.stack.Back 0
  let current := h.db.GetState s h.env.Address (BigToHash x)
  if h.ctx.IsPetersburg || !h.ctx.IsConstantinople then
    if current = 0 ∧ y ≠ 0 then pure (.ok (SstoreSetGas, f, s))
    else if current ≠ 0 ∧ y = 0 then pure (.ok (SstoreClearGas, f, h.db.AddRefund s SstoreRefundGas))
    else pure (.ok (SstoreResetGas, f, s))
  else
    let value := BigToHash y
    if current = value then pure (.ok (NetSstoreNoopGas, f, s))
    else
      let original := h.db.GetCommittedState s h.env.Address (BigToHash x)
      if original = current then
        if original = 0 then pure (.ok (NetSstoreInitGas, f, s))
        else
          let s := if value = 0 then h.db.AddRefund s NetSstoreClearRefund else s
          pure (.ok (NetSstoreCleanGas, f, s))
      else
        let s ← if original ≠ 0 then
            if current = 0 then h.db.SubRefund s NetSstoreClearRefund
            else if value = 0 then some (h.db.AddRefund s NetSstoreClearRefund) else some s
          else some s
        let s := if original = value then
            if original = 0 then h.db.AddRefund s NetSstoreResetClearRefund
            else h.db.AddRefund s NetSstoreResetRefund
          else s
        pure (.ok (NetSstoreDirtyGas, f, s))

/-- The end of every call's gas function: charge the memory on top of `gas`,
work out the gas handed over, and charge it too. -/
def callGasOf (gas : Nat) : Option (GasOutcome σ) :=
  match memoryGas f memorySize with
  | .error e => some (.error e)
  | .ok (memoryGas, f) =>
    match addGas gas memoryGas with
    | .error e => some (.error e)
    | .ok gas => (f.stack.Back 0).map fun callCost => (do
      let callGasTemp ← callGas gt f.Gas gas callCost
      let gas ← addGas gas callGasTemp
      pure (gas, { f with callGasTemp }, s) : Except VmError (Nat × Frame × σ))

def gasCall : Option (GasOutcome σ) := do
  let v ← f.stack.Back 2
  let a ← f.stack.Back 1
  let transfersValue := v ≠ 0
  let address := BigToAddress a
  let newAccount := if h.ctx.IsEIP158 then transfersValue ∧ h.db.Empty s address
    else !h.db.Exist s address
  let gas := if newAccount then (gt.Calls + CallNewAccountGas) % 2 ^ 64 else gt.Calls
  let gas := if transfersValue then (gas + CallValueTransferGas) % 2 ^ 64 else gas
  callGasOf gt f s memorySize gas

def gasCallCode : Option (GasOutcome σ) := do
  let v ← f.stack.Back 2
  let gas := if v ≠ 0 then (gt.Calls + CallValueTransferGas) % 2 ^ 64 else gt.Calls
  callGasOf gt f s memorySize gas

/-- `gasDelegateCall` and `gasStaticCall` charge the memory first and add the
call price to it, which comes to the same sum. -/
def gasDelegateCall : Option (GasOutcome σ) :=
  match memoryGas f memorySize with
  | .error e => some (.error e)
  | .ok (gas, f) =>
    match addGas gas gt.Calls with
    | .error e => some (.error e)
    | .ok gas => (f.stack.Back 0).map fun callCost => (do
      let callGasTemp ← callGas gt f.Gas gas callCost
      let gas ← addGas gas callGasTemp
      pure (gas, { f with callGasTemp }, s) : Except VmError (Nat × Frame × σ))

/-- `gasSuicide`: the refund is credited here, before the instruction runs. -/
def gasSuicide : Option (GasOutcome σ) := do
  let gas ← if h.ctx.IsEIP150 then do
      let b ← f.stack.Back 0
      let address := BigToAddress b
      let newAccount := if h.ctx.IsEIP158 then
          h.db.Empty s address ∧ h.db.GetBalance s h.env.Address ≠ 0
        else !h.db.Exist s address
      some (if newAccount then (gt.Suicide + gt.CreateBySuicide) % 2 ^ 64 else gt.Suicide)
    else some 0
  let s := if !h.db.HasSuicided s h.env.Address then h.db.AddRefund s SuicideRefundGas else s
  pure (.ok (gas, f, s))

end

/-- The gas functions, by their names in the source. -/
inductive GasFunc
  | gasExp | gasSha3 | gasBalance | gasCallDataCopy | gasCodeCopy | gasExtCodeSize
  | gasExtCodeCopy | gasReturnDataCopy | gasExtCodeHash | gasMLoad | gasMStore | gasMStore8
  | gasSLoad | gasSStore | makeGasLog (n : Nat) | gasCreate | gasCreate2 | gasCall | gasCallCode
  | gasReturn | gasRevert | gasSuicide | gasDelegateCall | gasStaticCall
  deriving DecidableEq, Repr

namespace GasFunc

variable {σ : Type} (gt : GasTable) (h : Host σ) (f : Frame) (s : σ) (memorySize : Nat)

/-- Run a gas function. -/
def run : GasFunc → Option (GasOutcome σ)
  | gasExp => Vm.gasExp gt f s
  | gasSha3 => Vm.gasSha3 f s memorySize
  | gasBalance => some (.ok (gt.Balance, f, s))
  | gasCallDataCopy => Vm.gasCallDataCopy f s memorySize
  | gasCodeCopy => Vm.gasCodeCopy f s memorySize
  | gasExtCodeSize => some (.ok (gt.ExtcodeSize, f, s))
  | gasExtCodeCopy => Vm.gasExtCodeCopy gt f s memorySize
  | gasReturnDataCopy => Vm.gasReturnDataCopy f s memorySize
  | gasExtCodeHash => some (.ok (gt.ExtcodeHash, f, s))
  | gasMLoad => some (Vm.gasMLoad f s memorySize)
  | gasMStore => some (Vm.gasMStore f s memorySize)
  | gasMStore8 => some (Vm.gasMStore8 f s memorySize)
  | gasSLoad => some (.ok (gt.SLoad, f, s))
  | gasSStore => Vm.gasSStore h f s
  | makeGasLog n => Vm.makeGasLog f s memorySize n
  | gasCreate => some (Vm.gasCreate f s memorySize)
  | gasCreate2 => Vm.gasCreate2 f s memorySize
  | gasCall => Vm.gasCall gt h f s memorySize
  | gasCallCode => Vm.gasCallCode gt f s memorySize
  | gasReturn => some (Vm.gasReturn f s memorySize)
  | gasRevert => some (Vm.gasReturn f s memorySize)
  | gasSuicide => Vm.gasSuicide gt h f s
  | gasDelegateCall => Vm.gasDelegateCall gt f s memorySize
  | gasStaticCall => Vm.gasDelegateCall gt f s memorySize

end GasFunc

/-! ## The gas a call hands over -/

section CallGas

variable {σ : Type} (gt : GasTable) {f f' : Frame} {s s' : σ} {memorySize total : Nat}

/-- Under EIP-150, when the base does not exceed the available gas, the
`uint64` subtraction does not wrap and the call gets the requested gas, capped
at all but one 64th of what is left. -/
theorem callGas_of_le (hgt : 0 < gt.CreateBySuicide) {g b : Nat} (hg : g < 2 ^ 64) (hb : b ≤ g)
    (c : Nat) : callGas gt g b c = .ok (min c ((g - b) - (g - b) / 64)) := by
  have hsub : (g + 2 ^ 64 - b % 2 ^ 64) % 2 ^ 64 = g - b := by omega
  simp only [callGas, hgt, if_true, hsub, IsUint64, Uint64]
  by_cases hc : c < 2 ^ 64
  · rw [Nat.mod_eq_of_lt hc]
    by_cases hlt : g - b - (g - b) / 64 < c
    · simp only [hc, hlt, decide_true, Bool.not_true, Bool.false_or, if_true]
      rw [min_eq_right (by omega)]
    · simp only [hc, hlt, decide_true, decide_false, Bool.not_true, Bool.or_false,
        Bool.false_eq_true, if_false]
      rw [min_eq_left (by omega)]
  · simp only [hc, decide_false, Bool.not_false, Bool.true_or, if_true]
    rw [min_eq_right (by omega)]

theorem addGas_ok {gas x r : Nat} (h : addGas gas x = .ok r) : r = gas + x := by
  simp only [addGas, SafeAdd, decide_eq_true_eq] at h
  by_cases hover : 2 ^ 64 ≤ gas + x
  · rw [if_pos hover] at h
    cases h
  · rw [if_neg hover] at h
    injection h with h
    omega

/-- Charging the memory changes the memory alone. -/
theorem memoryGas_ok {gas : Nat} {f₁ : Frame} (h : memoryGas f memorySize = .ok (gas, f₁)) :
    f₁.Gas = f.Gas ∧ f₁.stack = f.stack := by
  simp only [memoryGas] at h
  cases hm : memoryGasCost f.memory memorySize with
  | error e => simp [hm, Except.map] at h
  | ok r =>
    simp only [hm, Except.map, Except.ok.injEq, Prod.mk.injEq] at h
    obtain ⟨-, rfl⟩ := h
    exact ⟨rfl, rfl⟩

/-- The end every call's gas function shares: the gas handed over is
`callGas` of the base, and the total is the base plus it. -/
theorem callTail_ok {gas c : Nat}
    (h : (do
      let callGasTemp ← callGas gt f.Gas gas c
      let gas ← addGas gas callGasTemp
      pure (gas, { f with callGasTemp }, s) : Except VmError (Nat × Frame × σ)) = .ok (total, f', s')) :
    callGas gt f.Gas gas c = .ok f'.callGasTemp ∧ total = gas + f'.callGasTemp := by
  cases hc : callGas gt f.Gas gas c with
  | error e => simp [hc, bind, Except.bind] at h
  | ok r =>
    cases ha : addGas gas r with
    | error e => simp [hc, ha, bind, Except.bind] at h
    | ok t =>
      simp only [hc, ha, bind, Except.bind] at h
      obtain ⟨rfl, rfl, -⟩ := h
      exact ⟨rfl, addGas_ok ha⟩

/-- What the four call gas functions have in common, once they succeed: a
base `b`, the requested gas `c` on top of the stack, and the total. -/
def CallCharged (f : Frame) (total : Nat) (f' : Frame) : Prop :=
  ∃ b c, f.stack.Back 0 = some c ∧ callGas gt f.Gas b c = .ok f'.callGasTemp ∧
    total = b + f'.callGasTemp

theorem callGasOf_ok {gas : Nat} (h : callGasOf gt f s memorySize gas = some (.ok (total, f', s'))) :
    CallCharged gt f total f' := by
  simp only [callGasOf] at h
  split at h
  · cases h
  rename_i memGas f₁ hmem
  obtain ⟨hgas, hstack⟩ := memoryGas_ok hmem
  split at h
  · cases h
  rename_i b _
  cases hc : f₁.stack.Back 0 with
  | none => simp [hc] at h
  | some c =>
    simp only [hc, Option.map_some, Option.some.injEq] at h
    obtain ⟨hcall, htotal⟩ := callTail_ok gt h
    exact ⟨b, c, hstack ▸ hc, hgas ▸ hcall, htotal⟩

theorem gasDelegateCall_ok (h : gasDelegateCall gt f s memorySize = some (.ok (total, f', s'))) :
    CallCharged gt f total f' := by
  simp only [gasDelegateCall] at h
  split at h
  · cases h
  rename_i memGas f₁ hmem
  obtain ⟨hgas, hstack⟩ := memoryGas_ok hmem
  split at h
  · cases h
  rename_i b _
  cases hc : f₁.stack.Back 0 with
  | none => simp [hc] at h
  | some c =>
    simp only [hc, Option.map_some, Option.some.injEq] at h
    obtain ⟨hcall, htotal⟩ := callTail_ok gt h
    exact ⟨b, c, hstack ▸ hc, hgas ▸ hcall, htotal⟩

theorem gasCall_ok (h : Host σ) (hrun : gasCall gt h f s memorySize = some (.ok (total, f', s'))) :
    CallCharged gt f total f' := by
  cases hv : f.stack.Back 2 with
  | none => simp [gasCall, hv] at hrun
  | some v =>
    cases ha : f.stack.Back 1 with
    | none => simp [gasCall, hv, ha] at hrun
    | some a =>
      simp only [gasCall, hv, ha, Option.bind_eq_bind, Option.bind_some] at hrun
      exact callGasOf_ok gt hrun

theorem gasCallCode_ok (hrun : gasCallCode gt f s memorySize = some (.ok (total, f', s'))) :
    CallCharged gt f total f' := by
  cases hv : f.stack.Back 2 with
  | none => simp [gasCallCode, hv] at hrun
  | some v =>
    simp only [gasCallCode, hv, Option.bind_eq_bind, Option.bind_some] at hrun
    exact callGasOf_ok gt hrun

/-- All but one 64th: under EIP-150, once one of the four call gas functions
succeeds with a total the contract can pay, the gas handed over is the
request capped at all but one 64th of what the base leaves; and a base above
the available gas always makes the total exceed it, so the wrapped
subtraction in `callGas` never grants gas. -/
theorem call_gas_all_but_one_64th (hgt : 0 < gt.CreateBySuicide) (h : Host σ) (f : Frame) (s : σ)
    (memorySize : Nat) (hg : f.Gas < 2 ^ 64) (F : GasFunc)
    (hF : F = .gasCall ∨ F = .gasCallCode ∨ F = .gasDelegateCall ∨ F = .gasStaticCall)
    (total : Nat) (f' : Frame) (s' : σ) (hrun : F.run gt h f s memorySize = some (.ok (total, f', s'))) :
    ∃ b c, f.stack.Back 0 = some c ∧ total = b + f'.callGasTemp ∧
      (total ≤ f.Gas → f'.callGasTemp = min c ((f.Gas - b) - (f.Gas - b) / 64)) ∧
      (f.Gas < b → f.Gas < total) := by
  have hcharged : CallCharged gt f total f' := by
    rcases hF with rfl | rfl | rfl | rfl
    · exact gasCall_ok gt h hrun
    · exact gasCallCode_ok gt hrun
    · exact gasDelegateCall_ok gt hrun
    · exact gasDelegateCall_ok gt hrun
  obtain ⟨b, c, hc, hcall, htotal⟩ := hcharged
  refine ⟨b, c, hc, htotal, fun hpay => ?_, fun _ => by omega⟩
  -- a total the contract can pay leaves the base below the available gas
  rw [callGas_of_le gt hgt hg (by omega) c] at hcall
  injection hcall with hcall
  exact hcall.symm

/-- `CALLCODE` with no value under the EIP-150 prices (700 per call), asking
for 100 gas out of 10000: the base is 700 and all 100 are handed over. -/
theorem call_gas_all_but_one_64th_of_callcode :
    let gt : GasTable := ⟨700, 700, 400, 400, 200, 700, 5000, 50, 25000⟩
    let f : Frame := ⟨0, ⟨[100, 1, 0]⟩, NewMemory, ⟨∅, none, [], 0⟩, 10000, [], 0⟩
    0 < gt.CreateBySuicide ∧ f.Gas < 2 ^ 64 ∧
      GasFunc.run gt default f () 0 .gasCallCode = some (.ok (800, { f with callGasTemp := 100 }, ())) ∧
      ∃ b c, f.stack.Back 0 = some c ∧ 800 = b + 100 ∧
        (800 ≤ f.Gas → 100 = min c ((f.Gas - b) - (f.Gas - b) / 64)) ∧ (f.Gas < b → f.Gas < 800) := by
  intro gt f
  have hgt : 0 < gt.CreateBySuicide := by decide
  have hg : f.Gas < 2 ^ 64 := by decide
  have hrun : GasFunc.run gt default f () 0 .gasCallCode =
      some (.ok (800, { f with callGasTemp := 100 }, ())) := by
    simp only [gt, f]
    rfl
  exact ⟨hgt, hg, hrun, call_gas_all_but_one_64th gt hgt default f () 0 hg .gasCallCode
    (Or.inr (Or.inl rfl)) 800 _ () hrun⟩

end CallGas

end Btp.Vm
