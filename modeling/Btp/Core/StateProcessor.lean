import Mathlib
import Btp.Core.StateTransition
import Btp.Core.State.Revert
import Btp.Vm.Memory

/-!
# Applying a block's transactions

`TransitionDb` of `core/state_transition.go` applies one message to the
state. `preCheck` checks the nonce and buys the gas: the sender pays
`Gas * GasPrice` up front and the block's `GasPool` gives up `Gas`. The
intrinsic gas is used, the EVM runs the creation or the call with the rest,
and `refundGas` hands the gas left, with the refund counter's share, back to
the sender and to the pool; the coinbase is paid for the gas used.
`Process` of `core/state_processor.go` applies a block's transactions in
order with one pool for the block, and writes a receipt for each
(`ApplyTransaction`).

The EVM is a parameter (`EVM`): its `Create` and `Call` run code on the state
and hand back at most the gas they were given, as `vm.EVM` does, which pays
every operation out of that gas. The rest of `Process` that is not modelled
is a parameter as well: recovering a transaction's sender (`AsMessage`), the
EVM of its context, what `Finalise` does between transactions (deleting
suicided and empty objects, clearing the journal and the refund counter) and
the consensus engine's `Finalize`. Every result holds whatever they do. The
DAO fork's change of balances at its one block, the receipt's post-state
root, bloom and contract address are left out.

The gas of the block is accounted for exactly: a message that is applied
takes from the pool the gas it reports as used (`ApplyMessage_charges_pool`),
and along the loop of `Process` the gas used so far and the pool add up to
the block's gas limit, so that the cumulative gas of the receipts never
passes it.
-/

namespace Btp.State.StateDB

/-- `StateDB.Prepare`: the transaction hash, block hash and index the logs
get. -/
def Prepare (s : StateDB) (thash bhash : Hash) (ti : Nat) : StateDB :=
  { s with thash, bhash, txIndex := ti }

/-! ## What the mutators do to balances -/

section Balances
variable (keccak : List UInt8 → Hash) {s : StateDB}

theorem GetBalance_setStateObject (s : StateDB) (o : StateObject) (b : Address) :
    (s.setStateObject o).GetBalance b = if b = o.address then o.data.Balance else s.GetBalance b := by
  unfold GetBalance
  rw [getStateObject_setStateObject]
  split <;> rfl

@[simp] theorem GetBalance_append (s : StateDB) (e : JournalEntry) :
    (s.append e).GetBalance = s.GetBalance := rfl

/-- The object `GetOrNewStateObject` hands back is stored under the address,
holds its balance, and no balance changes. -/
theorem GetOrNewStateObject_balance (hwa : s.WellAddressed) (a : Address) :
    (s.GetOrNewStateObject keccak a).1.address = a ∧
      (s.GetOrNewStateObject keccak a).1.data.Balance = s.GetBalance a ∧
      ∀ b, (s.GetOrNewStateObject keccak a).2.GetBalance b = s.GetBalance b := by
  unfold GetOrNewStateObject
  cases hget : s.getStateObject a with
  | some obj => exact ⟨hwa.getStateObject hget, by simp [GetBalance, hget], fun _ => rfl⟩
  | none =>
    -- a new object of balance zero where there was none
    refine ⟨rfl, by simp [GetBalance, hget, createObject, StateObject.newObject], fun b => ?_⟩
    simp only [createObject, hget]
    rw [GetBalance_setStateObject]
    split_ifs with hb
    · subst hb
      simp [GetBalance, hget, StateObject.newObject]
    · rfl

theorem GetBalance_setBalanceObject (obj : StateObject) (t : StateDB) (amount : Int) (b : Address) :
    (obj.SetBalance t amount).GetBalance b = if b = obj.address then amount else t.GetBalance b := by
  unfold StateObject.SetBalance
  rw [GetBalance_setStateObject, GetBalance_append]
  rfl

theorem GetBalance_setNonceObject (obj : StateObject) (t : StateDB) (nonce : Nat) (b : Address) :
    (obj.SetNonce t nonce).GetBalance b = if b = obj.address then obj.data.Balance else t.GetBalance b := by
  unfold StateObject.SetNonce
  rw [GetBalance_setStateObject, GetBalance_append]
  rfl

/-- A mutator that updates the object `GetOrNewStateObject` found or made
changes balances as it changes them on that object, over the state the
lookup left. -/
theorem GetBalance_getOrNew (hwa : s.WellAddressed) (a : Address)
    {f : StateObject → StateDB → StateDB} {δ : Int}
    (hf : ∀ obj t b, obj.address = a → t.GetBalance a = obj.data.Balance →
      (f obj t).GetBalance b = t.GetBalance b + if b = a then δ else 0) (b : Address) :
    (f (s.GetOrNewStateObject keccak a).1 (s.GetOrNewStateObject keccak a).2).GetBalance b =
      s.GetBalance b + if b = a then δ else 0 := by
  obtain ⟨haddr, hbal, hrest⟩ := GetOrNewStateObject_balance keccak hwa a
  rw [hf _ _ b haddr (by rw [hrest, hbal]), hrest]

theorem GetBalance_AddBalance (hwa : s.WellAddressed) (a : Address) (amount : Int) (b : Address) :
    (s.AddBalance keccak a amount).GetBalance b = s.GetBalance b + if b = a then amount else 0 := by
  refine GetBalance_getOrNew keccak hwa a (f := fun obj t => obj.AddBalance keccak t amount)
    (fun obj t b haddr hbal => ?_) b
  unfold StateObject.AddBalance
  by_cases h0 : amount = 0
  · -- adding zero at most touches the object
    subst h0
    rw [if_pos rfl]
    split_ifs <;> simp [StateObject.touch]
  · rw [if_neg h0, GetBalance_setBalanceObject, haddr]
    split_ifs with hb
    · subst hb
      rw [hbal]
    · simp

theorem GetBalance_SubBalance (hwa : s.WellAddressed) (a : Address) (amount : Int) (b : Address) :
    (s.SubBalance keccak a amount).GetBalance b = s.GetBalance b - if b = a then amount else 0 := by
  have h := GetBalance_getOrNew keccak hwa a (f := fun obj t => obj.SubBalance t amount)
    (δ := -amount) (fun obj t b haddr hbal => ?_) b
  · rw [SubBalance, h]
    split_ifs <;> simp [sub_eq_add_neg]
  · unfold StateObject.SubBalance
    by_cases h0 : amount = 0
    · subst h0
      simp
    · rw [if_neg h0, GetBalance_setBalanceObject, haddr]
      split_ifs with hb
      · subst hb
        rw [hbal, sub_eq_add_neg]
      · simp

theorem GetBalance_SetNonce (hwa : s.WellAddressed) (a : Address) (nonce : Nat) (b : Address) :
    (s.SetNonce keccak a nonce).GetBalance b = s.GetBalance b := by
  have h := GetBalance_getOrNew keccak hwa a (f := fun obj t => obj.SetNonce t nonce) (δ := 0)
    (fun obj t b haddr hbal => ?_) b
  · rw [SetNonce, h]
    simp
  · rw [GetBalance_setNonceObject, haddr]
    split_ifs with hb
    · subst hb
      rw [hbal]
      simp
    · simp

theorem WellAddressed.AddBalance (hwa : s.WellAddressed) (a : Address) (amount : Int) :
    (s.AddBalance keccak a amount).WellAddressed :=
  (step_extends keccak hwa (show (StateOp.AddBalance a amount).journaled = true from rfl) rfl).wellAddressed

theorem WellAddressed.SubBalance (hwa : s.WellAddressed) (a : Address) (amount : Int) :
    (s.SubBalance keccak a amount).WellAddressed :=
  (step_extends keccak hwa (show (StateOp.SubBalance a amount).journaled = true from rfl) rfl).wellAddressed

theorem WellAddressed.SetNonce (hwa : s.WellAddressed) (a : Address) (nonce : Nat) :
    (s.SetNonce keccak a nonce).WellAddressed :=
  (step_extends keccak hwa (show (StateOp.SetNonce a nonce).journaled = true from rfl) rfl).wellAddressed

end Balances

end Btp.State.StateDB

namespace Btp.Core

open Btp.State Btp.Vm

/-! ## Messages, the gas pool and the EVM -/

/-- The errors `TransitionDb` returns: the nonce errors of `preCheck`, the
two errors of `buyGas`, and those of the EVM (`vm.ErrOutOfGas` among them). -/
inductive TxError
  | ErrNonceTooHigh
  | ErrNonceTooLow
  | errInsufficientBalanceForGas
  | ErrGasLimitReached
  | vm (err : VmError)
  deriving DecidableEq, Repr

namespace GasPool

/-! A `GasPool` is the `uint64` of the gas left for the block's transactions. -/

/-- `GasPool.AddGas`; `none` is its panic on a pool pushed above `uint64`. -/
def AddGas (gp : Nat) (amount : Nat) : Option Nat :=
  if gp > MaxUint64 - amount then none else some (gp + amount)

/-- `GasPool.SubGas`. -/
def SubGas (gp : Nat) (amount : Nat) : Except TxError Nat :=
  if gp < amount then .error .ErrGasLimitReached else .ok (gp - amount)

end GasPool

/-- `Message`: what the transition reads of a message. A missing `To` is a
contract creation. -/
structure Message where
  From : Address
  To : Option Address
  GasPrice : Nat
  Gas : Nat
  Value : Nat
  Nonce : Nat
  CheckNonce : Bool
  Data : List UInt8

/-- What the transition uses of `vm.EVM`: `Create` and `Call` with the state,
the caller, the code or the callee and input, the gas and the value, handing
back the return data, the gas left, the error and the state after; the
coinbase and whether the block is past homestead. The interpreter hands back
at most the gas it was given and keeps the objects under their addresses. -/
structure EVM where
  Create : StateDB → Address → List UInt8 → Nat → Nat → List UInt8 × Nat × Option VmError × StateDB
  Call : StateDB → Address → Address → List UInt8 → Nat → Nat →
    List UInt8 × Nat × Option VmError × StateDB
  Coinbase : Address
  homestead : Bool
  create_gas : ∀ s caller code gas value, (Create s caller code gas value).2.1 ≤ gas
  call_gas : ∀ s caller addr input gas value, (Call s caller addr input gas value).2.1 ≤ gas
  create_wellAddressed : ∀ s caller code gas value, s.WellAddressed →
    (Create s caller code gas value).2.2.2.WellAddressed
  call_wellAddressed : ∀ s caller addr input gas value, s.WellAddressed →
    (Call s caller addr input gas value).2.2.2.WellAddressed

/-- `StateTransition`. `gasPrice`, `value` and `data` are the message's and
are read from it. -/
structure StateTransition where
  gp : Nat
  msg : Message
  gas : Nat
  initialGas : Nat
  state : StateDB

/-- `NewStateTransition`. -/
def NewStateTransition (msg : Message) (gp : Nat) (state : StateDB) : StateTransition :=
  ⟨gp, msg, 0, 0, state⟩

namespace StateTransition

section Transition
variable (keccak : List UInt8 → Hash) (P : GasParams)

/-- `StateTransition.useGas`. -/
def useGas (st : StateTransition) (amount : Nat) : Except TxError StateTransition :=
  if st.gas < amount then .error (.vm .ErrOutOfGas) else .ok { st with gas := st.gas - amount }

/-- `StateTransition.buyGas`. -/
def buyGas (st : StateTransition) : Except TxError StateTransition :=
  let mgval : Int := st.msg.Gas * st.msg.GasPrice
  if st.state.GetBalance st.msg.From < mgval then .error .errInsufficientBalanceForGas
  else
    match GasPool.SubGas st.gp st.msg.Gas with
    | .error err => .error err
    | .ok gp =>
      .ok { st with
        gp
        gas := st.gas + st.msg.Gas
        initialGas := st.msg.Gas
        state := st.state.SubBalance keccak st.msg.From mgval }

/-- `StateTransition.preCheck`. -/
def preCheck (st : StateTransition) : Except TxError StateTransition :=
  if st.msg.CheckNonce then
    let nonce := st.state.GetNonce st.msg.From
    if nonce < st.msg.Nonce then .error .ErrNonceTooHigh
    else if nonce > st.msg.Nonce then .error .ErrNonceTooLow
    else st.buyGas keccak
  else st.buyGas keccak

/-- `StateTransition.gasUsed`. -/
def gasUsed (st : StateTransition) : Nat := st.initialGas - st.gas

/-- `StateTransition.refundGas`; `none` is the panic of `AddGas`. -/
def refundGas (st : StateTransition) : Option StateTransition :=
  -- the refund counter pays back at most half of the gas used
  let refund := min (st.gasUsed / 2) st.state.GetRefund
  let st := { st with gas := st.gas + refund }
  let state := st.state.AddBalance keccak st.msg.From (st.gas * st.msg.GasPrice)
  (GasPool.AddGas st.gp st.gas).map fun gp => { st with state, gp }

end Transition

end StateTransition

section Run
variable (keccak : List UInt8 → Hash) (P : GasParams)

/-- The EVM run of `TransitionDb` with the gas left: a creation, or a call
after the sender's nonce is raised. -/
def vmRun (evm : EVM) (msg : Message) (state : StateDB) (gas : Nat) :
    List UInt8 × Nat × Option VmError × StateDB :=
  if msg.To.isNone then evm.Create state msg.From msg.Data gas msg.Value
  else
    let state := state.SetNonce keccak msg.From ((state.GetNonce msg.From + 1) % 2 ^ 64)
    -- `st.to()`, the zero address for a creation
    evm.Call state msg.From (msg.To.getD 0) msg.Data gas msg.Value

/-- `StateTransition.TransitionDb`: the transition after it, with the return
data, the gas used and whether the EVM failed, or the error; `none` is a
panic. On an error the state keeps what was done before it. -/
def StateTransition.TransitionDb (evm : EVM) (st : StateTransition) :
    Option (StateTransition × Except TxError (List UInt8 × Nat × Bool)) :=
  match st.preCheck keccak with
  | .error err => some (st, .error err)
  | .ok st =>
    match IntrinsicGas P st.msg.Data st.msg.To.isNone evm.homestead with
    | none => some (st, .error (.vm .ErrOutOfGas))
    | some gas =>
      match st.useGas gas with
      | .error err => some (st, .error err)
      | .ok st =>
        let r := vmRun keccak evm st.msg st.state st.gas
        let st := { st with gas := r.2.1, state := r.2.2.2 }
        -- the one EVM error that is the transaction's rather than its receipt's
        if r.2.2.1 = some .ErrInsufficientBalance then some (st, .error (.vm .ErrInsufficientBalance))
        else
          (st.refundGas keccak).map fun st =>
            let st := { st with
              state := st.state.AddBalance keccak evm.Coinbase (st.gasUsed * st.msg.GasPrice) }
            (st, .ok (r.1, st.gasUsed, r.2.2.1.isSome))

/-- `ApplyMessage`. -/
def ApplyMessage (evm : EVM) (msg : Message) (gp : Nat) (state : StateDB) :
    Option (StateTransition × Except TxError (List UInt8 × Nat × Bool)) :=
  (NewStateTransition msg gp state).TransitionDb keccak P evm

end Run

/-! ## One message -/

namespace StateTransition

section Phases
variable (keccak : List UInt8 → Hash) (P : GasParams) {st st' : StateTransition}

/-- `buyGas` takes the message's gas from the pool, sets the gas and the
initial gas, and charges the sender for the gas at its price. -/
theorem buyGas_ok (h : st.buyGas keccak = .ok st') :
    st'.gp + st.msg.Gas = st.gp ∧ st'.msg = st.msg ∧ st'.gas = st.gas + st.msg.Gas ∧
      st'.initialGas = st.msg.Gas ∧
      st'.state = st.state.SubBalance keccak st.msg.From (st.msg.Gas * st.msg.GasPrice) := by
  unfold buyGas at h
  dsimp only at h
  split_ifs at h with hbal
  cases hsub : GasPool.SubGas st.gp st.msg.Gas with
  | error e => simp [hsub] at h
  | ok gp =>
    simp only [hsub, Except.ok.injEq] at h
    subst h
    unfold GasPool.SubGas at hsub
    split_ifs at hsub with hlt
    cases hsub
    exact ⟨Nat.sub_add_cancel (Nat.le_of_not_lt hlt), rfl, rfl, rfl, by push_cast; rfl⟩

theorem buyGas_error {e : TxError} (h : st.buyGas keccak = .error e) : ∀ v, e ≠ .vm v := by
  unfold buyGas at h
  dsimp only at h
  split_ifs at h
  · cases h
    simp
  · cases hsub : GasPool.SubGas st.gp st.msg.Gas with
    | error e' =>
      simp only [hsub, Except.error.injEq] at h
      subst h
      unfold GasPool.SubGas at hsub
      split_ifs at hsub
      cases hsub
      simp
    | ok gp => simp [hsub] at h

/-- `preCheck` passes what `buyGas` does once the nonce matches. -/
theorem preCheck_ok (h : st.preCheck keccak = .ok st') : st.buyGas keccak = .ok st' := by
  unfold preCheck at h
  dsimp only at h
  split_ifs at h
  all_goals exact h

/-- The errors of `preCheck` are its own, none of the EVM's. -/
theorem preCheck_error {e : TxError} (h : st.preCheck keccak = .error e) : ∀ v, e ≠ .vm v := by
  unfold preCheck at h
  dsimp only at h
  split_ifs at h
  all_goals first | exact buyGas_error keccak h | (cases h; simp)

theorem useGas_ok {amount : Nat} (h : st.useGas amount = .ok st') :
    amount ≤ st.gas ∧ st' = { st with gas := st.gas - amount } := by
  unfold useGas at h
  split_ifs at h with hlt
  cases h
  exact ⟨by omega, rfl⟩

theorem useGas_error {amount : Nat} {e : TxError} (h : st.useGas amount = .error e) :
    e = .vm .ErrOutOfGas := by
  unfold useGas at h
  split_ifs at h
  cases h
  rfl

/-- `refundGas` gives the pool back the gas left after the refund, which
stays within the initial gas, and pays it back to the sender. -/
theorem refundGas_ok (hle : st.gas ≤ st.initialGas) (h : st.refundGas keccak = some st') :
    st'.gp = st.gp + st'.gas ∧ st.gas ≤ st'.gas ∧ st'.gas ≤ st.initialGas ∧
      2 * (st.initialGas - st'.gas) ≥ st.initialGas - st.gas ∧ st'.initialGas = st.initialGas ∧
      st'.msg = st.msg ∧
      st'.state = st.state.AddBalance keccak st.msg.From (st'.gas * st.msg.GasPrice) := by
  unfold refundGas at h
  obtain ⟨gp, hgp, rfl⟩ := Option.map_eq_some_iff.1 h
  unfold GasPool.AddGas at hgp
  split_ifs at hgp
  cases hgp
  -- the refund is at most half of the gas used
  have hrefund : min ((st.initialGas - st.gas) / 2) st.state.GetRefund ≤ (st.initialGas - st.gas) / 2 :=
    min_le_left _ _
  dsimp only [gasUsed]
  refine ⟨rfl, Nat.le_add_right _ _, by omega, by omega, rfl, rfl, rfl⟩

end Phases

section Inversion
variable (keccak : List UInt8 → Hash) (P : GasParams) (evm : EVM) {st st' : StateTransition}

/-- A transition that returns no error went through every phase: the
checks, the intrinsic gas, an EVM run with the gas left, the refund and the
payment of the coinbase. -/
theorem TransitionDb_ok {ret : List UInt8} {used : Nat} {failed : Bool}
    (h : st.TransitionDb keccak P evm = some (st', .ok (ret, used, failed))) :
    ∃ st₁ ig st₂, st.preCheck keccak = .ok st₁ ∧
      IntrinsicGas P st₁.msg.Data st₁.msg.To.isNone evm.homestead = some ig ∧ ig ≤ st₁.gas ∧
      { st₁ with
          gas := (vmRun keccak evm st₁.msg st₁.state (st₁.gas - ig)).2.1
          state := (vmRun keccak evm st₁.msg st₁.state (st₁.gas - ig)).2.2.2 }.refundGas keccak =
        some st₂ ∧
      st' = { st₂ with
        state := st₂.state.AddBalance keccak evm.Coinbase (st₂.gasUsed * st₂.msg.GasPrice) } ∧
      used = st₂.gasUsed := by
  unfold TransitionDb at h
  cases hpre : st.preCheck keccak with
  | error e => simp [hpre] at h
  | ok st₁ =>
    simp only [hpre] at h
    cases hig : IntrinsicGas P st₁.msg.Data st₁.msg.To.isNone evm.homestead with
    | none => simp [hig] at h
    | some ig =>
      simp only [hig] at h
      cases huse : st₁.useGas ig with
      | error e => simp [huse] at h
      | ok st₁' =>
        simp only [huse] at h
        obtain ⟨hle, rfl⟩ := useGas_ok huse
        split_ifs at h with hins
        · simp at h
        obtain ⟨st₂, hst₂, heq⟩ := Option.map_eq_some_iff.1 h
        simp only [Prod.mk.injEq, Except.ok.injEq] at heq
        obtain ⟨rfl, ⟨-, rfl, -⟩⟩ := heq
        exact ⟨st₁, ig, st₂, rfl, hig, hle, hst₂, rfl, rfl⟩

/-- A transition that returns an error failed its checks and changed
nothing, or failed with an error of the EVM. -/
theorem TransitionDb_error {e : TxError}
    (h : st.TransitionDb keccak P evm = some (st', .error e)) :
    (st.preCheck keccak = .error e ∧ st' = st) ∨
      (∃ st₁, st.preCheck keccak = .ok st₁ ∧ e = .vm .ErrOutOfGas ∧ st' = st₁) ∨
      e = .vm .ErrInsufficientBalance := by
  unfold TransitionDb at h
  cases hpre : st.preCheck keccak with
  | error e' =>
    simp only [hpre, Option.some.injEq, Prod.mk.injEq, Except.error.injEq] at h
    obtain ⟨rfl, rfl⟩ := h
    exact .inl ⟨rfl, rfl⟩
  | ok st₁ =>
    simp only [hpre] at h
    cases hig : IntrinsicGas P st₁.msg.Data st₁.msg.To.isNone evm.homestead with
    | none =>
      -- the intrinsic gas does not fit in 64 bits
      simp only [hig, Option.some.injEq, Prod.mk.injEq, Except.error.injEq] at h
      obtain ⟨rfl, rfl⟩ := h
      exact .inr (.inl ⟨st₁, rfl, rfl, rfl⟩)
    | some ig =>
      simp only [hig] at h
      cases huse : st₁.useGas ig with
      | error e' =>
        -- the gas bought does not cover the intrinsic gas
        simp only [huse, Option.some.injEq, Prod.mk.injEq, Except.error.injEq] at h
        obtain ⟨rfl, rfl⟩ := h
        exact .inr (.inl ⟨st₁, rfl, useGas_error huse, rfl⟩)
      | ok st₁' =>
        simp only [huse] at h
        split_ifs at h with hins
        · simp only [Option.some.injEq, Prod.mk.injEq, Except.error.injEq] at h
          exact .inr (.inr h.2.symm)
        · obtain ⟨st₂, -, heq⟩ := Option.map_eq_some_iff.1 h
          simp at heq

end Inversion

end StateTransition

section Run
variable (keccak : List UInt8 → Hash) (P : GasParams) (evm : EVM)

theorem vmRun_gas_le (msg : Message) (state : StateDB) (gas : Nat) :
    (vmRun keccak evm msg state gas).2.1 ≤ gas := by
  unfold vmRun
  split
  · exact evm.create_gas ..
  · exact evm.call_gas ..

theorem vmRun_wellAddressed (msg : Message) {state : StateDB} (hwa : state.WellAddressed)
    (gas : Nat) : (vmRun keccak evm msg state gas).2.2.2.WellAddressed := by
  unfold vmRun
  split
  · exact evm.create_wellAddressed _ _ _ _ _ hwa
  · exact evm.call_wellAddressed _ _ _ _ _ _ (StateDB.WellAddressed.SetNonce keccak hwa _ _)

/-- A message applied without error: the sender paid its gas up front, the
EVM ran with the gas left after the intrinsic gas, the gas left after the
refund went back to the pool and the sender, and the gas used went to the
coinbase. -/
theorem ApplyMessage_ok {msg : Message} {gp : Nat} {state : StateDB} {st' : StateTransition}
    {ret : List UInt8} {used : Nat} {failed : Bool}
    (h : ApplyMessage keccak P evm msg gp state = some (st', .ok (ret, used, failed))) :
    ∃ ig gas₂, IntrinsicGas P msg.Data msg.To.isNone evm.homestead = some ig ∧ ig ≤ msg.Gas ∧
      (vmRun keccak evm msg (state.SubBalance keccak msg.From (msg.Gas * msg.GasPrice))
        (msg.Gas - ig)).2.1 ≤ gas₂ ∧ gas₂ ≤ msg.Gas ∧ ig ≤ 2 * used ∧ used = msg.Gas - gas₂ ∧
      st'.gp + used = gp ∧
      st'.state = ((vmRun keccak evm msg (state.SubBalance keccak msg.From (msg.Gas * msg.GasPrice))
        (msg.Gas - ig)).2.2.2.AddBalance keccak msg.From (gas₂ * msg.GasPrice)).AddBalance keccak
          evm.Coinbase (used * msg.GasPrice) := by
  obtain ⟨st₁, ig, st₂, hpre, hig, hle, hst₂, rfl, rfl⟩ := StateTransition.TransitionDb_ok keccak P evm h
  obtain ⟨hgp₁, hmsg₁, hgas₁, hinit₁, hstate₁⟩ :=
    StateTransition.buyGas_ok keccak (StateTransition.preCheck_ok keccak hpre)
  obtain ⟨gp₁, msg₁, gas₁, init₁, state₁⟩ := st₁
  dsimp only [NewStateTransition] at hgp₁ hmsg₁ hgas₁ hinit₁ hstate₁ hig hle hst₂
  subst msg₁ state₁
  rw [zero_add] at hgas₁
  subst gas₁ init₁
  -- the EVM hands back at most the gas it was given
  have hvm := vmRun_gas_le keccak evm msg
    (state.SubBalance keccak msg.From (msg.Gas * msg.GasPrice)) (msg.Gas - ig)
  obtain ⟨hgp₂, hlo, hhi, hhalf, hinit₂, hmsg₂, hstate₂⟩ :=
    StateTransition.refundGas_ok keccak (by dsimp only; omega) hst₂
  dsimp only at hgp₂ hlo hhi hhalf hinit₂ hmsg₂ hstate₂
  have hused : st₂.gasUsed = msg.Gas - st₂.gas := by
    rw [StateTransition.gasUsed, hinit₂]
  refine ⟨ig, st₂.gas, hig, hle, hlo, hhi, ?_, hused, ?_, ?_⟩
  · -- at most half of the gas the EVM used is refunded
    generalize (vmRun keccak evm msg (state.SubBalance keccak msg.From (msg.Gas * msg.GasPrice))
      (msg.Gas - ig)).2.1 = vg at hvm hhalf
    omega
  · show st₂.gp + st₂.gasUsed = gp
    omega
  · show st₂.state.AddBalance keccak evm.Coinbase (st₂.gasUsed * st₂.msg.GasPrice) = _
    rw [hstate₂, hmsg₂]

/-- A message applied without error takes from the block's pool exactly the
gas it reports as used, and no more than its gas limit; that limit covered
its intrinsic gas, and the refund never brings the gas used below half of
it. -/
theorem ApplyMessage_charges_pool {msg : Message} {gp : Nat} {state : StateDB}
    {st' : StateTransition} {ret : List UInt8} {used : Nat} {failed : Bool}
    (h : ApplyMessage keccak P evm msg gp state = some (st', .ok (ret, used, failed))) :
    st'.gp + used = gp ∧ used ≤ msg.Gas ∧
      ∃ ig, IntrinsicGas P msg.Data msg.To.isNone evm.homestead = some ig ∧ ig ≤ msg.Gas ∧
        ig ≤ 2 * used := by
  obtain ⟨ig, gas₂, hig, hle, -, -, hhalf, hused, hgp, -⟩ := ApplyMessage_ok keccak P evm h
  exact ⟨hgp, by omega, ig, hig, hle, hhalf⟩

theorem testGasParams_txGas : (21000 : Nat) ≤ MaxUint64 := by decide

theorem testGasParams_creation : (53000 : Nat) ≤ MaxUint64 := by decide

theorem testGasParams_zero : (0 : Nat) < 4 := by decide

theorem testGasParams_nonZero : (0 : Nat) < 68 := by decide

/-- The gas constants of `params` the test messages are charged by:
`TxGas`, `TxGasContractCreation`, `TxDataZeroGas` and `TxDataNonZeroGas`. -/
def testGasParams : GasParams :=
  ⟨21000, 53000, 4, 68, testGasParams_txGas, testGasParams_creation, testGasParams_zero,
    testGasParams_nonZero⟩

/-- An EVM at coinbase `0`, past Homestead, whose calls and creations hand
back all their gas and leave the state as it was. -/
def idleEVM : EVM :=
  ⟨fun s _ _ g _ => ([], g, none, s), fun s _ _ _ g _ => ([], g, none, s), 0, true,
    fun _ _ _ _ _ => le_refl _, fun _ _ _ _ _ _ => le_refl _, fun _ _ _ _ _ h => h,
    fun _ _ _ _ _ _ h => h⟩

/-- A state with one account, `0`, holding 100000. -/
def fundedState : StateDB :=
  New fun a => if a = 0 then some ⟨⟨0, 100000, 0⟩, [], fun _ => 0⟩ else none

theorem ApplyMessage_charges_pool_transfer :
    ∃ (st' : StateTransition) (ret : List UInt8) (used : Nat) (failed : Bool),
      ApplyMessage (fun _ => 0) testGasParams idleEVM ⟨0, some 1, 0, 30000, 0, 0, false, []⟩ 100000
          (New fun _ => none) = some (st', .ok (ret, used, failed)) ∧
      (st'.gp + used = 100000 ∧ used ≤ 30000 ∧
        ∃ ig, IntrinsicGas testGasParams [] false idleEVM.homestead = some ig ∧ ig ≤ 30000 ∧
          ig ≤ 2 * used) :=
  -- the transfer goes through: its result is evaluated
  have h : ∃ st' ret used failed, ApplyMessage (fun _ => 0) testGasParams idleEVM
      ⟨0, some 1, 0, 30000, 0, 0, false, []⟩ 100000 (New fun _ => none) =
        some (st', .ok (ret, used, failed)) := ⟨_, _, _, _, rfl⟩
  let ⟨st', ret, used, failed, h⟩ := h
  ⟨st', ret, used, failed, h, ApplyMessage_charges_pool _ _ _ h⟩

/-- A message whose gas does not cover its intrinsic gas is refused with
`ErrOutOfGas`, but only after its gas was bought: the pool has given up the
message's gas and the sender has paid for it. `Process` then drops the whole
block. -/
theorem ApplyMessage_out_of_gas_keeps_purchase {msg : Message} {gp : Nat} {state : StateDB}
    {st' : StateTransition} (hwa : state.WellAddressed)
    (h : ApplyMessage keccak P evm msg gp state = some (st', .error (.vm .ErrOutOfGas))) :
    st'.gp + msg.Gas = gp ∧
      ∀ x, st'.state.GetBalance x =
        state.GetBalance x - if x = msg.From then (msg.Gas * msg.GasPrice : Int) else 0 := by
  rcases StateTransition.TransitionDb_error keccak P evm h with ⟨hpre, -⟩ | ⟨st₁, hpre, -, rfl⟩ | hins
  · exact absurd rfl (StateTransition.preCheck_error keccak hpre .ErrOutOfGas)
  · obtain ⟨hgp, hmsg, -, -, hstate⟩ :=
      StateTransition.buyGas_ok keccak (StateTransition.preCheck_ok keccak hpre)
    refine ⟨hgp, fun x => ?_⟩
    rw [hstate]
    exact StateDB.GetBalance_SubBalance keccak hwa _ _ x
  · cases hins

/-- Account `0` sends 20000 gas at price 2, short of the 21000 a transfer
needs: the pool gives up the 20000 gas and the sender pays 40000 for it. -/
theorem ApplyMessage_out_of_gas_keeps_purchase_short_gas :
    ∃ st' : StateTransition, fundedState.WellAddressed ∧
      ApplyMessage (fun _ => 0) testGasParams idleEVM ⟨0, some 1, 2, 20000, 0, 0, false, []⟩ 100000
          fundedState = some (st', .error (.vm .ErrOutOfGas)) ∧
      st'.gp = 80000 ∧ st'.state.GetBalance 0 = 60000 ∧ st'.state.GetBalance 1 = 0 := by
  have hwa : fundedState.WellAddressed := (StateDB.New_consistent _).wellAddressed
  obtain ⟨st', h⟩ : ∃ st', ApplyMessage (fun _ => 0) testGasParams idleEVM
      ⟨0, some 1, 2, 20000, 0, 0, false, []⟩ 100000 fundedState =
        some (st', .error (.vm .ErrOutOfGas)) := ⟨_, rfl⟩
  obtain ⟨hgp, hbal⟩ := ApplyMessage_out_of_gas_keeps_purchase _ _ _ hwa h
  have hfunded : fundedState.GetBalance 0 = 100000 ∧ fundedState.GetBalance 1 = 0 := by decide
  have hgp : st'.gp + 20000 = 100000 := hgp
  refine ⟨st', hwa, h, by omega, ?_, ?_⟩
  · rw [hbal 0, hfunded.1]
    rfl
  · rw [hbal 1, hfunded.2]
    rfl

/-- What a message applied without error does to balances besides what the
EVM run does: the EVM runs on the state where the sender has paid for the
message's gas at its price; after it the sender gets back the gas not used
and the coinbase is paid for the gas used. The gas fee moves exactly
`used * GasPrice` from the sender to the coinbase. -/
theorem ApplyMessage_settles_fees {msg : Message} {gp : Nat} {state : StateDB}
    {st' : StateTransition} {ret : List UInt8} {used : Nat} {failed : Bool}
    (hwa : state.WellAddressed)
    (h : ApplyMessage keccak P evm msg gp state = some (st', .ok (ret, used, failed))) :
    ∃ ig, IntrinsicGas P msg.Data msg.To.isNone evm.homestead = some ig ∧
      ∀ x, st'.state.GetBalance x =
        (vmRun keccak evm msg (state.SubBalance keccak msg.From (msg.Gas * msg.GasPrice))
          (msg.Gas - ig)).2.2.2.GetBalance x +
        (if x = msg.From then ((msg.Gas - used : Nat) : Int) * msg.GasPrice else 0) +
        (if x = evm.Coinbase then (used : Int) * msg.GasPrice else 0) := by
  obtain ⟨ig, gas₂, hig, -, -, hgas₂, -, hused, -, hstate⟩ := ApplyMessage_ok keccak P evm h
  have hgas : gas₂ = msg.Gas - used := by omega
  subst hgas
  -- the EVM keeps the objects under their addresses, so the two payments add up
  have hvm := vmRun_wellAddressed keccak evm msg
    (StateDB.WellAddressed.SubBalance keccak hwa msg.From (msg.Gas * msg.GasPrice)) (msg.Gas - ig)
  refine ⟨ig, hig, fun x => ?_⟩
  rw [hstate, StateDB.GetBalance_AddBalance keccak (StateDB.WellAddressed.AddBalance keccak hvm _ _),
    StateDB.GetBalance_AddBalance keccak hvm]

theorem ApplyMessage_settles_fees_transfer :
    ∃ (st' : StateTransition) (ret : List UInt8) (used : Nat) (failed : Bool),
      fundedState.WellAddressed ∧
      ApplyMessage (fun _ => 0) testGasParams idleEVM ⟨0, some 1, 1, 30000, 0, 0, false, []⟩ 100000
          fundedState = some (st', .ok (ret, used, failed)) ∧
      ∃ ig, IntrinsicGas testGasParams [] false idleEVM.homestead = some ig ∧
        ∀ x, st'.state.GetBalance x =
          (vmRun (fun _ => 0) idleEVM ⟨0, some 1, 1, 30000, 0, 0, false, []⟩
            (fundedState.SubBalance (fun _ => 0) 0 (30000 * 1)) (30000 - ig)).2.2.2.GetBalance x +
          (if x = 0 then ((30000 - used : Nat) : Int) * (1 : Nat) else 0) +
          (if x = idleEVM.Coinbase then (used : Int) * (1 : Nat) else 0) :=
  -- the transfer goes through: its result is evaluated
  have h : ∃ st' ret used failed, ApplyMessage (fun _ => 0) testGasParams idleEVM
      ⟨0, some 1, 1, 30000, 0, 0, false, []⟩ 100000 fundedState =
        some (st', .ok (ret, used, failed)) := ⟨_, _, _, _, rfl⟩
  let ⟨st', ret, used, failed, h⟩ := h
  ⟨st', ret, used, failed, (StateDB.New_consistent _).wellAddressed, h,
    ApplyMessage_settles_fees _ _ _ (StateDB.New_consistent _).wellAddressed h⟩

end Run

/-! ## A block -/

/-- `ReceiptStatusFailed`. -/
def ReceiptStatusFailed : Nat := 0

/-- `ReceiptStatusSuccessful`. -/
def ReceiptStatusSuccessful : Nat := 1

/-- `types.Receipt`, with the fields `ApplyTransaction` fills in from the
transition and the state. -/
structure Receipt where
  Status : Nat
  CumulativeGasUsed : Nat
  TxHash : Hash
  GasUsed : Nat
  Logs : List Log
  TransactionIndex : Nat

/-- The errors of `Process`: recovering a transaction's sender, or applying
its message. -/
inductive ProcessError (ε : Type)
  | AsMessage (err : ε)
  | ApplyMessage (err : TxError)

/-- What `Process` takes from outside the transition, for transactions of
type `τ` whose sender recovery fails with `ε`: `AsMessage` with the block's
signer, the transaction hash, `vm.NewEVM` for a message's context, what
`Finalise` (or `IntermediateRoot`) does to the state after a transaction, and
what the engine's `Finalize` does at the end. -/
structure Processor (τ ε : Type) where
  AsMessage : τ → Except ε Message
  Hash : τ → Hash
  NewEVM : Message → EVM
  Finalise : StateDB → StateDB
  Finalize : StateDB → StateDB

section Block
variable (keccak : List UInt8 → Hash) (P : GasParams) {τ ε : Type} (p : Processor τ ε)

/-- `ApplyTransaction`: the receipt, the gas used by the block so far, the
pool and the state after one transaction. -/
def ApplyTransaction (gp : Nat) (state : StateDB) (tx : τ) (usedGas : Nat) :
    Option (Except (ProcessError ε) (Receipt × Nat × Nat × StateDB)) :=
  match p.AsMessage tx with
  | .error err => some (.error (.AsMessage err))
  | .ok msg =>
    (ApplyMessage keccak P (p.NewEVM msg) msg gp state).map fun r =>
      match r.2 with
      | .error err => .error (.ApplyMessage err)
      | .ok (_, gas, failed) =>
        let state := p.Finalise r.1.state
        let usedGas := usedGas + gas
        .ok (⟨if failed then ReceiptStatusFailed else ReceiptStatusSuccessful, usedGas, p.Hash tx, gas,
          state.GetLogs (p.Hash tx), state.txIndex⟩, usedGas, r.1.gp, state)

/-- The loop of `Process` from the transaction of index `i` on, with the
receipts so far, the pool, the gas used so far and the state. -/
def processTxs (bhash : Hash) :
    Nat → List Receipt → Nat → Nat → StateDB → List τ →
      Option (Except (ProcessError ε) (List Receipt × Nat × StateDB))
  | _, receipts, _, usedGas, state, [] => some (.ok (receipts, usedGas, state))
  | i, receipts, gp, usedGas, state, tx :: txs =>
    match ApplyTransaction keccak P p gp (state.Prepare (p.Hash tx) bhash i) tx usedGas with
    | none => none
    | some (.error err) => some (.error err)
    | some (.ok (receipt, usedGas, gp, state)) =>
      processTxs bhash (i + 1) (receipts ++ [receipt]) gp usedGas state txs

/-- `StateProcessor.Process`: the receipts, the logs, the gas used and the
state after the block's transactions, with a pool of the block's gas limit. -/
def Process (bhash : Hash) (GasLimit : Nat) (state : StateDB) (txs : List τ) :
    Option (Except (ProcessError ε) (List Receipt × List Log × Nat × StateDB)) :=
  (GasPool.AddGas 0 GasLimit).bind fun gp =>
    (processTxs keccak P p bhash 0 [] gp 0 state txs).map fun r =>
      r.map fun (receipts, usedGas, state) =>
        (receipts, receipts.flatMap (·.Logs), usedGas, p.Finalize state)

/-- The gas bookkeeping of the loop of `Process`: the gas used so far and
the pool add up to the block's gas limit, the receipts' gas adds up to the
gas used, and each receipt's cumulative gas is the gas of the receipts up to
it. -/
structure GasAccounted (GasLimit : Nat) (receipts : List Receipt) (gp usedGas : Nat) : Prop where
  pool : usedGas + gp = GasLimit
  total : (receipts.map (·.GasUsed)).sum = usedGas
  cumulative : ∀ k (hk : k < receipts.length),
    receipts[k].CumulativeGasUsed = ((receipts.take (k + 1)).map (·.GasUsed)).sum

theorem GasAccounted.init (GasLimit : Nat) : GasAccounted GasLimit [] GasLimit 0 :=
  ⟨zero_add _, rfl, fun _ hk => absurd hk (Nat.not_lt_zero _)⟩

/-- A receipt whose gas came out of the pool, written with the new gas used
as its cumulative gas, keeps the bookkeeping. -/
theorem GasAccounted.snoc {GasLimit : Nat} {receipts : List Receipt} {gp usedGas : Nat}
    (ha : GasAccounted GasLimit receipts gp usedGas) {receipt : Receipt} {gp' : Nat}
    (hpool : gp' + receipt.GasUsed = gp) (hcum : receipt.CumulativeGasUsed = usedGas + receipt.GasUsed) :
    GasAccounted GasLimit (receipts ++ [receipt]) gp' (usedGas + receipt.GasUsed) := by
  refine ⟨by have := ha.pool; omega, by simp [ha.total], fun k hk => ?_⟩
  rw [List.length_append, List.length_singleton] at hk
  rcases Nat.lt_succ_iff_lt_or_eq.1 hk with hk | rfl
  · -- an earlier receipt keeps its prefix
    rw [List.getElem_append_left hk, List.take_append_of_le_length hk, ha.cumulative k hk]
  · rw [List.getElem_append_right (le_refl _), List.take_of_length_le (by simp)]
    simp [hcum, ha.total]

/-- One transaction applied: its receipt's gas came out of the pool and is
added to the gas used, which its receipt records. -/
theorem ApplyTransaction_ok {gp usedGas gp' usedGas' : Nat} {state state' : StateDB} {tx : τ}
    {receipt : Receipt}
    (h : ApplyTransaction keccak P p gp state tx usedGas = some (.ok (receipt, usedGas', gp', state'))) :
    gp' + receipt.GasUsed = gp ∧ usedGas' = usedGas + receipt.GasUsed ∧
      receipt.CumulativeGasUsed = usedGas' := by
  unfold ApplyTransaction at h
  cases hmsg : p.AsMessage tx with
  | error e => simp [hmsg] at h
  | ok msg =>
    simp only [hmsg] at h
    obtain ⟨⟨st', r⟩, happ, hr⟩ := Option.map_eq_some_iff.1 h
    cases r with
    | error e => simp at hr
    | ok v =>
      obtain ⟨ret, used, failed⟩ := v
      simp only [Except.ok.injEq, Prod.mk.injEq] at hr
      obtain ⟨rfl, rfl, rfl, -⟩ := hr
      obtain ⟨-, -, -, -, -, -, -, -, hgp, -⟩ := ApplyMessage_ok keccak P _ happ
      exact ⟨hgp, rfl, rfl⟩

/-- The loop keeps the bookkeeping, and writes one receipt per
transaction. -/
theorem processTxs_accounted {GasLimit : Nat} (bhash : Hash) :
    ∀ (txs : List τ) (i : Nat) (receipts : List Receipt) (gp usedGas : Nat) (state : StateDB)
      {receipts' : List Receipt} {usedGas' : Nat} {state' : StateDB},
      GasAccounted GasLimit receipts gp usedGas →
      processTxs keccak P p bhash i receipts gp usedGas state txs =
        some (.ok (receipts', usedGas', state')) →
      (∃ gp', GasAccounted GasLimit receipts' gp' usedGas') ∧
        receipts'.length = receipts.length + txs.length
  | [], i, receipts, gp, usedGas, state, _, _, _, ha, h => by
    simp only [processTxs, Option.some.injEq, Except.ok.injEq, Prod.mk.injEq] at h
    obtain ⟨rfl, rfl, -⟩ := h
    exact ⟨⟨gp, ha⟩, rfl⟩
  | tx :: txs, i, receipts, gp, usedGas, state, _, _, _, ha, h => by
    unfold processTxs at h
    split at h
    · cases h
    · cases h
    · rename_i receipt usedGas₁ gp₁ state₁ happ
      obtain ⟨hpool, rfl, hcum⟩ := ApplyTransaction_ok keccak P p happ
      obtain ⟨hacc, hlen⟩ := processTxs_accounted bhash txs (i + 1) _ gp₁ _ state₁
        (ha.snoc hpool hcum) h
      refine ⟨hacc, ?_⟩
      rw [hlen, List.length_append, List.length_singleton, List.length_cons]
      omega

/-- A block whose transactions all apply uses at most its gas limit: the
pool starts at the limit, each transaction takes its gas from it, and the
receipts, one per transaction, record the running total of the gas used,
which ends at the gas `Process` returns. -/
theorem Process_accounts_gas {bhash : Hash} {GasLimit : Nat} {state : StateDB} {txs : List τ}
    {receipts : List Receipt} {logs : List Log} {used : Nat} {state' : StateDB}
    (h : Process keccak P p bhash GasLimit state txs = some (.ok (receipts, logs, used, state'))) :
    used ≤ GasLimit ∧ receipts.length = txs.length ∧ (receipts.map (·.GasUsed)).sum = used ∧
      ∀ k (hk : k < receipts.length),
        receipts[k].CumulativeGasUsed = ((receipts.take (k + 1)).map (·.GasUsed)).sum := by
  unfold Process at h
  obtain ⟨gp, hgp, h⟩ := Option.bind_eq_some_iff.1 h
  unfold GasPool.AddGas at hgp
  split_ifs at hgp
  cases hgp
  rw [Nat.zero_add] at h
  obtain ⟨r, hr, hmap⟩ := Option.map_eq_some_iff.1 h
  cases r with
  | error e => cases hmap
  | ok v =>
    obtain ⟨receipts₁, used₁, state₁⟩ := v
    simp only [Except.map, Except.ok.injEq, Prod.mk.injEq] at hmap
    obtain ⟨rfl, -, rfl, -⟩ := hmap
    obtain ⟨⟨gp', ha⟩, hlen⟩ :=
      processTxs_accounted keccak P p bhash txs 0 [] _ 0 state (GasAccounted.init GasLimit) hr
    refine ⟨by have := ha.pool; omega, by simpa using hlen, ha.total, ha.cumulative⟩

/-- Two transfers in a block of gas limit 100000 both apply, and their
receipts account for the gas. -/
theorem Process_accounts_gas_transfers :
    ∃ (receipts : List Receipt) (logs : List Log) (used : Nat) (state' : StateDB),
      Process (fun _ => 0) testGasParams (⟨Except.ok, fun _ => 0, fun _ => idleEVM, id, id⟩ :
          Processor Message Unit) 0 100000 (New fun _ => none)
          [⟨0, some 1, 0, 30000, 0, 0, false, []⟩, ⟨0, some 2, 0, 30000, 0, 0, false, []⟩] =
        some (.ok (receipts, logs, used, state')) ∧
      used ≤ 100000 ∧ receipts.length = 2 ∧ (receipts.map (·.GasUsed)).sum = used ∧
      ∀ k (hk : k < receipts.length),
        receipts[k].CumulativeGasUsed = ((receipts.take (k + 1)).map (·.GasUsed)).sum :=
  -- both transfers go through: the block is evaluated
  have h : ∃ receipts logs used state', Process (fun _ => 0) testGasParams
      (⟨Except.ok, fun _ => 0, fun _ => idleEVM, id, id⟩ : Processor Message Unit) 0 100000
      (New fun _ => none)
      [⟨0, some 1, 0, 30000, 0, 0, false, []⟩, ⟨0, some 2, 0, 30000, 0, 0, false, []⟩] =
        some (.ok (receipts, logs, used, state')) := ⟨_, _, _, _, rfl⟩
  let ⟨receipts, logs, used, state', h⟩ := h
  ⟨receipts, logs, used, state', h, Process_accounts_gas _ _ _ h⟩

end Block

end Btp.Core
