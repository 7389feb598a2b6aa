import Mathlib
import Btp.Core.StateProcessor
import Btp.Vm.Instructions

/-!
# Call frames

`EVM.Call`, `CallCode`, `DelegateCall`, `StaticCall` and `create` of
`core/vm/evm.go`, over the state of `core/state`. A frame checks the call
depth and, where value moves, the caller's balance (`core.CanTransfer`), takes
a snapshot, sets the accounts up, moves the value (`core.Transfer`) and runs
the contract; on an error it reverts to the snapshot and, unless the code
reverted, uses up the gas left. `create` first takes the caller's nonce and
checks the new address for a collision, and after the run pays for storing
the code.

The run itself (`run`: a precompiled contract or the interpreter) is a
parameter, `Runner`, with two laws asked of it: it hands back at most the gas
the contract was given, and it changes the state only through the operations
of the `StateDB` interface. The interpreter's loop is not modelled, so what
follows holds of every run that keeps these laws. A third law,
`Runner.KeepsRevisions` (the run reverts only to snapshots it took), makes the
frames return: from a consistent state the revert at a frame's end finds its
snapshot. The nested calls a run makes are these frames again, and each frame
keeps the three laws itself, so the laws are closed under nesting. The tracer,
the choice of interpreter and `Cancel` are not modelled; the constants of
`params` are parameters (`EvmParams`).

What every call can do is said once, by `Framed`, and what every creation
can do by `Created`; the properties are proved of those. A frame hands back
at most its gas, and none of it after an error of the run other than a
revert; a failed call leaves every accessor of the state as it was, and a
failed creation as it was once the caller's nonce was taken. Made of the
frames, `EVM.toCore` is the EVM that `ApplyMessage` is given
(`Btp.Core.EVM`).
-/

namespace Btp.State.StateDB

/-! ## Runs of the `StateDB` interface -/

section Reaches
variable (keccak : List UInt8 → Hash)

/-- Operations of the `StateDB` interface, one after another, take `s` to
`s'`. -/
def Reaches : StateDB → StateDB → Prop :=
  Relation.ReflTransGen fun s s' => ∃ op, s.step keccak op = some s'

variable {keccak} {s s' s'' : StateDB}

theorem Reaches.refl (s : StateDB) : Reaches keccak s s := Relation.ReflTransGen.refl

theorem Reaches.op {op : StateOp} (h : s.step keccak op = some s') : Reaches keccak s s' :=
  Relation.ReflTransGen.single ⟨op, h⟩

theorem Reaches.trans (h₁ : Reaches keccak s s') (h₂ : Reaches keccak s' s'') :
    Reaches keccak s s'' :=
  Relation.ReflTransGen.trans h₁ h₂

theorem Reaches.createAccount (s : StateDB) (addr : Address) :
    Reaches keccak s (s.CreateAccount keccak addr) :=
  .op (show s.step keccak (.CreateAccount addr) = _ from rfl)

theorem Reaches.setNonce (s : StateDB) (addr : Address) (nonce : Nat) :
    Reaches keccak s (s.SetNonce keccak addr nonce) :=
  .op (show s.step keccak (.SetNonce addr nonce) = _ from rfl)

theorem Reaches.snapshot (s : StateDB) : Reaches keccak s s.Snapshot.2 :=
  .op (show s.step keccak .Snapshot = _ from rfl)

/-- What every operation keeps holds along `Reaches`. -/
theorem Reaches.inv (P : StateDB → Prop)
    (hstep : ∀ s s' op, P s → s.step keccak op = some s' → P s') (h : Reaches keccak s s')
    (hs : P s) : P s' := by
  induction h with
  | refl => exact hs
  | tail _ hst ih =>
    obtain ⟨op, hop⟩ := hst
    exact hstep _ _ op ih hop

theorem step_wellAddressed {op : StateOp} (hwa : s.WellAddressed)
    (h : s.step keccak op = some s') : s'.WellAddressed := by
  by_cases hop : op.journaled = true
  · exact (step_extends keccak hwa hop h).wellAddressed
  cases op
  case Snapshot =>
    obtain rfl := Option.some.inj h
    exact hwa
  case RevertToSnapshot revid => exact (RevertToSnapshot_preserves hwa h).1
  all_goals exact absurd rfl hop

theorem Reaches.wellAddressed (h : Reaches keccak s s') (hwa : s.WellAddressed) :
    s'.WellAddressed :=
  h.inv _ (fun _ _ _ hwa h => step_wellAddressed hwa h) hwa

theorem Reaches.consistent (h : Reaches keccak s s') (hc : s.Consistent) : s'.Consistent :=
  h.inv _ (fun _ _ _ hc h => step_consistent keccak hc h) hc

/-- `SetNonce` sets the nonce that `GetNonce` then reads. -/
theorem GetNonce_SetNonce_self (hwa : s.WellAddressed) (a : Address) (nonce : Nat) :
    (s.SetNonce keccak a nonce).GetNonce a = nonce := by
  have haddr := (GetOrNewStateObject_balance keccak hwa a).1
  unfold SetNonce StateObject.SetNonce GetNonce
  rw [getStateObject_setStateObject, if_pos (show a = ((s.GetOrNewStateObject keccak a).1.setNonce nonce).address
    from haddr.symm)]
  rfl

/-- From the snapshot taken at a consistent state, the operations keep the
state tracking the snapshot, unless they dropped its revision. -/
theorem Reaches.afterSnapshot (hc : s.Consistent) (h : Reaches keccak s.Snapshot.2 s') :
    AfterSnapshot s s' :=
  h.inv _ (fun _ _ _ hs h => AfterSnapshot.step keccak hc.idsBelow hs h)
    ⟨hc.wellAddressed, Nat.lt_succ_self _, .inr (Tracks.snapshot_self s)⟩

/-- A revert to a snapshot, from any state the operations reach from it,
brings back the state the snapshot was taken of. -/
theorem Reaches.revert_equiv (hc : s.Consistent) (h : Reaches keccak s.Snapshot.2 s')
    (hr : s'.RevertToSnapshot s.Snapshot.1 = some s'') : s''.Equiv s := by
  obtain ⟨-, -, hdropped | htr⟩ := h.afterSnapshot hc
  · -- a revert to a dropped revision panics
    obtain ⟨idx, rev, -, hrev, hid, -⟩ := RevertToSnapshot_eq_some hr
    exact absurd (List.mem_map.2 ⟨rev, List.mem_of_getElem? hrev, hid⟩) hdropped
  · obtain ⟨s₃, hr₃, hequiv, -⟩ := htr.revert_self hc.idsBelow
    obtain rfl : s'' = s₃ := Option.some.inj (hr.symm.trans hr₃)
    exact hequiv

/-- A revert to a snapshot whose revision the operations since have kept does
not panic: it brings back the state and the revisions the snapshot was taken
of. -/
theorem Reaches.revert_kept (hc : s.Consistent) (h : Reaches keccak s.Snapshot.2 s')
    (hkeep : s.Snapshot.2.validRevisions <+: s'.validRevisions) :
    ∃ s'', s'.RevertToSnapshot s.Snapshot.1 = some s'' ∧ s''.Equiv s ∧
      s''.validRevisions = s.validRevisions := by
  obtain ⟨-, -, hdropped | htr⟩ := h.afterSnapshot hc
  · -- the snapshot's own revision is among those kept
    have hmem : (⟨s.nextRevisionId, s.journal.length⟩ : Revision) ∈ s.Snapshot.2.validRevisions := by
      simp [Snapshot]
    exact absurd (List.mem_map.2 ⟨_, hkeep.subset hmem, rfl⟩) hdropped
  · obtain ⟨s₃, hr₃, hequiv, hrevs, -⟩ := htr.revert_self hc.idsBelow
    exact ⟨s₃, hr₃, hequiv, hrevs⟩

end Reaches

end Btp.State.StateDB

namespace Btp.Vm

/-! ## The frames -/

/-- The constants of the `params` package that the frames read; the package
is not part of this source tree. -/
structure EvmParams where
  CallCreateDepth : Nat
  MaxCodeSize : Nat
  CreateDataGas : Nat

/-- Whether `addr` is a key of `PrecompiledContractsByzantium`, or of
`PrecompiledContractsHomestead` before Byzantium: the addresses 1 to 8, or 1
to 4. -/
def PrecompiledContracts (IsByzantium : Bool) (addr : Address) : Bool :=
  decide (1 ≤ addr.toNat ∧ addr.toNat ≤ if IsByzantium then 8 else 4)

/-- The contract a frame runs, as `NewContract` and `SetCallCode` (or
`SetCodeOptionalHash`, or `AsDelegate`) set it up: its caller, the address it
runs as, its value and gas, and the code with its hash and the address it was
read from. -/
structure RunContract where
  CallerAddress : Btp.Address
  Address : Btp.Address
  value : Nat
  Gas : Nat
  CodeAddr : Btp.Address
  Code : List UInt8
  CodeHash : Hash

/-- `run`: a precompiled contract or the interpreter runs the contract on the
input, read-only or not, and hands back its output, its error, the gas left in
the contract and the state. The interpreter is not modelled here; `run` keeps
its two laws. -/
structure Runner (keccak : List UInt8 → Hash) where
  run : State.StateDB → RunContract → List UInt8 → Bool →
    List UInt8 × Option VmError × Nat × State.StateDB
  /-- The contract's gas only goes down. -/
  gas_le : ∀ s c input readOnly, (run s c input readOnly).2.2.1 ≤ c.Gas
  /-- The state changes only through the `StateDB` interface. -/
  reaches : ∀ s c input readOnly, State.StateDB.Reaches keccak s (run s c input readOnly).2.2.2

/-- The fields of `EVM` the frames read: the call depth,
`vmConfig.NoRecursion`, and the forks in force at the block. -/
structure EVM where
  depth : Nat
  NoRecursion : Bool
  IsHomestead : Bool
  IsEIP158 : Bool
  IsByzantium : Bool

/-- `core.CanTransfer`. -/
def CanTransfer (db : State.StateDB) (addr : Address) (amount : Nat) : Bool :=
  decide ((amount : Int) ≤ db.GetBalance addr)

/-- The end of the four calls: on an error, revert to the snapshot and,
unless the code reverted, use up the gas left. -/
def callEnd (snapshot : Nat) :
    List UInt8 × Option VmError × Nat × State.StateDB →
      Option (List UInt8 × Nat × Option VmError × State.StateDB)
  | (ret, none, gas, s) => some (ret, gas, none, s)
  | (ret, some err, gas, s) => (s.RevertToSnapshot snapshot).map fun s =>
    (ret, if err = .errExecutionReverted then gas else 0, some err, s)

section Frames
variable (keccak : List UInt8 → Hash)

/-- `core.Transfer`. -/
def Transfer (db : State.StateDB) (sender recipient : Address) (amount : Nat) : State.StateDB :=
  (db.SubBalance keccak sender amount).AddBalance keccak recipient amount

/-- `vm.AccountRef`: an account as the caller of a frame, with an address
and nothing else. -/
def AccountRef (a : Address) : Env := ⟨a, 0, [], 0⟩

variable (P : EvmParams) (R : Runner keccak)

/-- `EVM.Call`. -/
def EVM.Call (evm : EVM) (s : State.StateDB) (caller : Env) (addr : Address)
    (input : List UInt8) (gas value : Nat) :
    Option (List UInt8 × Nat × Option VmError × State.StateDB) :=
  if evm.NoRecursion && decide (0 < evm.depth) then some ([], gas, none, s)
  else if P.CallCreateDepth < evm.depth then some ([], gas, some .ErrDepth, s)
  else if !CanTransfer s caller.Address value then some ([], gas, some .ErrInsufficientBalance, s)
  else
    let snapshot := s.Snapshot.1
    let s := s.Snapshot.2
    if !s.Exist addr && !PrecompiledContracts evm.IsByzantium addr && evm.IsEIP158 &&
        decide (value = 0) then
      -- calling a missing account does nothing
      some ([], gas, none, s)
    else
      let s := if s.Exist addr then s else s.CreateAccount keccak addr
      let s := Transfer keccak s caller.Address addr value
      callEnd snapshot (R.run s ⟨caller.Address, addr, value, gas, addr, s.GetCode addr,
        s.GetCodeHash addr⟩ input false)

/-- `EVM.CallCode`: the code of `addr` runs as the caller, and no value
moves. -/
def EVM.CallCode (evm : EVM) (s : State.StateDB) (caller : Env) (addr : Address)
    (input : List UInt8) (gas value : Nat) :
    Option (List UInt8 × Nat × Option VmError × State.StateDB) :=
  if evm.NoRecursion && decide (0 < evm.depth) then some ([], gas, none, s)
  else if P.CallCreateDepth < evm.depth then some ([], gas, some .ErrDepth, s)
  else if !CanTransfer s caller.Address value then some ([], gas, some .ErrInsufficientBalance, s)
  else
    let snapshot := s.Snapshot.1
    let s := s.Snapshot.2
    callEnd snapshot (R.run s ⟨caller.Address, caller.Address, value, gas, addr, s.GetCode addr,
      s.GetCodeHash addr⟩ input false)

/-- `EVM.DelegateCall`: the code of `addr` runs as the caller, with the
caller's own caller and value (`AsDelegate`). -/
def EVM.DelegateCall (evm : EVM) (s : State.StateDB) (caller : Env) (addr : Address)
    (input : List UInt8) (gas : Nat) :
    Option (List UInt8 × Nat × Option VmError × State.StateDB) :=
  if evm.NoRecursion && decide (0 < evm.depth) then some ([], gas, none, s)
  else if P.CallCreateDepth < evm.depth then some ([], gas, some .ErrDepth, s)
  else
    let snapshot := s.Snapshot.1
    let s := s.Snapshot.2
    callEnd snapshot (R.run s ⟨caller.CallerAddress, caller.Address, caller.value, gas, addr,
      s.GetCode addr, s.GetCodeHash addr⟩ input false)

/-- `EVM.StaticCall`: no value, a read-only run, and a zero `AddBalance` that
touches the account. -/
def EVM.StaticCall (evm : EVM) (s : State.StateDB) (caller : Env) (addr : Address)
    (input : List UInt8) (gas : Nat) :
    Option (List UInt8 × Nat × Option VmError × State.StateDB) :=
  if evm.NoRecursion && decide (0 < evm.depth) then some ([], gas, none, s)
  else if P.CallCreateDepth < evm.depth then some ([], gas, some .ErrDepth, s)
  else
    let snapshot := s.Snapshot.1
    let s := s.Snapshot.2
    let contract : RunContract := ⟨caller.Address, addr, 0, gas, addr, s.GetCode addr,
      s.GetCodeHash addr⟩
    callEnd snapshot (R.run (s.AddBalance keccak addr 0) contract input true)

/-- The code store of `create`, made when the run ended without an error and
the code is within the size limit: `CreateDataGas` per byte pays for setting
the code, or the creation fails with `ErrCodeStoreOutOfGas`. -/
def storeCode (address : Address) (ret : List UInt8) (store : Bool) (err : Option VmError)
    (gas : Nat) (s : State.StateDB) : Option VmError × Nat × State.StateDB :=
  if store then
    let createDataGas := ret.length * P.CreateDataGas % 2 ^ 64
    if createDataGas ≤ gas then (none, gas - createDataGas, s.SetCode keccak address ret)
    else (some .ErrCodeStoreOutOfGas, gas, s)
  else (err, gas, s)

/-- The part of `create` after the run: the code is stored if its gas is
there, and an error reverts to the snapshot, except that before Homestead a
code store out of gas keeps the state. Code over `MaxCodeSize` (from EIP-158
on) reverts too. -/
def createEnd (evm : EVM) (snapshot : Nat) (address : Address) :
    List UInt8 × Option VmError × Nat × State.StateDB →
      Option (List UInt8 × Address × Nat × Option VmError × State.StateDB)
  | (ret, err, gas, s) =>
    let maxCodeSizeExceeded := evm.IsEIP158 && decide (P.MaxCodeSize < ret.length)
    let (err, gas, s) :=
      storeCode keccak P address ret (err.isNone && !maxCodeSizeExceeded) err gas s
    let err' := if maxCodeSizeExceeded && err.isNone then some .errMaxCodeSizeExceeded else err
    if maxCodeSizeExceeded ||
        (err.isSome && (evm.IsHomestead || decide (err ≠ some .ErrCodeStoreOutOfGas))) then
      (s.RevertToSnapshot snapshot).map fun s =>
        (ret, address, if err = some .errExecutionReverted then gas else 0, err', s)
    else some (ret, address, gas, err', s)

/-- `EVM.create`. -/
def EVM.create (evm : EVM) (s : State.StateDB) (caller : Env) (code : List UInt8)
    (codeHash : Hash) (gas value : Nat) (address : Address) :
    Option (List UInt8 × Address × Nat × Option VmError × State.StateDB) :=
  if P.CallCreateDepth < evm.depth then some ([], 0, gas, some .ErrDepth, s)
  else if !CanTransfer s caller.Address value then
    some ([], 0, gas, some .ErrInsufficientBalance, s)
  else
    let nonce := s.GetNonce caller.Address
    let s := s.SetNonce keccak caller.Address ((nonce + 1) % 2 ^ 64)
    let contractHash := s.GetCodeHash address
    -- an account with a nonce or with code is there already: all the gas goes
    if s.GetNonce address ≠ 0 ∨ (contractHash ≠ 0 ∧ contractHash ≠ State.emptyCodeHash keccak) then
      some ([], 0, 0, some .ErrContractAddressCollision, s)
    else
      let snapshot := s.Snapshot.1
      let s := s.Snapshot.2
      let s := s.CreateAccount keccak address
      let s := if evm.IsEIP158 then s.SetNonce keccak address 1 else s
      let s := Transfer keccak s caller.Address address value
      if evm.NoRecursion && decide (0 < evm.depth) then some ([], address, gas, none, s)
      else
        createEnd keccak P evm snapshot address
          (R.run s ⟨caller.Address, address, value, gas, address, code, codeHash⟩ [] false)

variable (CreateAddress : Address → Nat → Address) (CreateAddress2 : Address → Hash → Hash → Address)

/-- `EVM.Create`: the address comes from the caller and its nonce, and the
code's hash is left unset. -/
def EVM.Create (evm : EVM) (s : State.StateDB) (caller : Env) (code : List UInt8)
    (gas value : Nat) : Option (List UInt8 × Address × Nat × Option VmError × State.StateDB) :=
  evm.create keccak P R s caller code 0 gas value (CreateAddress caller.Address (s.GetNonce caller.Address))

/-- `EVM.Create2`: the address comes from the caller, the salt and the hash
of the code. -/
def EVM.Create2 (evm : EVM) (s : State.StateDB) (caller : Env) (code : List UInt8)
    (gas endowment salt : Nat) :
    Option (List UInt8 × Address × Nat × Option VmError × State.StateDB) :=
  evm.create keccak P R s caller code (keccak code) gas endowment
    (CreateAddress2 caller.Address (BigToHash salt) (keccak code))

end Frames

/-! ## What a call can do -/

section Calls
variable {keccak : List UInt8 → Hash}

open State.StateDB (Reaches)

/-- `callEnd` passes the output and the error through; without an error the
gas and the state too, and with one the state is the revert to the snapshot
and the gas is kept only by a revert. -/
theorem callEnd_eq_some {snapshot : Nat} {x : List UInt8 × Option VmError × Nat × State.StateDB}
    {r : List UInt8 × Nat × Option VmError × State.StateDB} (h : callEnd snapshot x = some r) :
    r.1 = x.1 ∧ r.2.2.1 = x.2.1 ∧
      ((x.2.1 = none ∧ r.2.1 = x.2.2.1 ∧ r.2.2.2 = x.2.2.2) ∨
        ∃ e, x.2.1 = some e ∧ x.2.2.2.RevertToSnapshot snapshot = some r.2.2.2 ∧
          r.2.1 = if e = .errExecutionReverted then x.2.2.1 else 0) := by
  obtain ⟨ret, err, gas, s⟩ := x
  cases err with
  | none =>
    cases h
    exact ⟨rfl, rfl, .inl ⟨rfl, rfl, rfl⟩⟩
  | some e =>
    obtain ⟨s', hs', rfl⟩ := Option.map_eq_some_iff.1 h
    exact ⟨rfl, rfl, .inr ⟨e, rfl, hs', rfl⟩⟩

theorem callEnd_gas_le {snapshot : Nat} {x : List UInt8 × Option VmError × Nat × State.StateDB}
    {r : List UInt8 × Nat × Option VmError × State.StateDB} (h : callEnd snapshot x = some r) :
    r.2.1 ≤ x.2.2.1 := by
  obtain ⟨-, -, ⟨-, hgas, -⟩ | ⟨e, -, -, hgas⟩⟩ := callEnd_eq_some h
  · exact hgas.le
  · rw [hgas]
    split_ifs
    · exact le_rfl
    · exact Nat.zero_le _

theorem Transfer_reaches (db : State.StateDB) (sender recipient : Address) (amount : Nat) :
    Reaches keccak db (Transfer keccak db sender recipient amount) :=
  (State.StateDB.Reaches.op
    (show db.step keccak (.SubBalance sender amount) = some _ from rfl)).trans
    (State.StateDB.Reaches.op (show (db.SubBalance keccak sender amount).step keccak
      (.AddBalance recipient amount) = some _ from rfl))

theorem Transfer_extends {db : State.StateDB} (hwa : db.WellAddressed)
    (sender recipient : Address) (amount : Nat) :
    State.StateDB.Extends db (Transfer keccak db sender recipient amount) :=
  have hsub := State.StateDB.step_extends keccak hwa rfl
    (show db.step keccak (.SubBalance sender amount) = some _ from rfl)
  hsub.trans (State.StateDB.step_extends keccak hsub.wellAddressed rfl
    (show (db.SubBalance keccak sender amount).step keccak (.AddBalance recipient amount) = some _
      from rfl))

variable (keccak)

/-- What a call can do, said once for the four: stop before its snapshot
with all of its gas and the state as it was, with no error (no recursion),
`ErrDepth` or `ErrInsufficientBalance`; stop after the snapshot with all of
its gas (a missing account); or run with at most its gas on a state that
operations reach from the snapshot, and end the run with `callEnd`. -/
inductive Framed (s : State.StateDB) (gas : Nat) :
    List UInt8 × Nat × Option VmError × State.StateDB → Prop
  | early {err : Option VmError}
      (herr : err = none ∨ err = some .ErrDepth ∨ err = some .ErrInsufficientBalance) :
      Framed s gas ([], gas, err, s)
  | missing : Framed s gas ([], gas, none, s.Snapshot.2)
  | ran {x : List UInt8 × Option VmError × Nat × State.StateDB} {r}
      (hu : Reaches keccak s.Snapshot.2 x.2.2.2) (hgas : x.2.2.1 ≤ gas)
      (h : callEnd s.Snapshot.1 x = some r) : Framed s gas r

variable {keccak} (P : EvmParams) (R : Runner keccak)
variable {s : State.StateDB} {gas : Nat} {r : List UInt8 × Nat × Option VmError × State.StateDB}

theorem Call_framed {evm : EVM} {caller : Env} {addr : Address} {input : List UInt8} {value : Nat}
    (h : evm.Call keccak P R s caller addr input gas value = some r) : Framed keccak s gas r := by
  unfold EVM.Call at h
  dsimp only at h
  split_ifs at h with hrec hdepth hbal hmissing hexist
  · cases h
    exact .early (.inl rfl)
  · cases h
    exact .early (.inr (.inl rfl))
  · cases h
    exact .early (.inr (.inr rfl))
  · cases h
    exact .missing
  · -- an existing account receives the value, and its code runs
    exact .ran ((Transfer_reaches _ _ _ _).trans (R.reaches _ _ _ _)) (R.gas_le _ _ _ _) h
  · -- a missing one is created first
    exact .ran ((State.StateDB.Reaches.op
      (show s.Snapshot.2.step keccak (.CreateAccount addr) = _ from rfl)).trans
      ((Transfer_reaches _ _ _ _).trans (R.reaches _ _ _ _))) (R.gas_le _ _ _ _) h

theorem CallCode_framed {evm : EVM} {caller : Env} {addr : Address} {input : List UInt8}
    {value : Nat} (h : evm.CallCode keccak P R s caller addr input gas value = some r) :
    Framed keccak s gas r := by
  unfold EVM.CallCode at h
  dsimp only at h
  split_ifs at h with hrec hdepth hbal
  · cases h
    exact .early (.inl rfl)
  · cases h
    exact .early (.inr (.inl rfl))
  · cases h
    exact .early (.inr (.inr rfl))
  · exact .ran (R.reaches _ _ _ _) (R.gas_le _ _ _ _) h

theorem DelegateCall_framed {evm : EVM} {caller : Env} {addr : Address} {input : List UInt8}
    (h : evm.DelegateCall keccak P R s caller addr input gas = some r) : Framed keccak s gas r := by
  unfold EVM.DelegateCall at h
  dsimp only at h
  split_ifs at h with hrec hdepth
  · cases h
    exact .early (.inl rfl)
  · cases h
    exact .early (.inr (.inl rfl))
  · exact .ran (R.reaches _ _ _ _) (R.gas_le _ _ _ _) h

theorem StaticCall_framed {evm : EVM} {caller : Env} {addr : Address} {input : List UInt8}
    (h : evm.StaticCall keccak P R s caller addr input gas = some r) : Framed keccak s gas r := by
  unfold EVM.StaticCall at h
  dsimp only at h
  split_ifs at h with hrec hdepth
  · cases h
    exact .early (.inl rfl)
  · cases h
    exact .early (.inr (.inl rfl))
  · -- the zero `AddBalance` is an operation of the interface too
    exact .ran ((State.StateDB.Reaches.op (show s.Snapshot.2.step keccak (.AddBalance addr 0) = _
      from rfl)).trans (R.reaches _ _ _ _)) (R.gas_le _ _ _ _) h

namespace Framed

theorem gas_le (h : Framed keccak s gas r) : r.2.1 ≤ gas := by
  cases h with
  | early => exact le_rfl
  | missing => exact le_rfl
  | ran _ hgas h => exact (callEnd_gas_le h).trans hgas

/-- After an error of the run other than a revert, no gas is left. -/
theorem error_gas {e : VmError} (h : Framed keccak s gas r) (he : r.2.2.1 = some e)
    (hrev : e ≠ .errExecutionReverted) (hdepth : e ≠ .ErrDepth)
    (hbal : e ≠ .ErrInsufficientBalance) : r.2.1 = 0 := by
  cases h with
  | early herr =>
    subst he
    rcases herr with h | h | h <;> cases h
    · exact absurd rfl hdepth
    · exact absurd rfl hbal
  | missing => cases he
  | ran _ _ h =>
    obtain ⟨-, herr, ⟨hnone, -⟩ | ⟨e', he', -, hgas⟩⟩ := callEnd_eq_some h
    · rw [herr, hnone] at he
      cases he
    · rw [herr, he'] at he
      cases he
      rw [hgas, if_neg hrev]

/-- The state a call leaves is reached by operations of the interface. -/
theorem reaches (h : Framed keccak s gas r) : Reaches keccak s r.2.2.2 := by
  have hsnap : Reaches keccak s s.Snapshot.2 := .op (show s.step keccak .Snapshot = _ from rfl)
  cases h with
  | early => exact .refl _
  | missing => exact hsnap
  | ran hu _ h =>
    refine hsnap.trans (hu.trans ?_)
    obtain ⟨-, -, ⟨-, -, hs⟩ | ⟨e, -, hrev, -⟩⟩ := callEnd_eq_some h
    · rw [hs]
      exact .refl _
    · exact .op (show _ = some r.2.2.2 from hrev :
        State.StateDB.step keccak _ (.RevertToSnapshot s.Snapshot.1) = _)

/-- A call that ends in an error leaves a state equivalent to the one it
started from. -/
theorem restores {e : VmError} (h : Framed keccak s gas r) (hc : s.Consistent)
    (he : r.2.2.1 = some e) : r.2.2.2.Equiv s := by
  cases h with
  | early => exact State.StateDB.Equiv.refl s
  | missing => cases he
  | ran hu _ h =>
    obtain ⟨-, herr, ⟨hnone, -⟩ | ⟨e', -, hrev, -⟩⟩ := callEnd_eq_some h
    · rw [herr, hnone] at he
      cases he
    · exact hu.revert_equiv hc hrev

end Framed

end Calls

/-! ## What a creation can do -/

section Creations
variable {keccak : List UInt8 → Hash} (P : EvmParams) (evm : EVM)

open State.StateDB (Reaches)

/-- The three ways the code store ends: the code set and paid for, its gas
missing, or no store at all. -/
theorem storeCode_cases (address : Address) (ret : List UInt8) (store : Bool)
    (err : Option VmError) (gas : Nat) (s : State.StateDB) :
    (store = true ∧ ret.length * P.CreateDataGas % 2 ^ 64 ≤ gas ∧
        storeCode keccak P address ret store err gas s =
          (none, gas - ret.length * P.CreateDataGas % 2 ^ 64, s.SetCode keccak address ret)) ∨
      (store = true ∧ storeCode keccak P address ret store err gas s =
        (some .ErrCodeStoreOutOfGas, gas, s)) ∨
      (store = false ∧ storeCode keccak P address ret store err gas s = (err, gas, s)) := by
  unfold storeCode
  cases store with
  | false => exact .inr (.inr ⟨rfl, rfl⟩)
  | true =>
    rw [if_pos rfl]
    dsimp only
    split_ifs with hgas
    · exact .inl ⟨rfl, hgas, rfl⟩
    · exact .inr (.inl ⟨rfl, rfl⟩)

/-- `createEnd` passes the output and the address through and hands back at
most the gas the run left. It stores the code, or (before Homestead) keeps the
state after a code store out of gas, or reverts to the snapshot, after which
no gas is left unless the code reverted. -/
theorem createEnd_eq_some {snapshot : Nat} {address : Address}
    {x : List UInt8 × Option VmError × Nat × State.StateDB}
    {r : List UInt8 × Address × Nat × Option VmError × State.StateDB}
    (h : createEnd keccak P evm snapshot address x = some r) :
    r.1 = x.1 ∧ r.2.1 = address ∧ r.2.2.1 ≤ x.2.2.1 ∧
      ((r.2.2.2.1 = none ∧ r.2.2.2.2 = x.2.2.2.SetCode keccak address x.1) ∨
        (r.2.2.2.1 = some .ErrCodeStoreOutOfGas ∧ evm.IsHomestead = false ∧
          r.2.2.2.2 = x.2.2.2) ∨
        ∃ e, r.2.2.2.1 = some e ∧ x.2.2.2.RevertToSnapshot snapshot = some r.2.2.2.2 ∧
          (e ≠ .errExecutionReverted → r.2.2.1 = 0)) := by
  obtain ⟨ret, err, gas, s⟩ := x
  unfold createEnd at h
  dsimp only at h
  generalize hm : (evm.IsEIP158 && decide (P.MaxCodeSize < ret.length)) = m at h
  rcases @storeCode_cases keccak P address ret (err.isNone && !m) err gas s with
    ⟨hstore, hgas, hst⟩ | ⟨hstore, hst⟩ | ⟨hstore, hst⟩ <;> rw [hst] at h <;> dsimp only at h
  · -- the code is stored: no error, and nothing to revert
    obtain ⟨rfl, rfl⟩ : err = none ∧ m = false := by simpa using hstore
    simp at h
    subst h
    exact ⟨rfl, rfl, Nat.sub_le _ _, .inl ⟨rfl, rfl⟩⟩
  · -- the code store ran out of gas: from Homestead on, that reverts
    obtain ⟨-, rfl⟩ : err = none ∧ m = false := by simpa using hstore
    cases hH : evm.IsHomestead
    · simp [hH] at h
      subst h
      exact ⟨rfl, rfl, le_rfl, .inr (.inl ⟨rfl, rfl, rfl⟩)⟩
    · simp [hH] at h
      obtain ⟨s', hs', rfl⟩ := h
      exact ⟨rfl, rfl, Nat.zero_le _, .inr (.inr ⟨_, rfl, hs', fun _ => rfl⟩)⟩
  · -- no store: an error of the run, or code over the size limit
    by_cases hrev : (m || err.isSome &&
        (evm.IsHomestead || decide (err ≠ some .ErrCodeStoreOutOfGas))) = true
    · rw [if_pos hrev] at h
      obtain ⟨s', hs', rfl⟩ := Option.map_eq_some_iff.1 h
      refine ⟨rfl, rfl, ?_, .inr (.inr ?_)⟩
      · show (if err = some .errExecutionReverted then gas else 0) ≤ gas
        split
        · exact le_rfl
        · exact Nat.zero_le _
      cases err with
      | none =>
        obtain rfl : m = true := by simpa using hstore
        exact ⟨_, rfl, hs', fun _ => by simp⟩
      | some e => exact ⟨e, by simp, hs', fun he => by simp [he]⟩
    · -- kept: only a code store out of gas before Homestead
      rw [if_neg hrev] at h
      cases h
      obtain ⟨rfl, hkeep⟩ : m = false ∧ _ := by simpa using hrev
      cases err with
      | none => simp at hstore
      | some e =>
        obtain ⟨hH, rfl⟩ : evm.IsHomestead = false ∧ e = .ErrCodeStoreOutOfGas := by
          simpa using hkeep
        exact ⟨rfl, rfl, le_rfl, .inr (.inl ⟨rfl, hH, rfl⟩)⟩

variable (keccak)

/-- What a creation can do: stop before the caller's nonce is taken, with all
of its gas and the state as it was (`ErrDepth`, `ErrInsufficientBalance`);
stop at a collision with no gas and the nonce taken; stop without recursion
once the value moved; or run the code with at most its gas, on a state that
operations reach from the snapshot taken after the nonce, and end with
`createEnd`. -/
inductive Created (s : State.StateDB) (caller : Address) (gas : Nat) :
    List UInt8 × Address × Nat × Option VmError × State.StateDB → Prop
  | early {err : Option VmError}
      (herr : err = some .ErrDepth ∨ err = some .ErrInsufficientBalance) :
      Created s caller gas ([], 0, gas, err, s)
  | collision : Created s caller gas ([], 0, 0, some .ErrContractAddressCollision,
      s.SetNonce keccak caller ((s.GetNonce caller + 1) % 2 ^ 64))
  | noRecursion {address : Address} {u : State.StateDB}
      (hu : Reaches keccak
        (s.SetNonce keccak caller ((s.GetNonce caller + 1) % 2 ^ 64)).Snapshot.2 u) :
      Created s caller gas ([], address, gas, none, u)
  | ran {address : Address} {x : List UInt8 × Option VmError × Nat × State.StateDB} {r}
      (hu : Reaches keccak
        (s.SetNonce keccak caller ((s.GetNonce caller + 1) % 2 ^ 64)).Snapshot.2 x.2.2.2)
      (hgas : x.2.2.1 ≤ gas)
      (h : createEnd keccak P evm
        (s.SetNonce keccak caller ((s.GetNonce caller + 1) % 2 ^ 64)).Snapshot.1 address x = some r) :
      Created s caller gas r

variable {keccak} (R : Runner keccak)

theorem create_created {s : State.StateDB} {caller : Env} {code : List UInt8} {codeHash : Hash}
    {gas value : Nat} {address : Address}
    {r : List UInt8 × Address × Nat × Option VmError × State.StateDB}
    (h : evm.create keccak P R s caller code codeHash gas value address = some r) :
    Created keccak P evm s caller.Address gas r := by
  unfold EVM.create at h
  dsimp only at h
  split_ifs at h with hdepth hbal hcoll hrec heip
  · cases h
    exact .early (.inl rfl)
  · cases h
    exact .early (.inr rfl)
  · cases h
    exact .collision
  -- the new account, its nonce from EIP-158 on, and the value
  · cases h
    exact .noRecursion (((Reaches.createAccount _ _).trans (Reaches.setNonce _ _ _)).trans
      (Transfer_reaches _ _ _ _))
  · cases h
    exact .noRecursion ((Reaches.createAccount _ _).trans (Transfer_reaches _ _ _ _))
  · exact .ran ((((Reaches.createAccount _ _).trans (Reaches.setNonce _ _ _)).trans
      (Transfer_reaches _ _ _ _)).trans (R.reaches _ _ _ _)) (R.gas_le _ _ _ _) h
  · exact .ran (((Reaches.createAccount _ _).trans (Transfer_reaches _ _ _ _)).trans
      (R.reaches _ _ _ _)) (R.gas_le _ _ _ _) h

namespace Created

variable {P evm} {s : State.StateDB} {caller : Address} {gas : Nat}
  {r : List UInt8 × Address × Nat × Option VmError × State.StateDB}

theorem gas_le (h : Created keccak P evm s caller gas r) : r.2.2.1 ≤ gas := by
  cases h with
  | early => exact le_rfl
  | collision => exact Nat.zero_le _
  | noRecursion => exact le_rfl
  | ran _ hgas h => exact (createEnd_eq_some P evm h).2.2.1.trans hgas

/-- After an error other than a revert, the checks before the nonce, and a
code store out of gas before Homestead, no gas is left. -/
theorem error_gas {e : VmError} (h : Created keccak P evm s caller gas r)
    (he : r.2.2.2.1 = some e) (hrev : e ≠ .errExecutionReverted) (hdepth : e ≠ .ErrDepth)
    (hbal : e ≠ .ErrInsufficientBalance)
    (hstore : e = .ErrCodeStoreOutOfGas → evm.IsHomestead = true) : r.2.2.1 = 0 := by
  cases h with
  | early herr =>
    subst he
    rcases herr with h | h <;> cases h
    · exact absurd rfl hdepth
    · exact absurd rfl hbal
  | collision => rfl
  | noRecursion => cases he
  | ran _ _ h =>
    obtain ⟨-, -, -, ⟨hnone, -⟩ | ⟨hcs, hH, -⟩ | ⟨e', he', -, hgas⟩⟩ := createEnd_eq_some P evm h
    · rw [hnone] at he
      cases he
    · rw [hcs] at he
      cases he
      rw [hstore rfl] at hH
      cases hH
    · rw [he'] at he
      cases he
      exact hgas hrev

/-- The state a creation leaves is reached by operations of the
interface. -/
theorem reaches (h : Created keccak P evm s caller gas r) : Reaches keccak s r.2.2.2.2 := by
  have hnonce : Reaches keccak s (s.SetNonce keccak caller ((s.GetNonce caller + 1) % 2 ^ 64)) :=
    Reaches.setNonce _ _ _
  cases h with
  | early => exact .refl _
  | collision => exact hnonce
  | noRecursion hu => exact (hnonce.trans (Reaches.snapshot _)).trans hu
  | ran hu _ h =>
    refine ((hnonce.trans (Reaches.snapshot _)).trans hu).trans ?_
    obtain ⟨-, -, -, ⟨-, hs⟩ | ⟨-, -, hs⟩ | ⟨e, -, hrev, -⟩⟩ := createEnd_eq_some P evm h
    · rw [hs]
      exact .op (show _ = some _ from rfl : State.StateDB.step keccak _ (.SetCode _ _) = _)
    · rw [hs]
      exact .refl _
    · exact .op (show _ = some r.2.2.2.2 from hrev :
        State.StateDB.step keccak _ (.RevertToSnapshot _) = _)

/-- A creation that fails (after the checks before the nonce, and other than
by a code store out of gas before Homestead) leaves the state as it was once
the caller's nonce was taken. -/
theorem restores {e : VmError} (h : Created keccak P evm s caller gas r) (hc : s.Consistent)
    (he : r.2.2.2.1 = some e) (hdepth : e ≠ .ErrDepth) (hbal : e ≠ .ErrInsufficientBalance)
    (hstore : e = .ErrCodeStoreOutOfGas → evm.IsHomestead = true) :
    r.2.2.2.2.Equiv (s.SetNonce keccak caller ((s.GetNonce caller + 1) % 2 ^ 64)) := by
  cases h with
  | early herr =>
    subst he
    rcases herr with h | h <;> cases h
    · exact absurd rfl hdepth
    · exact absurd rfl hbal
  | collision => exact State.StateDB.Equiv.refl _
  | noRecursion => cases he
  | ran hu _ h =>
    obtain ⟨-, -, -, ⟨hnone, -⟩ | ⟨hcs, hH, -⟩ | ⟨e', -, hrev, -⟩⟩ := createEnd_eq_some P evm h
    · rw [hnone] at he
      cases he
    · rw [hcs] at he
      cases he
      rw [hstore rfl] at hH
      cases hH
    · exact hu.revert_equiv ((Reaches.setNonce _ _ _).consistent hc) hrev

end Created

end Creations

/-! ## The frames return

`RevertToSnapshot` panics on a revision that is no longer valid, so a frame
returns only if the run it makes kept the frame's snapshot. The run reverts
only to snapshots it took itself: its own state changes go through the
journal, and its nested calls are frames, which keep the revisions valid at
their start. From a consistent state the frames therefore return, and keep
the laws asked of the run: the laws are closed under nesting. -/

section Returns
variable {keccak : List UInt8 → Hash}

open State.StateDB (Reaches Extends)

/-- A run keeps the revisions valid at its start, in their order: it reverts
only to snapshots it took itself. -/
def Runner.KeepsRevisions (R : Runner keccak) : Prop :=
  ∀ s c input readOnly, State.StateDB.Consistent s →
    s.validRevisions <+: (R.run s c input readOnly).2.2.2.validRevisions

variable (keccak) in
/-- The laws of a run from `s` given `gas`, which leaves `gas'` and `s'`: at
most its gas handed back, the state reached by operations of the interface,
and the revisions valid at `s` kept. -/
structure RunLaws (s : State.StateDB) (gas gas' : Nat) (s' : State.StateDB) : Prop where
  gas_le : gas' ≤ gas
  reaches : Reaches keccak s s'
  keeps : s.validRevisions <+: s'.validRevisions

theorem Runner.runLaws {R : Runner keccak} (hR : R.KeepsRevisions) {s : State.StateDB}
    (hc : s.Consistent) (c : RunContract) (input : List UInt8) (readOnly : Bool) :
    RunLaws keccak s c.Gas (R.run s c input readOnly).2.2.1 (R.run s c input readOnly).2.2.2 :=
  ⟨R.gas_le _ _ _ _, R.reaches _ _ _ _, hR _ _ _ _ hc⟩

theorem Framed.runLaws {s : State.StateDB} {gas : Nat}
    {r : List UInt8 × Nat × Option VmError × State.StateDB} (h : Framed keccak s gas r)
    (hkeep : s.validRevisions <+: r.2.2.2.validRevisions) : RunLaws keccak s gas r.2.1 r.2.2.2 :=
  ⟨h.gas_le, h.reaches, hkeep⟩

theorem Created.runLaws {P : EvmParams} {evm : EVM} {s : State.StateDB} {caller : Address}
    {gas : Nat} {r : List UInt8 × Address × Nat × Option VmError × State.StateDB}
    (h : Created keccak P evm s caller gas r)
    (hkeep : s.validRevisions <+: r.2.2.2.2.validRevisions) :
    RunLaws keccak s gas r.2.2.1 r.2.2.2.2 :=
  ⟨h.gas_le, h.reaches, hkeep⟩

variable {P : EvmParams} {R : Runner keccak} {s u : State.StateDB}

/-- The operations before a frame's run go through the journal: from the
snapshot on, they keep its revisions. -/
theorem validRevisions_snapshot (s : State.StateDB) : s.validRevisions <+: s.Snapshot.2.validRevisions :=
  List.prefix_append _ _

theorem snapshot_consistent (hc : s.Consistent) : s.Snapshot.2.Consistent :=
  -- `Snapshot` hashes nothing, so any hash function steps it
  State.StateDB.step_consistent (fun _ => 0) hc
    (show s.step (fun _ => 0) .Snapshot = some s.Snapshot.2 from rfl)

theorem snapshot_wellAddressed (hc : s.Consistent) : s.Snapshot.2.WellAddressed :=
  (snapshot_consistent hc).wellAddressed

/-- A run from the operations that followed the snapshot of a consistent `s`,
which kept the snapshot's revisions, reaches its state from the snapshot and
keeps them too. -/
theorem run_after_snapshot (hR : R.KeepsRevisions) (hc : s.Consistent)
    (hu : Reaches keccak s.Snapshot.2 u) (he : u.validRevisions = s.Snapshot.2.validRevisions)
    (c : RunContract) (input : List UInt8) (readOnly : Bool) :
    Reaches keccak s.Snapshot.2 (R.run u c input readOnly).2.2.2 ∧
      s.Snapshot.2.validRevisions <+: (R.run u c input readOnly).2.2.2.validRevisions := by
  have hlaws := R.runLaws hR (hu.consistent (snapshot_consistent hc)) c input readOnly
  exact ⟨hu.trans hlaws.reaches, he ▸ hlaws.keeps⟩

/-- The end of a call, after a run from the operations that followed the
snapshot of a consistent `s`: a revert finds the snapshot, and the revisions
valid at `s` are kept. -/
theorem callEnd_returns (hR : R.KeepsRevisions) (hc : s.Consistent)
    (hu : Reaches keccak s.Snapshot.2 u) (he : u.validRevisions = s.Snapshot.2.validRevisions)
    (c : RunContract) (input : List UInt8) (readOnly : Bool) :
    ∃ r, callEnd s.Snapshot.1 (R.run u c input readOnly) = some r ∧
      s.validRevisions <+: r.2.2.2.validRevisions := by
  obtain ⟨hall, hkeep⟩ := run_after_snapshot hR hc hu he c input readOnly
  generalize R.run u c input readOnly = x at hkeep hall
  obtain ⟨ret, _ | e, gas, t⟩ := x
  · exact ⟨_, rfl, (validRevisions_snapshot s).trans hkeep⟩
  · -- the run failed: the revert to the snapshot brings back its revisions
    obtain ⟨t', hrev, -, hrevs⟩ := hall.revert_kept hc hkeep
    refine ⟨_, by simp only [callEnd]; rw [hrev]; rfl, ?_⟩
    simp [hrevs]

/-- The end of a creation, likewise: the code store goes through the
journal, and a revert finds the snapshot. -/
theorem createEnd_returns (evm : EVM) (hR : R.KeepsRevisions) (hc : s.Consistent)
    (hu : Reaches keccak s.Snapshot.2 u) (he : u.validRevisions = s.Snapshot.2.validRevisions)
    (address : Address) (c : RunContract) :
    ∃ r, createEnd keccak P evm s.Snapshot.1 address (R.run u c [] false) = some r ∧
      s.validRevisions <+: r.2.2.2.2.validRevisions := by
  obtain ⟨hall, hkeep⟩ := run_after_snapshot hR hc hu he c [] false
  generalize R.run u c [] false = x at hkeep hall
  obtain ⟨ret, err, gas, t⟩ := x
  have hwa : t.WellAddressed := hall.wellAddressed (snapshot_wellAddressed hc)
  unfold createEnd
  dsimp only
  generalize hsc : storeCode keccak P address ret _ err gas t = sc
  obtain ⟨err', gas', t'⟩ := sc
  -- the code store leaves the run's state or sets the code through the journal
  have hst : Reaches keccak s.Snapshot.2 t' ∧ s.Snapshot.2.validRevisions <+: t'.validRevisions := by
    rcases storeCode_cases P address ret _ err gas t with ⟨-, -, h⟩ | ⟨-, h⟩ | ⟨-, h⟩ <;>
      rw [hsc] at h <;> cases h
    · have hop : t.step keccak (.SetCode address ret) = some (t.SetCode keccak address ret) := rfl
      exact ⟨hall.trans (.op hop),
        (State.StateDB.step_extends keccak hwa rfl hop).validRevisions ▸ hkeep⟩
    all_goals exact ⟨hall, hkeep⟩
  split
  · obtain ⟨t'', hrev, -, hrevs⟩ := hst.1.revert_kept hc hst.2
    refine ⟨_, by rw [hrev]; rfl, ?_⟩
    simp [hrevs]
  · exact ⟨_, rfl, (validRevisions_snapshot s).trans hst.2⟩

variable (P R) (evm : EVM)

theorem Call_returns (hR : R.KeepsRevisions) (hc : s.Consistent) (caller : Env) (addr : Address)
    (input : List UInt8) (gas value : Nat) :
    ∃ r, evm.Call keccak P R s caller addr input gas value = some r ∧
      s.validRevisions <+: r.2.2.2.validRevisions := by
  have hwa := snapshot_wellAddressed hc
  unfold EVM.Call
  dsimp only
  split_ifs with hrec hdepth hbal hmissing hexist
  · exact ⟨_, rfl, List.prefix_refl _⟩
  · exact ⟨_, rfl, List.prefix_refl _⟩
  · exact ⟨_, rfl, List.prefix_refl _⟩
  · exact ⟨_, rfl, validRevisions_snapshot s⟩
  · exact callEnd_returns hR hc (Transfer_reaches _ _ _ _)
      (Transfer_extends hwa _ _ _).validRevisions _ _ _
  · -- the missing account is created first
    have hcreate := State.StateDB.step_extends keccak hwa rfl
      (show s.Snapshot.2.step keccak (.CreateAccount addr) = some _ from rfl)
    exact callEnd_returns hR hc ((Reaches.createAccount _ _).trans (Transfer_reaches _ _ _ _))
      (hcreate.trans (Transfer_extends hcreate.wellAddressed _ _ _)).validRevisions _ _ _

theorem CallCode_returns (hR : R.KeepsRevisions) (hc : s.Consistent) (caller : Env)
    (addr : Address) (input : List UInt8) (gas value : Nat) :
    ∃ r, evm.CallCode keccak P R s caller addr input gas value = some r ∧
      s.validRevisions <+: r.2.2.2.validRevisions := by
  unfold EVM.CallCode
  dsimp only
  split_ifs with hrec hdepth hbal
  · exact ⟨_, rfl, List.prefix_refl _⟩
  · exact ⟨_, rfl, List.prefix_refl _⟩
  · exact ⟨_, rfl, List.prefix_refl _⟩
  · exact callEnd_returns hR hc (.refl _) rfl _ _ _

theorem DelegateCall_returns (hR : R.KeepsRevisions) (hc : s.Consistent) (caller : Env)
    (addr : Address) (input : List UInt8) (gas : Nat) :
    ∃ r, evm.DelegateCall keccak P R s caller addr input gas = some r ∧
      s.validRevisions <+: r.2.2.2.validRevisions := by
  unfold EVM.DelegateCall
  dsimp only
  split_ifs with hrec hdepth
  · exact ⟨_, rfl, List.prefix_refl _⟩
  · exact ⟨_, rfl, List.prefix_refl _⟩
  · exact callEnd_returns hR hc (.refl _) rfl _ _ _

theorem StaticCall_returns (hR : R.KeepsRevisions) (hc : s.Consistent) (caller : Env)
    (addr : Address) (input : List UInt8) (gas : Nat) :
    ∃ r, evm.StaticCall keccak P R s caller addr input gas = some r ∧
      s.validRevisions <+: r.2.2.2.validRevisions := by
  unfold EVM.StaticCall
  dsimp only
  split_ifs with hrec hdepth
  · exact ⟨_, rfl, List.prefix_refl _⟩
  · exact ⟨_, rfl, List.prefix_refl _⟩
  · have hop : s.Snapshot.2.step keccak (.AddBalance addr 0) = some _ := rfl
    exact callEnd_returns hR hc (.op hop)
      (State.StateDB.step_extends keccak (snapshot_wellAddressed hc) rfl hop).validRevisions _ _ _

theorem create_returns (hR : R.KeepsRevisions) (hc : s.Consistent) (caller : Env)
    (code : List UInt8) (codeHash : Hash) (gas value : Nat) (address : Address) :
    ∃ r, evm.create keccak P R s caller code codeHash gas value address = some r ∧
      s.validRevisions <+: r.2.2.2.2.validRevisions := by
  -- the caller's nonce is taken through the journal, before the snapshot
  have hnonce := State.StateDB.step_extends keccak hc.wellAddressed rfl
    (show s.step keccak (.SetNonce caller.Address ((s.GetNonce caller.Address + 1) % 2 ^ 64)) =
      some _ from rfl)
  have hc₁ := (@Reaches.setNonce keccak s caller.Address
    ((s.GetNonce caller.Address + 1) % 2 ^ 64)).consistent hc
  have hwa := snapshot_wellAddressed hc₁
  have hcreate := State.StateDB.step_extends keccak hwa rfl
    (show (s.SetNonce keccak caller.Address ((s.GetNonce caller.Address + 1) % 2 ^ 64)).Snapshot.2.step
      keccak (.CreateAccount address) = some _ from rfl)
  have hnew := State.StateDB.step_extends keccak hcreate.wellAddressed rfl
    (show State.StateDB.step keccak _ (.SetNonce address 1) = some _ from rfl)
  have hprefix : s.validRevisions <+:
      (s.SetNonce keccak caller.Address ((s.GetNonce caller.Address + 1) % 2 ^ 64)).Snapshot.2.validRevisions :=
    hnonce.validRevisions ▸ validRevisions_snapshot _
  unfold EVM.create
  dsimp only
  split_ifs with hdepth hbal hcoll hrec heip
  · exact ⟨_, rfl, List.prefix_refl _⟩
  · exact ⟨_, rfl, List.prefix_refl _⟩
  · exact ⟨_, rfl, hnonce.validRevisions ▸ List.prefix_refl _⟩
  -- without recursion, the new account is left as the journal made it
  · refine ⟨_, rfl, ?_⟩
    rw [(hnew.trans (Transfer_extends hnew.wellAddressed _ _ _)).validRevisions,
      hcreate.validRevisions]
    exact hprefix
  · refine ⟨_, rfl, ?_⟩
    rw [(Transfer_extends hcreate.wellAddressed _ _ _).validRevisions, hcreate.validRevisions]
    exact hprefix
  · obtain ⟨r, hr, hkeep⟩ := createEnd_returns evm hR hc₁
      (((Reaches.createAccount _ _).trans (Reaches.setNonce _ _ _)).trans (Transfer_reaches _ _ _ _))
      ((hcreate.trans hnew).trans (Transfer_extends hnew.wellAddressed _ _ _)).validRevisions _ _
    exact ⟨r, hr, hnonce.validRevisions ▸ hkeep⟩
  · obtain ⟨r, hr, hkeep⟩ := createEnd_returns evm hR hc₁
      ((Reaches.createAccount _ _).trans (Transfer_reaches _ _ _ _))
      (hcreate.trans (Transfer_extends hcreate.wellAddressed _ _ _)).validRevisions _ _
    exact ⟨r, hr, hnonce.validRevisions ▸ hkeep⟩

end Returns

/-! ## What the frames guarantee -/

section Guarantees
variable {keccak : List UInt8 → Hash} (P : EvmParams) (R : Runner keccak) (evm : EVM)

/-- Each of the four calls does what `Framed` says. -/
theorem calls_framed {s : State.StateDB} {caller : Env} {addr : Address} {input : List UInt8}
    {gas value : Nat} {r : List UInt8 × Nat × Option VmError × State.StateDB}
    (h : evm.Call keccak P R s caller addr input gas value = some r ∨
      evm.CallCode keccak P R s caller addr input gas value = some r ∨
      evm.DelegateCall keccak P R s caller addr input gas = some r ∨
      evm.StaticCall keccak P R s caller addr input gas = some r) :
    Framed keccak s gas r := by
  rcases h with h | h | h | h
  · exact Call_framed P R h
  · exact CallCode_framed P R h
  · exact DelegateCall_framed P R h
  · exact StaticCall_framed P R h

/-- A call that ends in an error leaves every accessor of the state reading
what it read before the call: the value it moved, the account it created and
whatever the code did are undone. -/
theorem calls_failure_restore_state {s : State.StateDB} {caller : Env} {addr : Address}
    {input : List UInt8} {gas value : Nat} {r : List UInt8 × Nat × Option VmError × State.StateDB}
    {e : VmError} (hc : s.Consistent)
    (h : evm.Call keccak P R s caller addr input gas value = some r ∨
      evm.CallCode keccak P R s caller addr input gas value = some r ∨
      evm.DelegateCall keccak P R s caller addr input gas = some r ∨
      evm.StaticCall keccak P R s caller addr input gas = some r)
    (he : r.2.2.1 = some e) : r.2.2.2.accessors keccak = s.accessors keccak :=
  ((calls_framed P R evm h).restores hc he).accessors keccak

/-- A call to a missing account whose code runs out of gas: the account it
created and the value it moved are undone. -/
theorem calls_failure_restore_state_failed_run :
    ∃ (R : Runner (fun _ => 0)) (r : List UInt8 × Nat × Option VmError × State.StateDB),
      (State.New fun _ => none).Consistent ∧ (⟨0, false, true, false, true⟩ : EVM).Call (fun _ => 0) ⟨1024, 24576, 200⟩ R (State.New fun _ => none) ⟨0, 0, [], 0⟩ 5 [] 30000 0 = some r ∧ r.2.2.1 = some .ErrOutOfGas ∧
      r.2.2.2.accessors (fun _ => 0) = (State.New fun _ => none).accessors (fun _ => 0) :=
  let R : Runner (fun _ => 0) := ⟨fun s c _ _ => ([], some .ErrOutOfGas, c.Gas, s), fun _ _ _ _ => le_rfl,
      fun _ _ _ _ => .refl _⟩
  have hok : ((⟨0, false, true, false, true⟩ : EVM).Call (fun _ => 0) ⟨1024, 24576, 200⟩ R (State.New fun _ => none) ⟨0, 0, [], 0⟩ 5 [] 30000 0).map (·.2.2.1) = some (some .ErrOutOfGas) := by decide
  match h : (⟨0, false, true, false, true⟩ : EVM).Call (fun _ => 0) ⟨1024, 24576, 200⟩ R (State.New fun _ => none) ⟨0, 0, [], 0⟩ 5 [] 30000 0, hok with
  | some r, hr => ⟨R, r, State.StateDB.New_consistent _, h, Option.some.inj hr,
    calls_failure_restore_state _ R _ (State.StateDB.New_consistent _) (.inl h) (Option.some.inj hr)⟩

/-- A creation that fails after taking the caller's nonce (other than by a
code store out of gas before Homestead) leaves every accessor reading what it
read once the nonce was taken: the nonce stays used, everything else is
undone, and unless the code reverted no gas is handed back. -/
theorem create_failure_keeps_nonce {s : State.StateDB} {caller : Env} {code : List UInt8}
    {codeHash : Hash} {gas value : Nat} {address : Address}
    {r : List UInt8 × Address × Nat × Option VmError × State.StateDB} {e : VmError}
    (hc : s.Consistent) (h : evm.create keccak P R s caller code codeHash gas value address = some r)
    (he : r.2.2.2.1 = some e) (hdepth : e ≠ .ErrDepth) (hbal : e ≠ .ErrInsufficientBalance)
    (hstore : e = .ErrCodeStoreOutOfGas → evm.IsHomestead = true) :
    r.2.2.2.2.accessors keccak =
        (s.SetNonce keccak caller.Address ((s.GetNonce caller.Address + 1) % 2 ^ 64)).accessors keccak ∧
      r.2.2.2.2.GetNonce caller.Address = (s.GetNonce caller.Address + 1) % 2 ^ 64 ∧
      (e ≠ .errExecutionReverted → r.2.2.1 = 0) := by
  have hcr := create_created P evm R h
  have hacc := (hcr.restores hc he hdepth hbal hstore).accessors keccak
  -- the nonce is one of the accessors
  have hnonce := congrArg State.StateDB.Accessors.GetNonce hacc
  refine ⟨hacc, ?_, fun hrev => hcr.error_gas he hrev hdepth hbal hstore⟩
  rw [show r.2.2.2.2.GetNonce = _ from hnonce]
  exact State.StateDB.GetNonce_SetNonce_self hc.wellAddressed _ _

/-- A creation whose init code runs out of gas keeps the caller's nonce
taken. -/
theorem create_failure_keeps_nonce_failed_run :
    ∃ (R : Runner (fun _ => 0)) (r : List UInt8 × Address × Nat × Option VmError × State.StateDB),
      (State.New fun _ => none).Consistent ∧ (⟨0, false, true, false, true⟩ : EVM).create (fun _ => 0) ⟨1024, 24576, 200⟩ R (State.New fun _ => none) ⟨0, 0, [], 0⟩ [] 0 30000 0 7 = some r ∧ r.2.2.2.1 = some .ErrOutOfGas ∧
      r.2.2.2.2.GetNonce 0 = 1 ∧ r.2.2.1 = 0 :=
  let R : Runner (fun _ => 0) := ⟨fun s c _ _ => ([], some .ErrOutOfGas, c.Gas, s), fun _ _ _ _ => le_rfl,
      fun _ _ _ _ => .refl _⟩
  have hok : ((⟨0, false, true, false, true⟩ : EVM).create (fun _ => 0) ⟨1024, 24576, 200⟩ R (State.New fun _ => none) ⟨0, 0, [], 0⟩ [] 0 30000 0 7).map (·.2.2.2.1) = some (some .ErrOutOfGas) := by decide
  match h : (⟨0, false, true, false, true⟩ : EVM).create (fun _ => 0) ⟨1024, 24576, 200⟩ R (State.New fun _ => none) ⟨0, 0, [], 0⟩ [] 0 30000 0 7, hok with
  | some r, hr =>
    have hres := create_failure_keeps_nonce _ R _ (State.StateDB.New_consistent _) h
      (Option.some.inj hr) (by decide) (by decide) (fun h => VmError.noConfusion h)
    ⟨R, r, State.StateDB.New_consistent _, h, Option.some.inj hr, hres.2.1, hres.2.2 (by decide)⟩

/-- From a consistent state, with a run that keeps the revisions valid at its
start, each frame returns: the revert at its end finds its snapshot. What it
returns meets the laws of a run, at most its gas handed back, the state
reached by operations of the interface, and the revisions valid at its start
kept, so a run whose nested calls are these frames keeps the laws too. -/
theorem frames_keep_run_laws (hR : R.KeepsRevisions) {s : State.StateDB} (hc : s.Consistent)
    (caller : Env) (gas : Nat) :
    (∀ addr input value, ∃ r, evm.Call keccak P R s caller addr input gas value = some r ∧
      RunLaws keccak s gas r.2.1 r.2.2.2) ∧
    (∀ addr input value, ∃ r, evm.CallCode keccak P R s caller addr input gas value = some r ∧
      RunLaws keccak s gas r.2.1 r.2.2.2) ∧
    (∀ addr input, ∃ r, evm.DelegateCall keccak P R s caller addr input gas = some r ∧
      RunLaws keccak s gas r.2.1 r.2.2.2) ∧
    (∀ addr input, ∃ r, evm.StaticCall keccak P R s caller addr input gas = some r ∧
      RunLaws keccak s gas r.2.1 r.2.2.2) ∧
    ∀ code codeHash value address, ∃ r,
      evm.create keccak P R s caller code codeHash gas value address = some r ∧
        RunLaws keccak s gas r.2.2.1 r.2.2.2.2 := by
  refine ⟨fun addr input value => ?_, fun addr input value => ?_, fun addr input => ?_,
    fun addr input => ?_, fun code codeHash value address => ?_⟩
  · obtain ⟨r, h, hkeep⟩ := Call_returns P R evm hR hc caller addr input gas value
    exact ⟨r, h, (Call_framed P R h).runLaws hkeep⟩
  · obtain ⟨r, h, hkeep⟩ := CallCode_returns P R evm hR hc caller addr input gas value
    exact ⟨r, h, (CallCode_framed P R h).runLaws hkeep⟩
  · obtain ⟨r, h, hkeep⟩ := DelegateCall_returns P R evm hR hc caller addr input gas
    exact ⟨r, h, (DelegateCall_framed P R h).runLaws hkeep⟩
  · obtain ⟨r, h, hkeep⟩ := StaticCall_returns P R evm hR hc caller addr input gas
    exact ⟨r, h, (StaticCall_framed P R h).runLaws hkeep⟩
  · obtain ⟨r, h, hkeep⟩ := create_returns P R evm hR hc caller code codeHash gas value address
    exact ⟨r, h, (create_created P evm R h).runLaws hkeep⟩

/-- The run of a contract that stores `1` under key `0` of its account and
uses 100 gas; given input, it then runs out of gas. -/
def storeRun (s : State.StateDB) (c : RunContract) (input : List UInt8) (_readOnly : Bool) :
    List UInt8 × Option VmError × Nat × State.StateDB :=
  if input = [] then ([], none, c.Gas - 100, s.SetState (fun _ => 0) c.Address 0 1)
  else ([], some .ErrOutOfGas, 0, s.SetState (fun _ => 0) c.Address 0 1)

theorem storeRun_state (s : State.StateDB) (c : RunContract) (input : List UInt8)
    (readOnly : Bool) :
    (storeRun s c input readOnly).2.2.2 = s.SetState (fun _ => 0) c.Address 0 1 := by
  unfold storeRun
  split <;> rfl

theorem storeRun_gas_le (s : State.StateDB) (c : RunContract) (input : List UInt8)
    (readOnly : Bool) : (storeRun s c input readOnly).2.2.1 ≤ c.Gas := by
  unfold storeRun
  split
  · exact Nat.sub_le _ _
  · exact Nat.zero_le _

theorem storeRun_reaches (s : State.StateDB) (c : RunContract) (input : List UInt8)
    (readOnly : Bool) :
    State.StateDB.Reaches (fun _ => 0) s (storeRun s c input readOnly).2.2.2 := by
  rw [storeRun_state]
  exact .op (show s.step (fun _ => 0) (.SetState c.Address 0 1) = some _ from rfl)

/-- A runner for the contract of `storeRun`. -/
def storingRunner : Runner (fun _ => 0) := ⟨storeRun, storeRun_gas_le, storeRun_reaches⟩

theorem storingRunner_keepsRevisions : storingRunner.KeepsRevisions := by
  intro s c input readOnly hc
  show s.validRevisions <+: (storeRun s c input readOnly).2.2.2.validRevisions
  rw [storeRun_state, (State.StateDB.step_extends (fun _ => 0) hc.wellAddressed rfl
    (show s.step (fun _ => 0) (.SetState c.Address 0 1) = some _ from rfl)).validRevisions]

/-- A call from account `0` that moves 30000 to the missing account `5`, whose
code stores a word and runs out of gas: the call returns, and meets the laws
of a run. -/
theorem frames_keep_run_laws_storing_call :
    storingRunner.KeepsRevisions ∧ Core.fundedState.Consistent ∧
      ∃ r, (⟨0, false, true, true, true⟩ : EVM).Call (fun _ => 0) ⟨1024, 24576, 200⟩ storingRunner
          Core.fundedState (AccountRef 0) 5 [1] 30000 30000 = some r ∧
        r.2.2.1 = some .ErrOutOfGas ∧ RunLaws (fun _ => 0) Core.fundedState 30000 r.2.1 r.2.2.2 := by
  have hc : Core.fundedState.Consistent := State.StateDB.New_consistent _
  obtain ⟨r, hr, hlaws⟩ := (frames_keep_run_laws ⟨1024, 24576, 200⟩ storingRunner
    ⟨0, false, true, true, true⟩ storingRunner_keepsRevisions hc (AccountRef 0) 30000).1 5 [1] 30000
  have herr : ((⟨0, false, true, true, true⟩ : EVM).Call (fun _ => 0) ⟨1024, 24576, 200⟩
      storingRunner Core.fundedState (AccountRef 0) 5 [1] 30000 30000).map (·.2.2.1) =
        some (some .ErrOutOfGas) := by decide
  rw [hr] at herr
  exact ⟨storingRunner_keepsRevisions, hc, r, hr, Option.some.inj herr, hlaws⟩

end Guarantees

/-! ## The EVM of a message

`TransitionDb` runs a message through `EVM.Create` or `EVM.Call` from the
sender's `AccountRef`. Made of the frames, the EVM that `ApplyMessage` is given
(`Btp.Core.EVM`) is total by a default for a panic, which no consistent state
leads to; its laws come from `Framed` and `Created`. -/

section Message
variable (keccak : List UInt8 → Hash) (P : EvmParams) (R : Runner keccak)
  (CreateAddress : Address → Nat → Address)

/-- `EVM.Call` from an account, as `TransitionDb` makes it; a panic is taken
as a call that hands back its gas and leaves the state. -/
def EVM.callFrom (evm : EVM) (s : State.StateDB) (caller addr : Address) (input : List UInt8)
    (gas value : Nat) : List UInt8 × Nat × Option VmError × State.StateDB :=
  (evm.Call keccak P R s (AccountRef caller) addr input gas value).getD ([], gas, none, s)

/-- `EVM.Create` from an account, without the new address, which
`TransitionDb` drops; a panic is taken as by `callFrom`. -/
def EVM.createFrom (evm : EVM) (s : State.StateDB) (caller : Address) (code : List UInt8)
    (gas value : Nat) : List UInt8 × Nat × Option VmError × State.StateDB :=
  ((evm.Create keccak P R CreateAddress s (AccountRef caller) code gas value).map
    fun r => (r.1, r.2.2.1, r.2.2.2.1, r.2.2.2.2)).getD ([], gas, none, s)

variable {keccak P R CreateAddress} (evm : EVM)

theorem EVM.callFrom_gas (s : State.StateDB) (caller addr : Address) (input : List UInt8)
    (gas value : Nat) : (evm.callFrom keccak P R s caller addr input gas value).2.1 ≤ gas := by
  unfold EVM.callFrom
  cases h : evm.Call keccak P R s (AccountRef caller) addr input gas value with
  | none => exact le_rfl
  | some r => exact (Call_framed P R h).gas_le

theorem EVM.callFrom_wellAddressed (s : State.StateDB) (caller addr : Address)
    (input : List UInt8) (gas value : Nat) (hwa : s.WellAddressed) :
    (evm.callFrom keccak P R s caller addr input gas value).2.2.2.WellAddressed := by
  unfold EVM.callFrom
  cases h : evm.Call keccak P R s (AccountRef caller) addr input gas value with
  | none => exact hwa
  | some r => exact (Call_framed P R h).reaches.wellAddressed hwa

theorem EVM.createFrom_gas (s : State.StateDB) (caller : Address) (code : List UInt8)
    (gas value : Nat) : (evm.createFrom keccak P R CreateAddress s caller code gas value).2.1 ≤ gas := by
  unfold EVM.createFrom
  cases h : evm.Create keccak P R CreateAddress s (AccountRef caller) code gas value with
  | none => exact le_rfl
  | some r => exact (create_created P evm R h).gas_le

theorem EVM.createFrom_wellAddressed (s : State.StateDB) (caller : Address) (code : List UInt8)
    (gas value : Nat) (hwa : s.WellAddressed) :
    (evm.createFrom keccak P R CreateAddress s caller code gas value).2.2.2.WellAddressed := by
  unfold EVM.createFrom
  cases h : evm.Create keccak P R CreateAddress s (AccountRef caller) code gas value with
  | none => exact hwa
  | some r => exact (create_created P evm R h).reaches.wellAddressed hwa

variable (keccak P R CreateAddress) (Coinbase : Address)

/-- The EVM `ApplyMessage` runs, made of the frames, at the block's
coinbase. -/
def EVM.toCore : Core.EVM :=
  ⟨evm.createFrom keccak P R CreateAddress, evm.callFrom keccak P R, Coinbase, evm.IsHomestead,
    evm.createFrom_gas, evm.callFrom_gas, evm.createFrom_wellAddressed,
    evm.callFrom_wellAddressed⟩

/-- With the EVM made of the frames, the EVM step of `ApplyMessage` from a
consistent state is `EVM.Create` from the sender, or `EVM.Call` from the
sender once its nonce is taken: the frames return there, so the default for a
panic is never taken. -/
theorem vmRun_runs_frames (hR : R.KeepsRevisions) (msg : Core.Message) {state : State.StateDB}
    (hc : state.Consistent) (gas : Nat) :
    some (Core.vmRun keccak (evm.toCore keccak P R CreateAddress Coinbase) msg state gas) =
      if msg.To.isNone then
        (evm.Create keccak P R CreateAddress state (AccountRef msg.From) msg.Data gas msg.Value).map
          fun r => (r.1, r.2.2.1, r.2.2.2.1, r.2.2.2.2)
      else
        evm.Call keccak P R (state.SetNonce keccak msg.From ((state.GetNonce msg.From + 1) % 2 ^ 64))
          (AccountRef msg.From) (msg.To.getD 0) msg.Data gas msg.Value := by
  unfold Core.vmRun
  by_cases hto : msg.To.isNone = true
  · -- a creation
    obtain ⟨r, hr, -⟩ := create_returns P R evm hR hc (AccountRef msg.From) msg.Data 0 gas msg.Value
      (CreateAddress msg.From (state.GetNonce msg.From))
    have hcreate : evm.Create keccak P R CreateAddress state (AccountRef msg.From) msg.Data gas
        msg.Value = some r := hr
    rw [if_pos hto, if_pos hto]
    show some (evm.createFrom keccak P R CreateAddress state msg.From msg.Data gas msg.Value) = _
    unfold EVM.createFrom
    rw [hcreate]
    rfl
  · -- a call, once the sender's nonce is taken
    obtain ⟨r, hr, -⟩ := Call_returns P R evm hR
      ((@State.StateDB.Reaches.setNonce keccak state msg.From
        ((state.GetNonce msg.From + 1) % 2 ^ 64)).consistent hc) (AccountRef msg.From)
      (msg.To.getD 0) msg.Data gas msg.Value
    rw [if_neg hto, if_neg hto]
    show some (evm.callFrom keccak P R _ msg.From (msg.To.getD 0) msg.Data gas msg.Value) = _
    unfold EVM.callFrom
    rw [hr]
    rfl

/-- Account `0` sends 30000 to the missing account `5` with 9000 gas for the
EVM: the code stores its word and hands back 8900 gas, without an error. -/
theorem vmRun_runs_frames_storing_call :
    storingRunner.KeepsRevisions ∧ Core.fundedState.Consistent ∧
      ∃ r, (⟨0, false, true, true, true⟩ : EVM).Call (fun _ => 0) ⟨1024, 24576, 200⟩ storingRunner
          (Core.fundedState.SetNonce (fun _ => 0) 0 1) (AccountRef 0) 5 [] 9000 30000 = some r ∧
        Core.vmRun (fun _ => 0) ((⟨0, false, true, true, true⟩ : EVM).toCore (fun _ => 0)
          ⟨1024, 24576, 200⟩ storingRunner (fun _ _ => 0) 0) ⟨0, some 5, 1, 30000, 30000, 0, false, []⟩
          Core.fundedState 9000 = r ∧ r.2.1 = 8900 ∧ r.2.2.1 = none := by
  have hc : Core.fundedState.Consistent := State.StateDB.New_consistent _
  have h := vmRun_runs_frames (fun _ => 0) ⟨1024, 24576, 200⟩ storingRunner (fun _ _ => 0)
    ⟨0, false, true, true, true⟩ 0 storingRunner_keepsRevisions ⟨0, some 5, 1, 30000, 30000, 0, false, []⟩
    hc 9000
  rw [if_neg (by decide)] at h
  have hnonce : Core.fundedState.GetNonce 0 = 0 := by decide
  simp only [hnonce] at h
  refine ⟨storingRunner_keepsRevisions, hc, _, h.symm, rfl, ?_, ?_⟩ <;> decide

end Message

end Btp.Vm
