import Mathlib
import Btp.Vm.JumpTable

/-!
# The interpreter loop

`EVMInterpreter.Run` of `core/vm/interpreter.go`. One pass of its loop
fetches the opcode at `pc`, checks it against its entry of the jump table
(validity, the stack bounds, write protection), charges the constant gas,
works out the memory the operation needs, charges the dynamic gas, expands
the memory and executes the operation. The run ends on an error, a revert or
a halt; otherwise it goes on at the next instruction or at the jump target.

A pass of the loop is `EVMInterpreter.step`: its checks and charges up to the
call of `execute` are `EVMInterpreter.prepare`. The states at the head of the
loop are those `Reachable` from the frame `Run` starts with. The tracer,
the integer pool (modelled over pointers in `IntPool`) and the `abort` flag
are not modelled here: an aborted run stops at a loop head, so it reaches no
state that `Reachable` leaves out.
-/

namespace Btp.Vm

/-- `Contract.GetOp`: the byte at `n`, or `STOP` past the end of the code. -/
def Contract.GetOp (c : Contract) (n : Nat) : OpCode :=
  if h : n < c.Code.length then c.Code[n] else STOP

/-- `Contract.UseGas`: whether the gas was there, and the frame after. -/
def Frame.UseGas (f : Frame) (gas : Nat) : Bool × Frame :=
  if f.Gas < gas then (false, f) else (true, { f with Gas := f.Gas - gas })

/-- The fields of `EVMInterpreter` the loop reads; `readOnly` is already
combined with the flag `Run` is called with. -/
structure EVMInterpreter where
  JumpTable : JumpTable
  gasTable : GasTable
  readOnly : Bool

/-- Where one pass of the loop leaves the run. -/
inductive Step (σ : Type)
  | next (f : Frame) (s : σ)
  | done (ret : List UInt8) (err : Option VmError) (f : Frame) (s : σ)

/-- The frame `Run` starts its loop with: a new stack and memory, and the
return data of the previous call reset. -/
def newFrame (contract : Contract) (gas callGasTemp : Nat) : Frame :=
  { pc := 0, stack := newstack, memory := NewMemory, contract, Gas := gas, returnData := [],
    callGasTemp }

section
variable {σ : Type}

/-- The memory an operation needs, rounded up to words: `SafeMul(toWordSize(memSize), 32)`
over the size its memory function reports. -/
def requiredMemory (operation : operation) (stack : Stack) : Option (Except VmError Nat) :=
  match operation.memorySize with
  | none => some (.ok 0)
  | some memorySize => (memorySize.run stack).map fun (memSize, overflow) =>
    if overflow then .error .errGasUintOverflow
    else
      let (memorySize, overflow) := SafeMul (toWordSize memSize) 32
      if overflow then .error .errGasUintOverflow else .ok memorySize

/-- Charge the dynamic gas: whether the run goes on, with the frame and state
after. An error of the gas function and a charge over the gas left both end
the run with `ErrOutOfGas`. -/
def payDynamicGas (gt : GasTable) (h : Host σ) (operation : operation) (f : Frame) (s : σ)
    (memorySize : Nat) : Option (Bool × Frame × σ) :=
  match operation.dynamicGas with
  | none => some (true, f, s)
  | some dynamicGas => (dynamicGas.run gt h f s memorySize).map fun
    | .error _ => (false, f, s)
    | .ok (cost, f, s) =>
      let (ok, f) := f.UseGas cost
      (ok, f, s)

/-- Where the run goes after `execute` returned `res`: the flags of the
operation decide. -/
def afterExecute (operation : operation) (res : List UInt8) (f : Frame) (s : σ) : Step σ :=
  let f := if operation.returns then { f with returnData := res } else f
  if operation.reverts then .done res (some .errExecutionReverted) f s
  else if operation.halts then .done res none f s
  else if !operation.jumps then .next { f with pc := (f.pc + 1) % 2 ^ 64 } s
  else .next f s

/-- How the checks and charges of a pass of the loop end: the run stops with
an error, or the operation executes on the frame and state they leave. -/
inductive Prepared (σ : Type)
  | halt (err : VmError) (f : Frame) (s : σ)
  | exec (operation : operation) (f : Frame) (s : σ)

/-- Write protection: in a read-only run from Byzantium on, an operation that
writes, and a `CALL` whose value (the third stack item) is not zero, are
refused. The value is only looked at when the operation does not write. -/
def EVMInterpreter.writeProtected (it : EVMInterpreter) (h : Host σ) (op : OpCode)
    (operation : operation) (stack : Stack) : Option Bool :=
  if it.readOnly && h.ctx.IsByzantium then
    if operation.writes then some true
    else if op = CALL then (stack.Back 2).map (· ≠ 0) else some false
  else some false

/-- The charges of a pass of the loop: the constant gas, the memory size, the
dynamic gas and the expansion of the memory. -/
def EVMInterpreter.charge (it : EVMInterpreter) (h : Host σ) (operation : operation) (f : Frame)
    (s : σ) : Option (Prepared σ) := do
  let (ok, f) := f.UseGas operation.constantGas
  if !ok then return .halt .ErrOutOfGas f s
  match ← requiredMemory operation f.stack with
  | .error e => return .halt e f s
  | .ok memorySize =>
    let (ok, f, s) ← payDynamicGas it.gasTable h operation f s memorySize
    if !ok then return .halt .ErrOutOfGas f s
    let f := if memorySize > 0 then { f with memory := f.memory.Resize memorySize } else f
    return .exec operation f s

/-- A pass of the loop of `Run` up to the call of `execute`: the validity and
stack checks, write protection, and the charges. -/
def EVMInterpreter.prepare (it : EVMInterpreter) (h : Host σ) (f : Frame) (s : σ) :
    Option (Prepared σ) := do
  let op := f.contract.GetOp f.pc
  let operation := it.JumpTable op
  if !operation.valid then return .halt (.invalidOpcode op) f s
  let sLen := f.stack.len
  if sLen < operation.minStack then return .halt (.stackUnderflow sLen operation.minStack) f s
  if sLen > operation.maxStack then return .halt (.stackLimitReached sLen operation.maxStack) f s
  if ← it.writeProtected h op operation f.stack then return .halt .errWriteProtection f s
  it.charge h operation f s

/-- One pass of the loop of `Run`. A `nil` execute function panics. -/
def EVMInterpreter.step (it : EVMInterpreter) (h : Host σ) (f : Frame) (s : σ) :
    Option (Step σ) := do
  match ← it.prepare h f s with
  | .halt err f s => return .done [] (some err) f s
  | .exec operation f s =>
    let execute ← operation.execute
    match ← execute.run h f s with
    | .error e => return .done [] (some e) f s
    | .ok (res, f, s) => return afterExecute operation res f s

/-- The states at the head of the loop of a run that started in the frame
`f₀` and the state `s₀`. -/
inductive Reachable (it : EVMInterpreter) (h : Host σ) (f₀ : Frame) (s₀ : σ) :
    Frame → σ → Prop
  | start : Reachable it h f₀ s₀ f₀ s₀
  | step {f s f' s'} : Reachable it h f₀ s₀ f s → it.step h f s = some (.next f' s') →
      Reachable it h f₀ s₀ f' s'

end

end Btp.Vm
