import Mathlib
import Btp.Common.Types
import Btp.Vm.Contract
import Btp.Vm.Stack

/-!
# Instructions

`core/vm/instructions.go`. An instruction works on the frame of the running
contract (program counter, stack, memory, gas, return data) and on the state
behind the `StateDB` interface of `core/vm/interface.go`, which is a type `σ`
with its operations; the nested calls of `CALL` and `CREATE` and their
variants are operations on `σ` too. A panic of the Go code is `none`.
-/

namespace Btp.Vm

/-! ## Words

The packages `common`, `common/math`, `math/big` and `params` are not part of
this source tree: the helpers below follow their functions of the same
names. -/

/-- `math.U256`: the two's-complement word of an integer. -/
def U256 (x : Int) : Nat := (x % 2 ^ 256).toNat

/-- `math.S256`: a word read as a signed number. -/
def S256 (x : Nat) : Int := if x < 2 ^ 255 then x else (x : Int) - 2 ^ 256

/-- `big.Int.SetBytes`: big-endian bytes as a number. -/
def SetBytes (b : List UInt8) : Nat := b.foldl (fun acc d => acc * 256 + d.toNat) 0

/-- `common.BigToAddress`: the low 160 bits. -/
def BigToAddress (x : Nat) : Address := BitVec.ofNat 160 x

/-- `common.BigToHash`: the low 256 bits. -/
def BigToHash (x : Nat) : Hash := BitVec.ofNat 256 x

/-- `math.Byte(x, 32, n)`: byte `n` of the 32-byte big-endian encoding. -/
def byteAt (x : Nat) (n : Nat) : Nat := (x / 256 ^ (31 - n)) % 256

/-- `params.CallStipend`. -/
def CallStipend : Nat := 2300

/-! ## What an instruction works on -/

/-- `types.Log`, with the fields `makeLog` sets. -/
structure Log where
  Address : Address
  Topics : List Hash
  Data : List UInt8
  BlockNumber : Nat

/-- The `StateDB` interface, over a state type `σ`. Operations that panic
return an `Option`. -/
structure StateDB (σ : Type) where
  CreateAccount : σ → Address → σ
  SubBalance : σ → Address → Nat → σ
  AddBalance : σ → Address → Nat → σ
  GetBalance : σ → Address → Nat
  GetNonce : σ → Address → Nat
  SetNonce : σ → Address → Nat → σ
  GetCodeHash : σ → Address → Hash
  GetCode : σ → Address → List UInt8
  SetCode : σ → Address → List UInt8 → σ
  GetCodeSize : σ → Address → Nat
  AddRefund : σ → Nat → σ
  SubRefund : σ → Nat → Option σ
  GetRefund : σ → Nat
  GetCommittedState : σ → Address → Hash → Hash
  GetState : σ → Address → Hash → Hash
  SetState : σ → Address → Hash → Hash → σ
  Suicide : σ → Address → Bool × σ
  HasSuicided : σ → Address → Bool
  Exist : σ → Address → Bool
  Empty : σ → Address → Bool
  RevertToSnapshot : σ → Nat → Option σ
  Snapshot : σ → Nat × σ
  AddLog : σ → Log → σ
  AddPreimage : σ → Hash → List UInt8 → σ

/-- The running contract, as the instructions read it. -/
structure Env where
  Address : Btp.Address
  CallerAddress : Btp.Address
  Input : List UInt8
  value : Nat

/-- What a nested call returns: its output, the gas it leaves over, and its
error. -/
structure CallResult where
  ret : List UInt8
  leftOverGas : Nat
  err : Option VmError

/-- The nested calls of the EVM, made by the contract `caller`. -/
structure Calls (σ : Type) where
  Call : σ → (caller : Env) → Address → List UInt8 → (gas value : Nat) → σ × CallResult
  CallCode : σ → (caller : Env) → Address → List UInt8 → (gas value : Nat) → σ × CallResult
  DelegateCall : σ → (caller : Env) → Address → List UInt8 → (gas : Nat) → σ × CallResult
  StaticCall : σ → (caller : Env) → Address → List UInt8 → (gas : Nat) → σ × CallResult
  Create : σ → (caller : Env) → List UInt8 → (gas value : Nat) → σ × CallResult × Address
  Create2 : σ → (caller : Env) → List UInt8 → (gas endowment salt : Nat) → σ × CallResult × Address

/-- The block and the chain rules in force, as the EVM holds them. -/
structure Context where
  Origin : Address
  GasPrice : Nat
  Coinbase : Address
  GasLimit : Nat
  BlockNumber : Nat
  Time : Nat
  Difficulty : Nat
  Gbtpash : Nat → Hash
  IsHomestead : Bool
  IsEIP150 : Bool
  IsEIP158 : Bool
  IsByzantium : Bool
  IsConstantinople : Bool
  IsPetersburg : Bool
  EnablePreimageRecording : Bool

/-- Everything an instruction reads and does not change. -/
structure Host (σ : Type) where
  db : StateDB σ
  calls : Calls σ
  keccak : List UInt8 → Hash
  ctx : Context
  env : Env

-- a host that answers every query with a default, for running instructions on fixed inputs
deriving instance Inhabited for CallResult, StateDB, Calls, Context, Env, Host

/-- The frame of the running contract: the locals of `Run`, the contract's
gas and jump analysis, the interpreter's return data and `callGasTemp`. -/
structure Frame where
  pc : Nat
  stack : Stack
  memory : Memory
  contract : Contract
  Gas : Nat
  returnData : List UInt8
  callGasTemp : Nat

/-- What an instruction leaves, unless it panics: an error, or its output
with the new frame and state. -/
abbrev ExecOutcome (σ : Type) := Except VmError (List UInt8 × Frame × σ)

/-! ## Instructions on the stack alone -/

/-- Pop `x`, then overwrite the new top `y` with `f x y`: the shape of `opAdd`,
`opSub`, `opDiv`, the comparisons, `opOr`, `opXor` and `opByte`. -/
def popPeek (f : Nat → Nat → Nat) (st : Stack) : Option Stack := do
  let (x, st) ← st.pop
  let y ← st.peek
  st.setTop (f x y)

/-- Pop `x` and `y`, push `f x y`: the shape of `opMul`, `opMod`, `opAnd`,
`opSdiv` and `opSmod`. -/
def popPopPush (f : Nat → Nat → Nat) (st : Stack) : Option Stack := do
  let (x, st) ← st.pop
  let (y, st) ← st.pop
  pure (st.push (f x y))

/-- Pop three, push `f x y z`: `opAddmod`, `opMulmod`. -/
def popPopPopPush (f : Nat → Nat → Nat → Nat) (st : Stack) : Option Stack := do
  let (x, st) ← st.pop
  let (y, st) ← st.pop
  let (z, st) ← st.pop
  pure (st.push (f x y z))

/-- Overwrite the top `x` with `f x`: `opNot`, `opIszero`. -/
def peekSet (f : Nat → Nat) (st : Stack) : Option Stack := do
  let x ← st.peek
  st.setTop (f x)

def opAdd : Stack → Option Stack := popPeek fun x y => U256 (x + y)
def opSub : Stack → Option Stack := popPeek fun x y => U256 ((x : Int) - y)
def opMul : Stack → Option Stack := popPopPush fun x y => U256 (x * y)
def opDiv : Stack → Option Stack := popPeek fun x y => if y ≠ 0 then U256 (x / y) else 0

/-- The signed quotient of `opSdiv`, rounded towards zero. -/
def sdiv (x y : Nat) : Nat :=
  let x := S256 x
  let y := S256 y
  if y = 0 ∨ x = 0 then 0
  else if x.sign ≠ y.sign then U256 (-(x.natAbs / y.natAbs : Nat)) else U256 (x.natAbs / y.natAbs : Nat)

/-- The signed remainder of `opSmod`, with the sign of the dividend. -/
def smod (x y : Nat) : Nat :=
  let x := S256 x
  let y := S256 y
  if y = 0 then 0
  else if x < 0 then U256 (-(x.natAbs % y.natAbs : Nat)) else U256 (x.natAbs % y.natAbs : Nat)

def opSdiv : Stack → Option Stack := popPopPush sdiv
def opMod : Stack → Option Stack := popPopPush fun x y => if y = 0 then 0 else U256 (x % y)
def opSmod : Stack → Option Stack := popPopPush smod

/-- `opExp`, with the shortcuts of the source; `math.Exp` truncates to 256
bits. -/
def opExp : Stack → Option Stack :=
  popPopPush fun base exponent =>
    if exponent < 1 then 1 else if base = 0 then 0 else if exponent = 1 then base
    else base ^ exponent % 2 ^ 256

/-- `opSignExtend`: for `back < 31`, extend the sign bit `8 * back + 7` of the
next item; otherwise that item stays as it is. -/
def opSignExtend (st : Stack) : Option Stack := do
  let (back, st) ← st.pop
  if back < 31 then
    let bit := back * 8 + 7
    let (num, st) ← st.pop
    let ext := if num.testBit bit then U256 ((num % 2 ^ bit : Nat) + (2 ^ 256 - 2 ^ bit : Nat))
      else U256 (num % 2 ^ bit)
    pure (st.push ext)
  else pure st

def opNot : Stack → Option Stack := peekSet fun x => U256 (-(x : Int) - 1)
def opLt : Stack → Option Stack := popPeek fun x y => if x < y then 1 else 0
def opGt : Stack → Option Stack := popPeek fun x y => if x > y then 1 else 0

/-- `opSlt` compares through the sign bit first, as the source does. -/
def opSlt : Stack → Option Stack :=
  popPeek fun x y =>
    if x ≥ 2 ^ 255 ∧ y < 2 ^ 255 then 1 else if x < 2 ^ 255 ∧ y ≥ 2 ^ 255 then 0
    else if x < y then 1 else 0

def opSgt : Stack → Option Stack :=
  popPeek fun x y =>
    if x ≥ 2 ^ 255 ∧ y < 2 ^ 255 then 0 else if x < 2 ^ 255 ∧ y ≥ 2 ^ 255 then 1
    else if x > y then 1 else 0

def opEq : Stack → Option Stack := popPeek fun x y => if x = y then 1 else 0
def opIszero : Stack → Option Stack := peekSet fun x => if x > 0 then 0 else 1
def opAnd : Stack → Option Stack := popPopPush fun x y => x &&& y
def opOr : Stack → Option Stack := popPeek fun x y => x ||| y
def opXor : Stack → Option Stack := popPeek fun x y => x ^^^ y
def opByte : Stack → Option Stack := popPeek fun th val => if th < 32 then byteAt val th else 0

def opAddmod : Stack → Option Stack :=
  popPopPopPush fun x y z => if z > 0 then U256 ((x + y) % z) else 0

def opMulmod : Stack → Option Stack :=
  popPopPopPush fun x y z => if z > 0 then U256 ((x * y) % z) else 0

/-- `opSHL` and `opSHR`: both operands are first truncated to 256 bits. -/
def opSHL : Stack → Option Stack :=
  popPeek fun shift value =>
    if U256 shift ≥ 256 then 0 else U256 (U256 value <<< U256 shift)

def opSHR : Stack → Option Stack :=
  popPeek fun shift value =>
    if U256 shift ≥ 256 then 0 else U256 (U256 value >>> U256 shift)

/-- `opSAR`: an arithmetic shift of the signed value. -/
def opSAR : Stack → Option Stack :=
  popPopPush fun shift value =>
    let value := S256 value
    if U256 shift ≥ 256 then (if value ≥ 0 then 0 else U256 (-1))
    else U256 (value >>> U256 shift)

def opPop (st : Stack) : Option Stack := (st.pop).map (·.2)

/-- `makeDup`. -/
def makeDup (size : Nat) (st : Stack) : Option Stack := st.dup size

/-- `makeSwap`: `size + 1` counts the top. -/
def makeSwap (size : Nat) (st : Stack) : Option Stack := st.swap (size + 1)

/-! ## Instructions on the frame and the state -/

section
variable {σ : Type} (h : Host σ) (f : Frame) (s : σ)

/-- Continue with no output. -/
def next (f : Frame) (s : σ) : Option (ExecOutcome σ) := some (.ok ([], f, s))

/-- Apply an instruction on the stack alone. -/
def onStack (op : Stack → Option Stack) : Option (ExecOutcome σ) :=
  (op f.stack).map fun st => .ok ([], { f with stack := st }, s)

/-- Push a value the instruction reads off the frame or the state. -/
def pushValue (v : Nat) : Option (ExecOutcome σ) := next { f with stack := f.stack.push v } s

/-- Overwrite the top with what `g` makes of it: `opBalance`, `opSload` and the
other lookups through the state. -/
def peekLookup (g : Nat → Nat) : Option (ExecOutcome σ) := do
  let x ← f.stack.peek
  let st ← f.stack.setTop (g x)
  next { f with stack := st } s

def opSha3 : Option (ExecOutcome σ) := do
  let (offset, st) ← f.stack.pop
  let (size, st) ← st.pop
  let data ← f.memory.Get (Int64 offset) (Int64 size)
  let hash := h.keccak data
  let s := if h.ctx.EnablePreimageRecording then h.db.AddPreimage s hash data else s
  next { f with stack := st.push hash.toNat } s

def opBalance : Option (ExecOutcome σ) := peekLookup f s fun slot => h.db.GetBalance s (BigToAddress slot)

def opCallDataLoad : Option (ExecOutcome σ) := do
  let (x, st) ← f.stack.pop
  let d ← getDataBig h.env.Input x 32
  next { f with stack := st.push (SetBytes d) } s

/-- `opCallDataCopy`, `opCodeCopy` and `opExtCodeCopy`: copy `length` bytes of
`data` from `dataOffset`, padded with zeros, to memory at `memOffset`. -/
def copyToMemory (st : Stack) (data : List UInt8) (memOffset dataOffset length : Nat) :
    Option (ExecOutcome σ) := do
  let d ← getDataBig data dataOffset length
  let mem ← f.memory.Set (Uint64 memOffset) (Uint64 length) d
  next { f with stack := st, memory := mem } s

def opCallDataCopy : Option (ExecOutcome σ) := do
  let (memOffset, st) ← f.stack.pop
  let (dataOffset, st) ← st.pop
  let (length, st) ← st.pop
  copyToMemory f s st h.env.Input memOffset dataOffset length

def opCodeCopy : Option (ExecOutcome σ) := do
  let (memOffset, st) ← f.stack.pop
  let (codeOffset, st) ← st.pop
  let (length, st) ← st.pop
  copyToMemory f s st f.contract.Code memOffset codeOffset length

def opExtCodeCopy : Option (ExecOutcome σ) := do
  let (addr, st) ← f.stack.pop
  let (memOffset, st) ← st.pop
  let (codeOffset, st) ← st.pop
  let (length, st) ← st.pop
  copyToMemory f s st (h.db.GetCode s (BigToAddress addr)) memOffset codeOffset length

/-- `opReturnDataCopy`: the end of the copy is checked against the return
data, and a copy past it is an error. -/
def opReturnDataCopy : Option (ExecOutcome σ) := do
  let (memOffset, st) ← f.stack.pop
  let (dataOffset, st) ← st.pop
  let (length, st) ← st.pop
  let e := dataOffset + length
  if !IsUint64 e || f.returnData.length < Uint64 e then some (.error .errReturnDataOutOfBounds)
  else
    let d ← GoSlice.get f.returnData (Uint64 dataOffset) (Uint64 e)
    let mem ← f.memory.Set (Uint64 memOffset) (Uint64 length) d
    next { f with stack := st, memory := mem } s

def opExtCodeSize : Option (ExecOutcome σ) :=
  peekLookup f s fun slot => h.db.GetCodeSize s (BigToAddress slot)

def opExtCodeHash : Option (ExecOutcome σ) :=
  peekLookup f s fun slot =>
    if h.db.Empty s (BigToAddress slot) then 0 else (h.db.GetCodeHash s (BigToAddress slot)).toNat

def opBlockhash : Option (ExecOutcome σ) := do
  let (num, st) ← f.stack.pop
  let n : Int := (h.ctx.BlockNumber : Int) - 257
  let v := if (num : Int) > n ∧ num < h.ctx.BlockNumber then (h.ctx.Gbtpash (Uint64 num)).toNat else 0
  next { f with stack := st.push v } s

def opMload : Option (ExecOutcome σ) := do
  let (offset, st) ← f.stack.pop
  let d ← f.memory.Get (Int64 offset) 32
  next { f with stack := st.push (SetBytes d) } s

def opMstore : Option (ExecOutcome σ) := do
  let (mStart, st) ← f.stack.pop
  let (val, st) ← st.pop
  let mem ← f.memory.Set32 (Uint64 mStart) val
  next { f with stack := st, memory := mem } s

/-- `opMstore8`: `memory.store[off] = byte(val & 0xff)` at an `int64` index. -/
def opMstore8 : Option (ExecOutcome σ) := do
  let (off, st) ← f.stack.pop
  let (val, st) ← st.pop
  let mem ← f.memory.setByte (Int64 off) (Int64 val % 256).toNat.toUInt8
  next { f with stack := st, memory := mem } s

def opSload : Option (ExecOutcome σ) :=
  peekLookup f s fun loc => (h.db.GetState s h.env.Address (BigToHash loc)).toNat

def opSstore : Option (ExecOutcome σ) := do
  let (loc, st) ← f.stack.pop
  let (val, st) ← st.pop
  next { f with stack := st } (h.db.SetState s h.env.Address (BigToHash loc) (BigToHash val))

/-- Jump to `pos` if it is a `JUMPDEST` at an instruction start. -/
def jumpTo (st : Stack) (pos : Nat) : Option (ExecOutcome σ) := do
  let (valid, contract) ← f.contract.validJumpdest pos
  if !valid then some (.error .errInvalidJump)
  else next { f with stack := st, contract, pc := Uint64 pos } s

def opJump : Option (ExecOutcome σ) := do
  let (pos, st) ← f.stack.pop
  jumpTo f s st pos

def opJumpi : Option (ExecOutcome σ) := do
  let (pos, st) ← f.stack.pop
  let (cond, st) ← st.pop
  if cond ≠ 0 then jumpTo f s st pos
  else next { f with stack := st, pc := (f.pc + 1) % 2 ^ 64 } s

/-- `opPush1`: the byte after the opcode, or zero past the end of the code. -/
def opPush1 : Option (ExecOutcome σ) :=
  let pc := (f.pc + 1) % 2 ^ 64
  let v := if pc < f.contract.Code.length then f.contract.Code.getD pc 0 else 0
  next { f with pc, stack := f.stack.push v.toNat } s

/-- `makePush`: `pushByteSize` bytes after the opcode, padded with zeros past
the end of the code. -/
def makePush (size pushByteSize : Nat) : Option (ExecOutcome σ) := do
  let codeLen := f.contract.Code.length
  let startMin := min codeLen (f.pc + 1)
  let endMin := min codeLen (startMin + pushByteSize)
  let d ← GoSlice.get f.contract.Code startMin endMin
  next { f with
    stack := f.stack.push (SetBytes (RightPadBytes d pushByteSize))
    pc := (f.pc + size) % 2 ^ 64 } s

/-- One pass of the loop of `makeLog` over its topics: pop the next one. -/
def popTopic (acc : List Hash × Stack) (_ : Nat) : Option (List Hash × Stack) := do
  let (t, st) ← acc.2.pop
  pure (acc.1 ++ [BigToHash t], st)

/-- `makeLog`: the data and `size` topics. -/
def makeLog (size : Nat) : Option (ExecOutcome σ) := do
  let (mStart, st) ← f.stack.pop
  let (mSize, st) ← st.pop
  let topics ← (List.range size).foldlM popTopic ([], st)
  let d ← f.memory.Get (Int64 mStart) (Int64 mSize)
  let log : Log := ⟨h.env.Address, topics.1, d, h.ctx.BlockNumber⟩
  next { f with stack := topics.2 } (h.db.AddLog s log)

/-- The gas a `CREATE` hands over: all but one 64th under EIP-150. -/
def createGas (eip150 : Bool) (gas : Nat) : Nat := if eip150 then gas - gas / 64 else gas

/-- `opCreate`. The callee's gas is taken off first and what it leaves over
given back after. -/
def opCreate : Option (ExecOutcome σ) := do
  let (value, st) ← f.stack.pop
  let (offset, st) ← st.pop
  let (size, st) ← st.pop
  let input ← f.memory.Get (Int64 offset) (Int64 size)
  let gas := createGas h.ctx.IsEIP150 f.Gas
  let (s, r, addr) := h.calls.Create s h.env input gas value
  let pushed := if h.ctx.IsHomestead ∧ r.err = some .ErrCodeStoreOutOfGas then 0
    else if r.err.isSome ∧ r.err ≠ some .ErrCodeStoreOutOfGas then 0 else addr.toNat
  let f := { f with stack := st.push pushed, Gas := (f.Gas - gas + r.leftOverGas) % 2 ^ 64 }
  some (.ok (if r.err = some .errExecutionReverted then r.ret else [], f, s))

def opCreate2 : Option (ExecOutcome σ) := do
  let (endowment, st) ← f.stack.pop
  let (offset, st) ← st.pop
  let (size, st) ← st.pop
  let (salt, st) ← st.pop
  let input ← f.memory.Get (Int64 offset) (Int64 size)
  let gas := createGas true f.Gas
  let (s, r, addr) := h.calls.Create2 s h.env input gas endowment salt
  let pushed := if r.err.isSome then 0 else addr.toNat
  let f := { f with stack := st.push pushed, Gas := (f.Gas - gas + r.leftOverGas) % 2 ^ 64 }
  some (.ok (if r.err = some .errExecutionReverted then r.ret else [], f, s))

/-- The end of every call instruction: push whether the callee succeeded, copy
its output to memory unless it failed otherwise than by reverting, and take
back the gas it left. -/
def afterCall (st : Stack) (retOffset retSize : Nat) (r : CallResult) : Option (ExecOutcome σ) := do
  let st := st.push (if r.err.isSome then 0 else 1)
  let mem ← if r.err = none ∨ r.err = some .errExecutionReverted then
      f.memory.Set (Uint64 retOffset) (Uint64 retSize) r.ret
    else some f.memory
  some (.ok (r.ret, { f with stack := st, memory := mem, Gas := (f.Gas + r.leftOverGas) % 2 ^ 64 }, s))

/-- `opCall`: the gas popped is replaced by `callGasTemp`, which the gas
function computed, and a value transfer adds the stipend. -/
def opCall : Option (ExecOutcome σ) := do
  let (_, st) ← f.stack.pop
  let (addr, st) ← st.pop
  let (value, st) ← st.pop
  let (inOffset, st) ← st.pop
  let (inSize, st) ← st.pop
  let (retOffset, st) ← st.pop
  let (retSize, st) ← st.pop
  let value := U256 value
  let args ← f.memory.Get (Int64 inOffset) (Int64 inSize)
  let gas := if value ≠ 0 then (f.callGasTemp + CallStipend) % 2 ^ 64 else f.callGasTemp
  let (s, r) := h.calls.Call s h.env (BigToAddress addr) args gas value
  afterCall f s st retOffset retSize r

def opCallCode : Option (ExecOutcome σ) := do
  let (_, st) ← f.stack.pop
  let (addr, st) ← st.pop
  let (value, st) ← st.pop
  let (inOffset, st) ← st.pop
  let (inSize, st) ← st.pop
  let (retOffset, st) ← st.pop
  let (retSize, st) ← st.pop
  let value := U256 value
  let args ← f.memory.Get (Int64 inOffset) (Int64 inSize)
  let gas := if value ≠ 0 then (f.callGasTemp + CallStipend) % 2 ^ 64 else f.callGasTemp
  let (s, r) := h.calls.CallCode s h.env (BigToAddress addr) args gas value
  afterCall f s st retOffset retSize r

def opDelegateCall : Option (ExecOutcome σ) := do
  let (_, st) ← f.stack.pop
  let (addr, st) ← st.pop
  let (inOffset, st) ← st.pop
  let (inSize, st) ← st.pop
  let (retOffset, st) ← st.pop
  let (retSize, st) ← st.pop
  let args ← f.memory.Get (Int64 inOffset) (Int64 inSize)
  let (s, r) := h.calls.DelegateCall s h.env (BigToAddress addr) args f.callGasTemp
  afterCall f s st retOffset retSize r

def opStaticCall : Option (ExecOutcome σ) := do
  let (_, st) ← f.stack.pop
  let (addr, st) ← st.pop
  let (inOffset, st) ← st.pop
  let (inSize, st) ← st.pop
  let (retOffset, st) ← st.pop
  let (retSize, st) ← st.pop
  let args ← f.memory.Get (Int64 inOffset) (Int64 inSize)
  let (s, r) := h.calls.StaticCall s h.env (BigToAddress addr) args f.callGasTemp
  afterCall f s st retOffset retSize r

/-- `opReturn` and `opRevert`: the output is the memory range itself. -/
def opReturn : Option (ExecOutcome σ) := do
  let (offset, st) ← f.stack.pop
  let (size, st) ← st.pop
  let ret ← f.memory.GetPtr (Int64 offset) (Int64 size)
  some (.ok (ret, { f with stack := st }, s))

def opRevert : Option (ExecOutcome σ) := opReturn f s

def opSuicide : Option (ExecOutcome σ) := do
  let balance := h.db.GetBalance s h.env.Address
  let (beneficiary, st) ← f.stack.pop
  let s := h.db.AddBalance s (BigToAddress beneficiary) balance
  next { f with stack := st } (h.db.Suicide s h.env.Address).2

end

/-! ## The execute functions of the jump table -/

/-- The execute functions, by their names in the source. -/
inductive Execute
  | opStop | opAdd | opMul | opSub | opDiv | opSdiv | opMod | opSmod | opAddmod | opMulmod
  | opExp | opSignExtend | opLt | opGt | opSlt | opSgt | opEq | opIszero | opAnd | opOr | opXor
  | opNot | opByte | opSHL | opSHR | opSAR | opSha3 | opAddress | opBalance | opOrigin | opCaller
  | opCallValue | opCallDataLoad | opCallDataSize | opCallDataCopy | opCodeSize | opCodeCopy
  | opGasprice | opExtCodeSize | opExtCodeCopy | opReturnDataSize | opReturnDataCopy
  | opExtCodeHash | opBlockhash | opCoinbase | opTimestamp | opNumber | opDifficulty | opGasLimit
  | opPop | opMload | opMstore | opMstore8 | opSload | opSstore | opJump | opJumpi | opPc | opMsize
  | opGas | opJumpdest | opPush1 | makePush (size pushByteSize : Nat) | makeDup (size : Nat)
  | makeSwap (size : Nat) | makeLog (size : Nat) | opCreate | opCall | opCallCode | opReturn
  | opDelegateCall | opCreate2 | opStaticCall | opRevert | opSuicide
  deriving DecidableEq, Repr

namespace Execute

variable {σ : Type} (h : Host σ) (f : Frame) (s : σ)

/-- Run an execute function. -/
def run : Execute → Option (ExecOutcome σ)
  | opStop => next f s
  | opAdd => onStack f s Vm.opAdd
  | opMul => onStack f s Vm.opMul
  | opSub => onStack f s Vm.opSub
  | opDiv => onStack f s Vm.opDiv
  | opSdiv => onStack f s Vm.opSdiv
  | opMod => onStack f s Vm.opMod
  | opSmod => onStack f s Vm.opSmod
  | opAddmod => onStack f s Vm.opAddmod
  | opMulmod => onStack f s Vm.opMulmod
  | opExp => onStack f s Vm.opExp
  | opSignExtend => onStack f s Vm.opSignExtend
  | opLt => onStack f s Vm.opLt
  | opGt => onStack f s Vm.opGt
  | opSlt => onStack f s Vm.opSlt
  | opSgt => onStack f s Vm.opSgt
  | opEq => onStack f s Vm.opEq
  | opIszero => onStack f s Vm.opIszero
  | opAnd => onStack f s Vm.opAnd
  | opOr => onStack f s Vm.opOr
  | opXor => onStack f s Vm.opXor
  | opNot => onStack f s Vm.opNot
  | opByte => onStack f s Vm.opByte
  | opSHL => onStack f s Vm.opSHL
  | opSHR => onStack f s Vm.opSHR
  | opSAR => onStack f s Vm.opSAR
  | opSha3 => Vm.opSha3 h f s
  | opAddress => pushValue f s h.env.Address.toNat
  | opBalance => Vm.opBalance h f s
  | opOrigin => pushValue f s h.ctx.Origin.toNat
  | opCaller => pushValue f s h.env.CallerAddress.toNat
  | opCallValue => pushValue f s h.env.value
  | opCallDataLoad => Vm.opCallDataLoad h f s
  | opCallDataSize => pushValue f s h.env.Input.length
  | opCallDataCopy => Vm.opCallDataCopy h f s
  | opCodeSize => pushValue f s f.contract.Code.length
  | opCodeCopy => Vm.opCodeCopy f s
  | opGasprice => pushValue f s h.ctx.GasPrice
  | opExtCodeSize => Vm.opExtCodeSize h f s
  | opExtCodeCopy => Vm.opExtCodeCopy h f s
  | opReturnDataSize => pushValue f s f.returnData.length
  | opReturnDataCopy => Vm.opReturnDataCopy f s
  | opExtCodeHash => Vm.opExtCodeHash h f s
  | opBlockhash => Vm.opBlockhash h f s
  | opCoinbase => pushValue f s h.ctx.Coinbase.toNat
  | opTimestamp => pushValue f s (U256 h.ctx.Time)
  | opNumber => pushValue f s (U256 h.ctx.BlockNumber)
  | opDifficulty => pushValue f s (U256 h.ctx.Difficulty)
  | opGasLimit => pushValue f s (U256 h.ctx.GasLimit)
  | opPop => onStack f s Vm.opPop
  | opMload => Vm.opMload f s
  | opMstore => Vm.opMstore f s
  | opMstore8 => Vm.opMstore8 f s
  | opSload => Vm.opSload h f s
  | opSstore => Vm.opSstore h f s
  | opJump => Vm.opJump f s
  | opJumpi => Vm.opJumpi f s
  | opPc => pushValue f s f.pc
  | opMsize => pushValue f s f.memory.Len
  | opGas => pushValue f s f.Gas
  | opJumpdest => next f s
  | opPush1 => Vm.opPush1 f s
  | makePush size pushByteSize => Vm.makePush f s size pushByteSize
  | makeDup size => onStack f s (Vm.makeDup size)
  | makeSwap size => onStack f s (Vm.makeSwap size)
  | makeLog size => Vm.makeLog h f s size
  | opCreate => Vm.opCreate h f s
  | opCall => Vm.opCall h f s
  | opCallCode => Vm.opCallCode h f s
  | opReturn => Vm.opReturn f s
  | opDelegateCall => Vm.opDelegateCall h f s
  | opCreate2 => Vm.opCreate2 h f s
  | opStaticCall => Vm.opStaticCall h f s
  | opRevert => Vm.opRevert f s
  | opSuicide => Vm.opSuicide h f s

end Execute

end Btp.Vm
