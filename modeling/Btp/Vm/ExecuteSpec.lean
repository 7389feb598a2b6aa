import Mathlib
import Btp.Lib.Returns
import Btp.Vm.Instructions

/-!
# What the execute functions need and what they leave

For every execute function: the items it pops and pushes, the memory-size
function of `memory_table.go` whose range covers its memory accesses, and
`Execute.run_returns`: on a frame with that many items and a memory that
covers that range, the function returns (it reads no stack slot and no byte
outside the stack, the memory or its source), leaving the stack at its new
height and the memory's length and paid cost as they were.
-/

namespace Btp.Vm

open OptionSpec

namespace Execute

/-- The items an execute function takes off the stack. -/
def pops : Execute → Nat
  | opStop | opAddress | opOrigin | opCaller | opCallValue | opCallDataSize | opCodeSize
  | opGasprice | opReturnDataSize | opCoinbase | opTimestamp | opNumber | opDifficulty
  | opGasLimit | opPc | opMsize | opGas | opJumpdest | opPush1 | makePush _ _ => 0
  | opIszero | opNot | opBalance | opCallDataLoad | opExtCodeSize | opExtCodeHash | opBlockhash
  | opPop | opMload | opSload | opJump | opSuicide => 1
  | opAdd | opMul | opSub | opDiv | opSdiv | opMod | opSmod | opExp | opSignExtend | opLt | opGt
  | opSlt | opSgt | opEq | opAnd | opOr | opXor | opByte | opSHL | opSHR | opSAR | opSha3
  | opMstore | opMstore8 | opSstore | opJumpi | opReturn | opRevert => 2
  | opAddmod | opMulmod | opCallDataCopy | opCodeCopy | opReturnDataCopy | opCreate => 3
  | opExtCodeCopy | opCreate2 => 4
  | opDelegateCall | opStaticCall => 6
  | opCall | opCallCode => 7
  | makeDup size => size
  | makeSwap size => size + 1
  | makeLog size => size + 2

/-- The items an execute function puts on the stack, counting those a `DUP`
or `SWAP` puts back. -/
def pushes : Execute → Nat
  | opStop | opJumpdest | opPop | opMstore | opMstore8 | opSstore | opJump | opJumpi | opReturn
  | opRevert | opSuicide | opCallDataCopy | opCodeCopy | opReturnDataCopy | opExtCodeCopy
  | makeLog _ => 0
  | makeDup size => size + 1
  | makeSwap size => size + 1
  | _ => 1

/-- The memory-size function whose range covers the memory an execute
function reads or writes. -/
def memory : Execute → Option MemorySizeFunc
  | opSha3 => some .memorySha3
  | opCallDataCopy => some .memoryCallDataCopy
  | opReturnDataCopy => some .memoryReturnDataCopy
  | opCodeCopy => some .memoryCodeCopy
  | opExtCodeCopy => some .memoryExtCodeCopy
  | opMload => some .memoryMLoad
  | opMstore8 => some .memoryMStore8
  | opMstore => some .memoryMStore
  | opCreate => some .memoryCreate
  | opCreate2 => some .memoryCreate2
  | opCall | opCallCode => some .memoryCall
  | opDelegateCall => some .memoryDelegateCall
  | opStaticCall => some .memoryStaticCall
  | opReturn => some .memoryReturn
  | opRevert => some .memoryRevert
  | makeLog _ => some .memoryLog
  | _ => none

/-- `DUP0` would duplicate nothing: `Stack.dup` refuses it. -/
def admissible : Execute → Bool
  | makeDup size => size != 0
  | _ => true

end Execute

/-- The byte slices the host hands to the instructions are shorter than
`2^64`, as the length of a Go slice is an `int`. -/
structure Host.SliceBounded {σ : Type} (h : Host σ) : Prop where
  input : h.env.Input.length < 2 ^ 64
  code : ∀ s a, (h.db.GetCode s a).length < 2 ^ 64

/-- The memory reaches the end of the range a memory-size function computes
on the stack, and that range does not overflow. -/
def Covers (mem : Memory) (stack : Stack) : Option MemorySizeFunc → Prop
  | none => True
  | some m => ∃ n, m.run stack = some (n, false) ∧ n ≤ mem.Len

/-- What an execute function needs of its frame: the items it pops, a memory
that covers its range and is shorter than the `int64` bound, and a contract
whose code fits a `uint64` and whose jump analyses are sound. -/
structure Ready (codeOf : Hash → List UInt8) (x : Execute) (f : Frame) : Prop where
  admissible : x.admissible = true
  stack : x.pops ≤ f.stack.len
  memory : Covers f.memory f.stack x.memory
  memLen : f.memory.Len < 2 ^ 63
  code : f.contract.Code.length < 2 ^ 64
  cache : f.contract.CacheSound codeOf

/-- What an execute function that ends well leaves of its frame: `n` items on
the stack, the memory as long and as paid for as before, and the same code
with sound caches. -/
structure Frame.Keeps (codeOf : Hash → List UInt8) (f : Frame) (n : Nat) (f' : Frame) :
    Prop where
  len : f'.stack.len = n
  memLen : f'.memory.Len = f.memory.Len
  memCost : f'.memory.lastGasCost = f.memory.lastGasCost
  code : f'.contract.Code = f.contract.Code
  cache : f'.contract.CacheSound codeOf

/-- The postcondition of an execute function: an error, or a frame it keeps
with `n` items on the stack. -/
def Leaves {σ : Type} (codeOf : Hash → List UInt8) (f : Frame) (n : Nat) :
    ExecOutcome σ → Prop
  | .ok (_, f', _) => f.Keeps codeOf n f'
  | .error _ => True

@[simp] theorem leaves_error {σ : Type} {codeOf : Hash → List UInt8} {f : Frame} {n : Nat}
    {e : VmError} : Leaves (σ := σ) codeOf f n (.error e) := trivial

/-- The range an execute function's memory-size function computes is covered.
Each instruction's proof finds its function by evaluating `x.memory`, which
keeps the many-armed match of `Execute.memory` out of `simp`. -/
theorem Ready.covers {codeOf : Hash → List UInt8} {x : Execute} {f : Frame} {m : MemorySizeFunc}
    (hr : Ready codeOf x f) (hx : x.memory = some m) :
    ∃ n, m.run f.stack = some (n, false) ∧ n ≤ f.memory.Len := by
  have hc := hr.memory
  rw [hx] at hc
  exact hc

/-! ## Ranges -/

theorem covers_of_calcMemSize64 {mem : Memory} {off l n : Nat}
    (h : calcMemSize64 off l = (n, false)) (hn : n ≤ mem.Len) : l = 0 ∨ off + l ≤ mem.Len := by
  rcases calcMemSize64_eq h with ⟨hl, -⟩ | ⟨rfl, -⟩
  · exact .inl hl
  · exact .inr hn

theorem covers_of_calcMemSize64WithUint {mem : Memory} {off l n : Nat} (hl : l < 2 ^ 64)
    (h : calcMemSize64WithUint off l = (n, false)) (hn : n ≤ mem.Len) :
    l = 0 ∨ off + l ≤ mem.Len := by
  rcases calcMemSize64WithUint_eq hl h with ⟨hl, -⟩ | ⟨rfl, -⟩
  · exact .inl hl
  · exact .inr hn

/-- A range that its memory-size function finds covered can be read. -/
theorem get_of_calcMemSize64 {mem : Memory} {off l n : Nat}
    (h : calcMemSize64 off l = (n, false)) (hn : n ≤ mem.Len) (hm : mem.Len < 2 ^ 63) :
    ∃ d, mem.Get (Int64 off) (Int64 l) = some d :=
  Option.isSome_iff_exists.mp (Memory.Get_isSome (covers_of_calcMemSize64 h hn) hm)

/-- The larger end of two ranges that do not overflow bounds both. -/
theorem maxMemSize_eq {x y : Nat × Bool} {n : Nat} (h : maxMemSize x y = (n, false)) :
    ∃ a b, x = (a, false) ∧ y = (b, false) ∧ a ≤ n ∧ b ≤ n := by
  obtain ⟨x₁, x₂⟩ := x
  obtain ⟨y₁, y₂⟩ := y
  -- an overflow on either side is reported as `(0, true)`
  cases x₂ <;> cases y₂ <;>
    simp only [maxMemSize, if_true, if_false, Bool.false_eq_true, Prod.mk.injEq,
      Bool.true_eq_false, and_false] at h
  split_ifs at h with hxy <;> obtain ⟨rfl, -⟩ := Prod.mk.inj h <;>
    exact ⟨x₁, y₁, rfl, rfl, by omega, by omega⟩

/-- The two ranges of a call, both covered when their larger end is. -/
theorem covers_of_maxMemSize {mem : Memory} {o₁ l₁ o₂ l₂ n : Nat}
    (h : maxMemSize (calcMemSize64 o₁ l₁) (calcMemSize64 o₂ l₂) = (n, false))
    (hn : n ≤ mem.Len) : (l₁ = 0 ∨ o₁ + l₁ ≤ mem.Len) ∧ (l₂ = 0 ∨ o₂ + l₂ ≤ mem.Len) := by
  obtain ⟨a, b, ha, hb, hab, hbb⟩ := maxMemSize_eq h
  exact ⟨covers_of_calcMemSize64 ha (by omega), covers_of_calcMemSize64 hb (by omega)⟩

/-! ## Instructions on the stack -/

section Stack
variable {st : Stack}

theorem popPeek_returns (g : Nat → Nat → Nat) (hst : 2 ≤ st.len) :
    Returns (fun st' : Stack => st'.len = st.len - 2 + 1) (popPeek g st) := by
  obtain ⟨x, st, rfl, hlen⟩ := Stack.exists_push hst
  obtain ⟨y, st, rfl, -⟩ := Stack.exists_push hlen
  simp [popPeek]

theorem popPopPush_returns (g : Nat → Nat → Nat) (hst : 2 ≤ st.len) :
    Returns (fun st' : Stack => st'.len = st.len - 2 + 1) (popPopPush g st) := by
  obtain ⟨x, st, rfl, hlen⟩ := Stack.exists_push hst
  obtain ⟨y, st, rfl, -⟩ := Stack.exists_push hlen
  simp [popPopPush]

theorem popPopPopPush_returns (g : Nat → Nat → Nat → Nat) (hst : 3 ≤ st.len) :
    Returns (fun st' : Stack => st'.len = st.len - 3 + 1) (popPopPopPush g st) := by
  obtain ⟨x, st, rfl, h₁⟩ := Stack.exists_push hst
  obtain ⟨y, st, rfl, h₂⟩ := Stack.exists_push h₁
  obtain ⟨z, st, rfl, -⟩ := Stack.exists_push h₂
  simp [popPopPopPush]

theorem peekSet_returns (g : Nat → Nat) (hst : 1 ≤ st.len) :
    Returns (fun st' : Stack => st'.len = st.len - 1 + 1) (peekSet g st) := by
  obtain ⟨x, st, rfl, -⟩ := Stack.exists_push hst
  simp [peekSet]

theorem opSignExtend_returns (hst : 2 ≤ st.len) :
    Returns (fun st' : Stack => st'.len = st.len - 2 + 1) (opSignExtend st) := by
  obtain ⟨back, st, rfl, hlen⟩ := Stack.exists_push hst
  obtain ⟨num, st, rfl, -⟩ := Stack.exists_push hlen
  simp only [opSignExtend, Stack.pop_push, Option.bind_eq_bind, Option.bind_some]
  split_ifs <;> simp

theorem opPop_returns (hst : 1 ≤ st.len) :
    Returns (fun st' : Stack => st'.len = st.len - 1 + 0) (opPop st) := by
  obtain ⟨x, st, rfl, -⟩ := Stack.exists_push hst
  simp [opPop]

theorem makeDup_returns {size : Nat} (hsize : 0 < size) (hst : size ≤ st.len) :
    Returns (fun st' : Stack => st'.len = st.len - size + (size + 1)) (makeDup size st) := by
  obtain ⟨d, hd⟩ := Stack.dup_eq hsize hst
  refine returns_of_eq hd ?_
  simp only [Stack.len_push]
  omega

theorem makeSwap_returns {size : Nat} (hst : size + 1 ≤ st.len) :
    Returns (fun st' : Stack => st'.len = st.len - (size + 1) + (size + 1)) (makeSwap size st) := by
  obtain ⟨st', hsw, hlen⟩ := Stack.swap_eq (Nat.succ_pos size) hst
  refine returns_of_eq hsw ?_
  omega

end Stack

/-! ## Instructions on the frame -/

section Frame
variable {σ : Type} {codeOf : Hash → List UInt8} {h : Host σ} {f : Frame} {s : σ}

theorem onStack_returns {op : Stack → Option Stack} {n : Nat}
    (hop : Returns (fun st' : Stack => st'.len = n) (op f.stack))
    (hc : f.contract.CacheSound codeOf) : Returns (Leaves codeOf f n) (onStack f s op) :=
  hop.map fun _ hst => ⟨hst, rfl, rfl, rfl, hc⟩

theorem pushValue_returns (v : Nat) (hc : f.contract.CacheSound codeOf) :
    Returns (Leaves codeOf f (f.stack.len - 0 + 1)) (pushValue f s v) :=
  returns_some ⟨by simp, rfl, rfl, rfl, hc⟩

theorem next_returns (hc : f.contract.CacheSound codeOf) :
    Returns (Leaves codeOf f (f.stack.len - 0 + 0)) (next f s) :=
  returns_some ⟨by simp, rfl, rfl, rfl, hc⟩

theorem peekLookup_returns (g : Nat → Nat) (hst : 1 ≤ f.stack.len)
    (hc : f.contract.CacheSound codeOf) :
    Returns (Leaves codeOf f (f.stack.len - 1 + 1)) (peekLookup f s g) := by
  obtain ⟨x, st, hst, -⟩ := Stack.exists_push hst
  simp only [peekLookup, hst, Stack.peek_push, Stack.setTop_push, Option.bind_eq_bind,
    Option.bind_some, next, returns_some_iff]
  exact ⟨by simp, rfl, rfl, rfl, hc⟩

theorem opSha3_returns (hr : Ready codeOf .opSha3 f) :
    Returns (Leaves codeOf f (f.stack.len - 2 + 1)) (opSha3 h f s) := by
  obtain ⟨offset, st, hst, hlen⟩ := Stack.exists_push hr.stack
  obtain ⟨size, st, rfl, -⟩ := Stack.exists_push hlen
  obtain ⟨n, hn, hle⟩ : ∃ n, calcMemSize64 offset size = (n, false) ∧ n ≤ f.memory.Len := by
    simpa [MemorySizeFunc.run, hst] using hr.covers rfl
  obtain ⟨data, hdata⟩ := get_of_calcMemSize64 hn hle hr.memLen
  simp only [opSha3, hst, Stack.pop_push, hdata, Option.bind_eq_bind, Option.bind_some, next,
    returns_some_iff]
  exact ⟨by simp, rfl, rfl, rfl, hr.cache⟩

theorem opCallDataLoad_returns (hh : h.SliceBounded) (hr : Ready codeOf .opCallDataLoad f) :
    Returns (Leaves codeOf f (f.stack.len - 1 + 1)) (opCallDataLoad h f s) := by
  obtain ⟨x, st, hst, -⟩ := Stack.exists_push hr.stack
  obtain ⟨d, hd⟩ := Option.isSome_iff_exists.mp (getDataBig_isSome h.env.Input x 32 hh.input)
  simp only [opCallDataLoad, hst, Stack.pop_push, hd, Option.bind_eq_bind, Option.bind_some,
    next, returns_some_iff]
  exact ⟨by simp, rfl, rfl, rfl, hr.cache⟩

/-- The copies into memory write within it when their range is covered. -/
theorem copyToMemory_returns {st : Stack} {data : List UInt8} {memOffset dataOffset length : Nat}
    (hd : data.length < 2 ^ 64) (hcov : length = 0 ∨ memOffset + length ≤ f.memory.Len)
    (hm : f.memory.Len < 2 ^ 63) (hc : f.contract.CacheSound codeOf) :
    Returns (Leaves codeOf f st.len) (copyToMemory f s st data memOffset dataOffset length) := by
  obtain ⟨d, hget⟩ := Option.isSome_iff_exists.mp (getDataBig_isSome data dataOffset length hd)
  obtain ⟨mem, hset, hlen, hcost⟩ := Memory.Set_eq hcov (by omega) d
  simp only [copyToMemory, hget, hset, Option.bind_eq_bind, Option.bind_some, next,
    returns_some_iff]
  exact ⟨rfl, hlen, hcost, rfl, hc⟩

theorem opCallDataCopy_returns (hh : h.SliceBounded) (hr : Ready codeOf .opCallDataCopy f) :
    Returns (Leaves codeOf f (f.stack.len - 3 + 0)) (opCallDataCopy h f s) := by
  obtain ⟨memOffset, st, hst, h₁⟩ := Stack.exists_push hr.stack
  obtain ⟨dataOffset, st, rfl, h₂⟩ := Stack.exists_push h₁
  obtain ⟨length, st, rfl, -⟩ := Stack.exists_push h₂
  obtain ⟨n, hn, hle⟩ : ∃ n, calcMemSize64 memOffset length = (n, false) ∧ n ≤ f.memory.Len := by
    simpa [MemorySizeFunc.run, hst] using hr.covers rfl
  simp only [opCallDataCopy, hst, Stack.pop_push, Option.bind_eq_bind, Option.bind_some]
  refine (copyToMemory_returns hh.input (covers_of_calcMemSize64 hn hle) hr.memLen
    hr.cache).mono fun r hr' => ?_
  simpa [hst] using hr'

theorem opCodeCopy_returns (hr : Ready codeOf .opCodeCopy f) :
    Returns (Leaves codeOf f (f.stack.len - 3 + 0)) (opCodeCopy f s) := by
  obtain ⟨memOffset, st, hst, h₁⟩ := Stack.exists_push hr.stack
  obtain ⟨codeOffset, st, rfl, h₂⟩ := Stack.exists_push h₁
  obtain ⟨length, st, rfl, -⟩ := Stack.exists_push h₂
  obtain ⟨n, hn, hle⟩ : ∃ n, calcMemSize64 memOffset length = (n, false) ∧ n ≤ f.memory.Len := by
    simpa [MemorySizeFunc.run, hst] using hr.covers rfl
  simp only [opCodeCopy, hst, Stack.pop_push, Option.bind_eq_bind, Option.bind_some]
  refine (copyToMemory_returns hr.code (covers_of_calcMemSize64 hn hle) hr.memLen
    hr.cache).mono fun r hr' => ?_
  simpa [hst] using hr'

theorem opExtCodeCopy_returns (hh : h.SliceBounded) (hr : Ready codeOf .opExtCodeCopy f) :
    Returns (Leaves codeOf f (f.stack.len - 4 + 0)) (opExtCodeCopy h f s) := by
  obtain ⟨addr, st, hst, h₁⟩ := Stack.exists_push hr.stack
  obtain ⟨memOffset, st, rfl, h₂⟩ := Stack.exists_push h₁
  obtain ⟨codeOffset, st, rfl, h₃⟩ := Stack.exists_push h₂
  obtain ⟨length, st, rfl, -⟩ := Stack.exists_push h₃
  obtain ⟨n, hn, hle⟩ : ∃ n, calcMemSize64 memOffset length = (n, false) ∧ n ≤ f.memory.Len := by
    simpa [MemorySizeFunc.run, hst] using hr.covers rfl
  simp only [opExtCodeCopy, hst, Stack.pop_push, Option.bind_eq_bind, Option.bind_some]
  refine (copyToMemory_returns (hh.code _ _) (covers_of_calcMemSize64 hn hle) hr.memLen
    hr.cache).mono fun r hr' => ?_
  simpa [hst] using hr'

/-- `RETURNDATACOPY` reads the return data only after checking the end of the
copy against it. -/
theorem opReturnDataCopy_returns (hr : Ready codeOf .opReturnDataCopy f) :
    Returns (Leaves codeOf f (f.stack.len - 3 + 0)) (opReturnDataCopy f s) := by
  obtain ⟨memOffset, st, hst, h₁⟩ := Stack.exists_push hr.stack
  obtain ⟨dataOffset, st, rfl, h₂⟩ := Stack.exists_push h₁
  obtain ⟨length, st, rfl, -⟩ := Stack.exists_push h₂
  obtain ⟨n, hn, hle⟩ : ∃ n, calcMemSize64 memOffset length = (n, false) ∧ n ≤ f.memory.Len := by
    simpa [MemorySizeFunc.run, hst] using hr.covers rfl
  simp only [opReturnDataCopy, hst, Stack.pop_push, Option.bind_eq_bind, Option.bind_some]
  split_ifs with hout
  · exact returns_some trivial
  · simp only [IsUint64, Bool.or_eq_true, Bool.not_eq_true', decide_eq_false_iff_not, not_lt,
      decide_eq_true_eq, not_or] at hout
    obtain ⟨hend, hret⟩ := hout
    rw [Uint64_of_lt (not_le.mp hend)] at hret ⊢
    rw [Uint64_of_lt (x := dataOffset) (by omega)]
    obtain ⟨mem, hset, hlen, hcost⟩ :=
      Memory.Set_eq (covers_of_calcMemSize64 hn hle) (by have := hr.memLen; omega)
        ((f.returnData.drop dataOffset).take (dataOffset + length - dataOffset))
    simp only [GoSlice.get_of_le (Nat.le_add_right dataOffset length) hret, Option.bind_some,
      hset, next, returns_some_iff]
    exact ⟨by simp, hlen, hcost, rfl, hr.cache⟩

theorem opBlockhash_returns (hr : Ready codeOf .opBlockhash f) :
    Returns (Leaves codeOf f (f.stack.len - 1 + 1)) (opBlockhash h f s) := by
  obtain ⟨num, st, hst, -⟩ := Stack.exists_push hr.stack
  simp only [opBlockhash, hst, Stack.pop_push, Option.bind_eq_bind, Option.bind_some, next,
    returns_some_iff]
  exact ⟨by simp, rfl, rfl, rfl, hr.cache⟩

theorem opMload_returns (hr : Ready codeOf .opMload f) :
    Returns (Leaves codeOf f (f.stack.len - 1 + 1)) (opMload f s) := by
  obtain ⟨offset, st, hst, -⟩ := Stack.exists_push hr.stack
  obtain ⟨n, hn, hle⟩ : ∃ n, calcMemSize64WithUint offset 32 = (n, false) ∧ n ≤ f.memory.Len := by
    simpa [MemorySizeFunc.run, hst] using hr.covers rfl
  have h32 : (32 : Int) = Int64 32 := (Int64_of_lt (by norm_num)).symm
  obtain ⟨d, hd⟩ := Option.isSome_iff_exists.mp (h32 ▸ Memory.Get_isSome
    (covers_of_calcMemSize64WithUint (by norm_num) hn hle) hr.memLen)
  simp only [opMload, hst, Stack.pop_push, hd, Option.bind_eq_bind, Option.bind_some, next,
    returns_some_iff]
  exact ⟨by simp, rfl, rfl, rfl, hr.cache⟩

theorem opMstore_returns (hr : Ready codeOf .opMstore f) :
    Returns (Leaves codeOf f (f.stack.len - 2 + 0)) (opMstore f s) := by
  obtain ⟨mStart, st, hst, hlen⟩ := Stack.exists_push hr.stack
  obtain ⟨val, st, rfl, -⟩ := Stack.exists_push hlen
  obtain ⟨n, hn, hle⟩ : ∃ n, calcMemSize64WithUint mStart 32 = (n, false) ∧ n ≤ f.memory.Len := by
    simpa [MemorySizeFunc.run, hst] using hr.covers rfl
  have hend : mStart + 32 ≤ f.memory.Len :=
    (covers_of_calcMemSize64WithUint (by norm_num) hn hle).resolve_left (by norm_num)
  obtain ⟨mem, hset, hlen, hcost⟩ := Memory.Set32_eq hend (by have := hr.memLen; omega) val
  simp only [opMstore, hst, Stack.pop_push, hset, Option.bind_eq_bind, Option.bind_some, next,
    returns_some_iff]
  exact ⟨by simp, hlen, hcost, rfl, hr.cache⟩

theorem opMstore8_returns (hr : Ready codeOf .opMstore8 f) :
    Returns (Leaves codeOf f (f.stack.len - 2 + 0)) (opMstore8 f s) := by
  obtain ⟨off, st, hst, hlen⟩ := Stack.exists_push hr.stack
  obtain ⟨val, st, rfl, -⟩ := Stack.exists_push hlen
  obtain ⟨n, hn, hle⟩ : ∃ n, calcMemSize64WithUint off 1 = (n, false) ∧ n ≤ f.memory.Len := by
    simpa [MemorySizeFunc.run, hst] using hr.covers rfl
  have hend : off + 1 ≤ f.memory.Len :=
    (covers_of_calcMemSize64WithUint (by norm_num) hn hle).resolve_left (by norm_num)
  obtain ⟨mem, hset, hlen, hcost⟩ := Memory.setByte_eq hend hr.memLen (Int64 val % 256).toNat.toUInt8
  simp only [opMstore8, hst, Stack.pop_push, hset, Option.bind_eq_bind, Option.bind_some, next,
    returns_some_iff]
  exact ⟨by simp, hlen, hcost, rfl, hr.cache⟩

theorem opSstore_returns (hr : Ready codeOf .opSstore f) :
    Returns (Leaves codeOf f (f.stack.len - 2 + 0)) (opSstore h f s) := by
  obtain ⟨loc, st, hst, hlen⟩ := Stack.exists_push hr.stack
  obtain ⟨val, st, rfl, -⟩ := Stack.exists_push hlen
  simp only [opSstore, hst, Stack.pop_push, Option.bind_eq_bind, Option.bind_some, next,
    returns_some_iff]
  exact ⟨by simp, rfl, rfl, rfl, hr.cache⟩

theorem opSuicide_returns (hr : Ready codeOf .opSuicide f) :
    Returns (Leaves codeOf f (f.stack.len - 1 + 0)) (opSuicide h f s) := by
  obtain ⟨beneficiary, st, hst, -⟩ := Stack.exists_push hr.stack
  simp only [opSuicide, hst, Stack.pop_push, Option.bind_eq_bind, Option.bind_some, next,
    returns_some_iff]
  exact ⟨by simp, rfl, rfl, rfl, hr.cache⟩

/-- A jump goes through `validJumpdest`, which never fails on sound caches
and keeps them sound; an invalid destination is an error. -/
theorem jumpTo_returns (st : Stack) (pos : Nat) (hc : f.contract.CacheSound codeOf) :
    Returns (Leaves codeOf f st.len) (jumpTo f s st pos) := by
  obtain ⟨r, c', hv, hc', hcode, -, -⟩ := validJumpdest_eq hc pos
  simp only [jumpTo, hv, Option.bind_eq_bind, Option.bind_some]
  cases r
  · simp
  · simp only [Bool.not_true, Bool.false_eq_true, if_false, next, returns_some_iff]
    exact ⟨rfl, rfl, rfl, hcode, hc'⟩

theorem opJump_returns (hr : Ready codeOf .opJump f) :
    Returns (Leaves codeOf f (f.stack.len - 1 + 0)) (opJump f s) := by
  obtain ⟨pos, st, hst, -⟩ := Stack.exists_push hr.stack
  simp only [opJump, hst, Stack.pop_push, Option.bind_eq_bind, Option.bind_some]
  refine (jumpTo_returns st pos hr.cache).mono fun r hr' => ?_
  simpa using hr'

theorem opJumpi_returns (hr : Ready codeOf .opJumpi f) :
    Returns (Leaves codeOf f (f.stack.len - 2 + 0)) (opJumpi f s) := by
  obtain ⟨pos, st, hst, hlen⟩ := Stack.exists_push hr.stack
  obtain ⟨cond, st, rfl, -⟩ := Stack.exists_push hlen
  simp only [opJumpi, hst, Stack.pop_push, Option.bind_eq_bind, Option.bind_some]
  split_ifs
  · refine (jumpTo_returns st pos hr.cache).mono fun r hr' => ?_
    simpa using hr'
  · simp only [next, returns_some_iff]
    exact ⟨by simp, rfl, rfl, rfl, hr.cache⟩

theorem opPush1_returns (hc : f.contract.CacheSound codeOf) :
    Returns (Leaves codeOf f (f.stack.len - 0 + 1)) (opPush1 f s) :=
  returns_some ⟨by simp, rfl, rfl, rfl, hc⟩

/-- The bytes a `PUSH` reads lie between two ends clamped to the code. -/
theorem makePush_returns (size pushByteSize : Nat) (hc : f.contract.CacheSound codeOf) :
    Returns (Leaves codeOf f (f.stack.len - 0 + 1)) (makePush f s size pushByteSize) := by
  have hle : min f.contract.Code.length (f.pc + 1) ≤
      min f.contract.Code.length (min f.contract.Code.length (f.pc + 1) + pushByteSize) := by
    omega
  simp only [makePush, GoSlice.get_of_le hle (min_le_left _ _), Option.bind_eq_bind,
    Option.bind_some, next, returns_some_iff]
  exact ⟨by simp, rfl, rfl, rfl, hc⟩

/-- The topics of a log are popped one by one: `n` pops take `n` items off a
stack that holds them. -/
theorem foldlM_popTopic (acc : List Hash) {st : Stack} {n : Nat} (hn : n ≤ st.len) :
    ∃ topics st', (List.range n).foldlM popTopic (acc, st) = some (topics, st') ∧
      st'.len = st.len - n := by
  induction n with
  | zero => exact ⟨acc, st, rfl, by simp⟩
  | succ n ih =>
    obtain ⟨topics, st', hfold, hlen⟩ := ih (by omega)
    obtain ⟨t, st'', rfl, -⟩ := Stack.exists_push (show 0 < st'.len by omega)
    refine ⟨topics ++ [BigToHash t], st'', ?_, ?_⟩
    · rw [List.range_succ, List.foldlM_append, hfold]
      rfl
    · simp only [Stack.len_push] at hlen
      omega

theorem makeLog_returns {size : Nat} (hr : Ready codeOf (.makeLog size) f) :
    Returns (Leaves codeOf f (f.stack.len - (size + 2) + 0)) (makeLog h f s size) := by
  obtain ⟨mStart, st, hst, h₁⟩ := Stack.exists_push (show size + 1 < f.stack.len from hr.stack)
  obtain ⟨mSize, st, rfl, h₂⟩ := Stack.exists_push h₁
  obtain ⟨n, hn, hle⟩ : ∃ n, calcMemSize64 mStart mSize = (n, false) ∧ n ≤ f.memory.Len := by
    simpa [MemorySizeFunc.run, hst] using hr.covers rfl
  obtain ⟨d, hd⟩ := get_of_calcMemSize64 hn hle hr.memLen
  obtain ⟨topics, st', hfold, hlen⟩ := foldlM_popTopic [] h₂
  simp only [makeLog, hst, Stack.pop_push, hfold, hd, Option.bind_eq_bind, Option.bind_some, next,
    returns_some_iff]
  refine ⟨?_, rfl, rfl, rfl, hr.cache⟩
  simp only [Stack.len_push]
  omega

theorem opCreate_returns (hr : Ready codeOf .opCreate f) :
    Returns (Leaves codeOf f (f.stack.len - 3 + 1)) (opCreate h f s) := by
  obtain ⟨value, st, hst, h₁⟩ := Stack.exists_push hr.stack
  obtain ⟨offset, st, rfl, h₂⟩ := Stack.exists_push h₁
  obtain ⟨size, st, rfl, -⟩ := Stack.exists_push h₂
  obtain ⟨n, hn, hle⟩ : ∃ n, calcMemSize64 offset size = (n, false) ∧ n ≤ f.memory.Len := by
    simpa [MemorySizeFunc.run, hst] using hr.covers rfl
  obtain ⟨input, hinput⟩ := get_of_calcMemSize64 hn hle hr.memLen
  simp only [opCreate, hst, Stack.pop_push, hinput, Option.bind_eq_bind, Option.bind_some,
    returns_some_iff]
  exact ⟨by simp, rfl, rfl, rfl, hr.cache⟩

theorem opCreate2_returns (hr : Ready codeOf .opCreate2 f) :
    Returns (Leaves codeOf f (f.stack.len - 4 + 1)) (opCreate2 h f s) := by
  obtain ⟨endowment, st, hst, h₁⟩ := Stack.exists_push hr.stack
  obtain ⟨offset, st, rfl, h₂⟩ := Stack.exists_push h₁
  obtain ⟨size, st, rfl, h₃⟩ := Stack.exists_push h₂
  obtain ⟨salt, st, rfl, -⟩ := Stack.exists_push h₃
  obtain ⟨n, hn, hle⟩ : ∃ n, calcMemSize64 offset size = (n, false) ∧ n ≤ f.memory.Len := by
    simpa [MemorySizeFunc.run, hst] using hr.covers rfl
  obtain ⟨input, hinput⟩ := get_of_calcMemSize64 hn hle hr.memLen
  simp only [opCreate2, hst, Stack.pop_push, hinput, Option.bind_eq_bind, Option.bind_some,
    returns_some_iff]
  exact ⟨by simp, rfl, rfl, rfl, hr.cache⟩

/-- After a nested call: the callee's output is copied into the return range
when it did not fail otherwise than by reverting. -/
theorem afterCall_returns {st : Stack} {retOffset retSize : Nat} (r : CallResult)
    (hcov : retSize = 0 ∨ retOffset + retSize ≤ f.memory.Len) (hm : f.memory.Len < 2 ^ 63)
    (hc : f.contract.CacheSound codeOf) :
    Returns (Leaves codeOf f (st.len + 1)) (afterCall f s st retOffset retSize r) := by
  obtain ⟨mem, hset, hlen, hcost⟩ := Memory.Set_eq hcov (by omega) r.ret
  by_cases hret : r.err = none ∨ r.err = some .errExecutionReverted
  · simp only [afterCall, if_pos hret, hset, Option.bind_eq_bind, Option.bind_some,
      returns_some_iff]
    exact ⟨by simp, hlen, hcost, rfl, hc⟩
  · simp only [afterCall, if_neg hret, Option.bind_eq_bind, Option.bind_some, returns_some_iff]
    exact ⟨by simp, rfl, rfl, rfl, hc⟩

/-- The tail of every call instruction: the input read from memory, the call
made, and `afterCall`. -/
theorem call_tail_returns {st : Stack} {inOffset inSize retOffset retSize : Nat}
    (call : List UInt8 → σ × CallResult)
    (hin : inSize = 0 ∨ inOffset + inSize ≤ f.memory.Len)
    (hret : retSize = 0 ∨ retOffset + retSize ≤ f.memory.Len) (hm : f.memory.Len < 2 ^ 63)
    (hc : f.contract.CacheSound codeOf) :
    Returns (Leaves codeOf f (st.len + 1))
      ((f.memory.Get (Int64 inOffset) (Int64 inSize)).bind fun args =>
        afterCall f (call args).1 st retOffset retSize (call args).2) := by
  obtain ⟨args, hargs⟩ := Option.isSome_iff_exists.mp (Memory.Get_isSome hin hm)
  rw [hargs, Option.bind_some]
  exact afterCall_returns _ hret hm hc

theorem opCall_returns (hr : Ready codeOf .opCall f) :
    Returns (Leaves codeOf f (f.stack.len - 7 + 1)) (opCall h f s) := by
  obtain ⟨gas, st, hst, h₁⟩ := Stack.exists_push hr.stack
  obtain ⟨addr, st, rfl, h₂⟩ := Stack.exists_push h₁
  obtain ⟨value, st, rfl, h₃⟩ := Stack.exists_push h₂
  obtain ⟨inOffset, st, rfl, h₄⟩ := Stack.exists_push h₃
  obtain ⟨inSize, st, rfl, h₅⟩ := Stack.exists_push h₄
  obtain ⟨retOffset, st, rfl, h₆⟩ := Stack.exists_push h₅
  obtain ⟨retSize, st, rfl, -⟩ := Stack.exists_push h₆
  -- `memoryCall` covers the return range and the input range
  obtain ⟨n, hn, hle⟩ : ∃ n, maxMemSize (calcMemSize64 retOffset retSize)
      (calcMemSize64 inOffset inSize) = (n, false) ∧ n ≤ f.memory.Len := by
    simpa [MemorySizeFunc.run, hst] using hr.covers rfl
  obtain ⟨hret, hin⟩ := covers_of_maxMemSize hn hle
  simp only [opCall, hst, Stack.pop_push, Option.bind_eq_bind, Option.bind_some]
  refine (call_tail_returns (fun _ => _) hin hret hr.memLen hr.cache).mono fun r hr' => ?_
  simpa using hr'

theorem opCallCode_returns (hr : Ready codeOf .opCallCode f) :
    Returns (Leaves codeOf f (f.stack.len - 7 + 1)) (opCallCode h f s) := by
  obtain ⟨gas, st, hst, h₁⟩ := Stack.exists_push hr.stack
  obtain ⟨addr, st, rfl, h₂⟩ := Stack.exists_push h₁
  obtain ⟨value, st, rfl, h₃⟩ := Stack.exists_push h₂
  obtain ⟨inOffset, st, rfl, h₄⟩ := Stack.exists_push h₃
  obtain ⟨inSize, st, rfl, h₅⟩ := Stack.exists_push h₄
  obtain ⟨retOffset, st, rfl, h₆⟩ := Stack.exists_push h₅
  obtain ⟨retSize, st, rfl, -⟩ := Stack.exists_push h₆
  obtain ⟨n, hn, hle⟩ : ∃ n, maxMemSize (calcMemSize64 retOffset retSize)
      (calcMemSize64 inOffset inSize) = (n, false) ∧ n ≤ f.memory.Len := by
    simpa [MemorySizeFunc.run, hst] using hr.covers rfl
  obtain ⟨hret, hin⟩ := covers_of_maxMemSize hn hle
  simp only [opCallCode, hst, Stack.pop_push, Option.bind_eq_bind, Option.bind_some]
  refine (call_tail_returns (fun _ => _) hin hret hr.memLen hr.cache).mono fun r hr' => ?_
  simpa using hr'

theorem opDelegateCall_returns (hr : Ready codeOf .opDelegateCall f) :
    Returns (Leaves codeOf f (f.stack.len - 6 + 1)) (opDelegateCall h f s) := by
  obtain ⟨gas, st, hst, h₁⟩ := Stack.exists_push hr.stack
  obtain ⟨addr, st, rfl, h₂⟩ := Stack.exists_push h₁
  obtain ⟨inOffset, st, rfl, h₃⟩ := Stack.exists_push h₂
  obtain ⟨inSize, st, rfl, h₄⟩ := Stack.exists_push h₃
  obtain ⟨retOffset, st, rfl, h₅⟩ := Stack.exists_push h₄
  obtain ⟨retSize, st, rfl, -⟩ := Stack.exists_push h₅
  obtain ⟨n, hn, hle⟩ : ∃ n, maxMemSize (calcMemSize64 retOffset retSize)
      (calcMemSize64 inOffset inSize) = (n, false) ∧ n ≤ f.memory.Len := by
    simpa [MemorySizeFunc.run, hst] using hr.covers rfl
  obtain ⟨hret, hin⟩ := covers_of_maxMemSize hn hle
  simp only [opDelegateCall, hst, Stack.pop_push, Option.bind_eq_bind, Option.bind_some]
  refine (call_tail_returns (fun _ => _) hin hret hr.memLen hr.cache).mono fun r hr' => ?_
  simpa using hr'

theorem opStaticCall_returns (hr : Ready codeOf .opStaticCall f) :
    Returns (Leaves codeOf f (f.stack.len - 6 + 1)) (opStaticCall h f s) := by
  obtain ⟨gas, st, hst, h₁⟩ := Stack.exists_push hr.stack
  obtain ⟨addr, st, rfl, h₂⟩ := Stack.exists_push h₁
  obtain ⟨inOffset, st, rfl, h₃⟩ := Stack.exists_push h₂
  obtain ⟨inSize, st, rfl, h₄⟩ := Stack.exists_push h₃
  obtain ⟨retOffset, st, rfl, h₅⟩ := Stack.exists_push h₄
  obtain ⟨retSize, st, rfl, -⟩ := Stack.exists_push h₅
  obtain ⟨n, hn, hle⟩ : ∃ n, maxMemSize (calcMemSize64 retOffset retSize)
      (calcMemSize64 inOffset inSize) = (n, false) ∧ n ≤ f.memory.Len := by
    simpa [MemorySizeFunc.run, hst] using hr.covers rfl
  obtain ⟨hret, hin⟩ := covers_of_maxMemSize hn hle
  simp only [opStaticCall, hst, Stack.pop_push, Option.bind_eq_bind, Option.bind_some]
  refine (call_tail_returns (fun _ => _) hin hret hr.memLen hr.cache).mono fun r hr' => ?_
  simpa using hr'

/-- `RETURN` and `REVERT` hand back the memory range itself; their memory-size
functions compute the same range. -/
theorem opReturn_returns (hst : 2 ≤ f.stack.len)
    (hcov : Covers f.memory f.stack (some .memoryReturn)) (hm : f.memory.Len < 2 ^ 63)
    (hc : f.contract.CacheSound codeOf) :
    Returns (Leaves codeOf f (f.stack.len - 2 + 0)) (opReturn f s) := by
  obtain ⟨offset, st, hst, hlen⟩ := Stack.exists_push hst
  obtain ⟨size, st, rfl, -⟩ := Stack.exists_push hlen
  obtain ⟨n, hn, hle⟩ : ∃ n, calcMemSize64 offset size = (n, false) ∧ n ≤ f.memory.Len := by
    simpa [Covers, MemorySizeFunc.run, hst] using hcov
  obtain ⟨ret, hret⟩ := Option.isSome_iff_exists.mp
    (Memory.GetPtr_isSome (covers_of_calcMemSize64 hn hle) hm)
  simp only [opReturn, hst, Stack.pop_push, hret, Option.bind_eq_bind, Option.bind_some,
    returns_some_iff]
  exact ⟨by simp, rfl, rfl, rfl, hc⟩

end Frame

/-! ## Every execute function -/

section Run
variable {σ : Type} {codeOf : Hash → List UInt8} {h : Host σ} {f : Frame} {s : σ}

/-- Every execute function returns on a frame that is ready for it: it reads
no stack slot and no byte outside the stack, the memory or its source. It
fails with an error, or leaves its pushes over the items it did not pop, the
memory as long and as paid for as before, and the same code under sound
caches. The cases follow `Execute.run`; each cites the lemma of its shape. -/
theorem Execute.run_returns (hh : h.SliceBounded) (x : Execute) (hr : Ready codeOf x f) :
    Returns (Leaves codeOf f (f.stack.len - x.pops + x.pushes)) (x.run h f s) := by
  cases x with
  | opStop | opJumpdest => exact next_returns hr.cache
  | opAdd | opSub | opDiv | opLt | opGt | opSlt | opSgt | opEq | opOr | opXor | opByte | opSHL
  | opSHR => exact onStack_returns (popPeek_returns _ hr.stack) hr.cache
  | opMul | opSdiv | opMod | opSmod | opExp | opAnd | opSAR =>
    exact onStack_returns (popPopPush_returns _ hr.stack) hr.cache
  | opAddmod | opMulmod => exact onStack_returns (popPopPopPush_returns _ hr.stack) hr.cache
  | opIszero | opNot => exact onStack_returns (peekSet_returns _ hr.stack) hr.cache
  | opSignExtend => exact onStack_returns (opSignExtend_returns hr.stack) hr.cache
  | opPop => exact onStack_returns (opPop_returns hr.stack) hr.cache
  | makeDup size =>
    -- `DUP0` is not admissible
    have hsize : 0 < size := Nat.pos_of_ne_zero (by simpa [Execute.admissible] using hr.admissible)
    exact onStack_returns (makeDup_returns hsize hr.stack) hr.cache
  | makeSwap size => exact onStack_returns (makeSwap_returns hr.stack) hr.cache
  | opAddress | opOrigin | opCaller | opCallValue | opCallDataSize | opCodeSize | opGasprice
  | opReturnDataSize | opCoinbase | opTimestamp | opNumber | opDifficulty | opGasLimit | opPc
  | opMsize | opGas => exact pushValue_returns _ hr.cache
  | opBalance | opExtCodeSize | opExtCodeHash | opSload =>
    exact peekLookup_returns _ hr.stack hr.cache
  | opSha3 => exact opSha3_returns hr
  | opCallDataLoad => exact opCallDataLoad_returns hh hr
  | opCallDataCopy => exact opCallDataCopy_returns hh hr
  | opCodeCopy => exact opCodeCopy_returns hr
  | opExtCodeCopy => exact opExtCodeCopy_returns hh hr
  | opReturnDataCopy => exact opReturnDataCopy_returns hr
  | opBlockhash => exact opBlockhash_returns hr
  | opMload => exact opMload_returns hr
  | opMstore => exact opMstore_returns hr
  | opMstore8 => exact opMstore8_returns hr
  | opSstore => exact opSstore_returns hr
  | opJump => exact opJump_returns hr
  | opJumpi => exact opJumpi_returns hr
  | opPush1 => exact opPush1_returns hr.cache
  | makePush size pushByteSize => exact makePush_returns size pushByteSize hr.cache
  | makeLog size => exact makeLog_returns hr
  | opCreate => exact opCreate_returns hr
  | opCreate2 => exact opCreate2_returns hr
  | opCall => exact opCall_returns hr
  | opCallCode => exact opCallCode_returns hr
  | opDelegateCall => exact opDelegateCall_returns hr
  | opStaticCall => exact opStaticCall_returns hr
  | opReturn | opRevert => exact opReturn_returns hr.stack hr.memory hr.memLen hr.cache
  | opSuicide => exact opSuicide_returns hr

/-- A frame about to run `CALL`: 100 gas to account 5 with no value, the 32
bytes at 0 as input and the 32 at 32 for the output, in 64 bytes of memory. -/
def callFrame : Frame :=
  ⟨0, ⟨[100, 5, 0, 0, 32, 32, 32]⟩, ⟨List.replicate 64 0, 0⟩, ⟨∅, none, [], 0⟩, 1000, [], 100⟩

-- `CALL` on `callFrame`, with a host that answers every query with a default:
-- the frame is ready, so the call returns and leaves one item on the stack
example :
    Returns (Leaves (fun _ => []) callFrame 1) (Execute.opCall.run (default : Host Unit) callFrame ()) := by
  have hh : (default : Host Unit).SliceBounded := ⟨by decide, fun _ _ => Nat.two_pow_pos 64⟩
  exact Execute.run_returns hh .opCall
    ⟨rfl, by decide, ⟨64, by decide, by decide⟩, by decide, by decide,
      ⟨by simp [callFrame], by simp [callFrame], by simp [callFrame]⟩⟩

end Run

end Btp.Vm
