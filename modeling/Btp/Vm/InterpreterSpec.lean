import Mathlib
import Btp.Vm.ExecuteSpec
import Btp.Vm.Interpreter

/-!
# The loop does not panic

A pass of the loop of `EVMInterpreter.Run` panics when it calls a `nil`
execute function, reads a stack slot that is not there, or reaches past the
memory. None of this happens from a loop head of a run with one of the fork
tables. The checks before `execute` do the work: the stack bound `minStack`
of every valid entry covers what its execute, gas and memory-size functions
read, and the dynamic gas of every entry that sizes the memory charges it
through `memoryGasCost`, which refuses a size past `0x1FFFFFFFE0`. So the
frame a pass hands to `execute` is `Ready` for it, and `Execute.run_returns`
finishes the pass; the frame it leaves is again a loop head.

The one panic left is `StateDB.SubRefund`, which the net metering of `SSTORE`
calls with a refund counter it expects to cover the amount. Its gas function
is the only part of a pass that may panic on a frame the checks accept, so the
lemmas of a pass come in two parts: what a pass leaves whenever it returns
(`Ensures`), which needs nothing of `SubRefund`, and that it returns, which
needs a host whose `SubRefund` of that amount returns.
-/

namespace Btp.Vm

open OptionSpec

/-! ## The stack items the functions of an entry read -/

/-- One past the deepest stack item a memory-size function reads. -/
def MemorySizeFunc.depth : MemorySizeFunc → Nat
  | .memoryMLoad | .memoryMStore8 | .memoryMStore => 1
  | .memorySha3 | .memoryReturn | .memoryRevert | .memoryLog => 2
  | .memoryCallDataCopy | .memoryReturnDataCopy | .memoryCodeCopy | .memoryCreate
  | .memoryCreate2 => 3
  | .memoryExtCodeCopy => 4
  | .memoryDelegateCall | .memoryStaticCall => 6
  | .memoryCall => 7

/-- One past the deepest stack item a gas function reads. -/
def GasFunc.depth : GasFunc → Nat
  | .gasBalance | .gasExtCodeSize | .gasExtCodeHash | .gasMLoad | .gasMStore | .gasMStore8
  | .gasSLoad | .gasCreate | .gasReturn | .gasRevert => 0
  | .gasSuicide | .gasDelegateCall | .gasStaticCall => 1
  | .gasExp | .gasSha3 | .gasSStore | .makeGasLog _ => 2
  | .gasCallDataCopy | .gasCodeCopy | .gasReturnDataCopy | .gasCreate2 | .gasCall
  | .gasCallCode => 3
  | .gasExtCodeCopy => 4

/-- The gas functions that charge the memory through `memoryGasCost`. -/
def GasFunc.chargesMemory : GasFunc → Bool
  | .gasExp | .gasBalance | .gasExtCodeSize | .gasExtCodeHash | .gasSLoad | .gasSStore
  | .gasSuicide => false
  | _ => true

theorem MemorySizeFunc.run_isSome (m : MemorySizeFunc) {st : Stack} (h : m.depth ≤ st.len) :
    (m.run st).isSome := by
  cases m <;> simp only [depth] at h <;>
    simp (disch := omega) only [run, Stack.Back_eq, Option.bind_eq_bind, Option.bind_some,
      Option.pure_def, Option.isSome_some]

/-! ## What the gas functions leave -/

/-- A frame after a charge: its gas, the memory's paid cost and `callGasTemp`
may have changed, its stack, the length of its memory and its contract have
not. -/
structure Frame.Charged (f f' : Frame) : Prop where
  stack : f'.stack = f.stack
  memLen : f'.memory.Len = f.memory.Len
  contract : f'.contract = f.contract

theorem Frame.Charged.refl (f : Frame) : f.Charged f := ⟨rfl, rfl, rfl⟩

theorem Frame.Charged.trans {f₁ f₂ f₃ : Frame} (h₁ : f₁.Charged f₂) (h₂ : f₂.Charged f₃) :
    f₁.Charged f₃ :=
  ⟨h₂.stack.trans h₁.stack, h₂.memLen.trans h₁.memLen, h₂.contract.trans h₁.contract⟩

theorem Frame.UseGas_charged (f : Frame) (gas : Nat) : f.Charged (f.UseGas gas).2 := by
  unfold Frame.UseGas
  split_ifs
  · exact .refl f
  · exact ⟨rfl, rfl, rfl⟩

theorem Frame.UseGas_memory (f : Frame) (gas : Nat) : (f.UseGas gas).2.memory = f.memory := by
  unfold Frame.UseGas
  split_ifs <;> rfl

/-- The memory a gas function leaves: for one that charges the memory, the
memory `memoryGasCost` returns; for another, the frame's own. -/
def Memory.ChargedBy : Bool → Memory → Nat → Memory → Prop
  | true, mem, memorySize, mem' => ∃ fee, memoryGasCost mem memorySize = .ok (fee, mem')
  | false, mem, _, mem' => mem' = mem

theorem Memory.ChargedBy.keep (mem : Memory) (memorySize : Nat) :
    Memory.ChargedBy false mem memorySize mem := rfl

theorem Memory.ChargedBy.bound {mem mem' : Memory} {memorySize : Nat}
    (h : Memory.ChargedBy true mem memorySize mem') : memorySize ≤ 0x1FFFFFFFE0 := by
  obtain ⟨fee, hfee⟩ := h
  exact (memoryGasCost_ok hfee).2

/-- Grown to a word-rounded size, the memory a gas function leaves is paid
for, when the function charges the memory or the size is zero. -/
theorem Memory.ChargedBy.paid {charges : Bool} {mem mem' : Memory} {memorySize : Nat}
    (h : Memory.ChargedBy charges mem memorySize mem') (hm : mem.Paid)
    (hlen : mem.Len ≤ 0x1FFFFFFFE0) (hs : memorySize % 32 = 0)
    (hz : charges = false → memorySize = 0) : (mem'.Resize memorySize).Paid := by
  cases charges with
  | true =>
    obtain ⟨fee, hfee⟩ := h
    exact memoryGasCost_paid hm hlen hs hfee
  | false =>
    have h : mem' = mem := h
    rw [h, hz rfl, Memory.Resize_zero]
    exact hm

/-- What a gas function leaves when it does not fail: a charged frame, whose
memory is the one `memoryGasCost` returns for a function that charges the
memory. -/
def GasLeaves {σ : Type} (charges : Bool) (f : Frame) (memorySize : Nat) : GasOutcome σ → Prop
  | .ok (_, f', _) => f.Charged f' ∧ Memory.ChargedBy charges f.memory memorySize f'.memory
  | .error _ => True

section Gas
variable {σ : Type} (gt : GasTable) (h : Host σ) {f : Frame} (s : σ) {memorySize : Nat}

/-- A gas computation that fails at its first step fails; one that goes on
leaves what its continuation leaves. -/
theorem GasLeaves.bind {α : Type} {charges : Bool} {e : Except VmError α}
    {k : α → Except VmError (Nat × Frame × σ)}
    (hk : ∀ a, e = .ok a → GasLeaves charges f memorySize (k a)) :
    GasLeaves charges f memorySize (e >>= k : Except VmError (Nat × Frame × σ)) := by
  cases e with
  | error _ => trivial
  | ok a => exact hk a rfl

theorem GasLeaves.map {charges : Bool} {f₁ : Frame} (hf₁ : f.Charged f₁)
    (hmem : Memory.ChargedBy charges f.memory memorySize f₁.memory) (e : Except VmError Nat) :
    GasLeaves charges f memorySize (e.map fun gas => (gas, f₁, s)) := by
  cases e with
  | error _ => trivial
  | ok _ => exact ⟨hf₁, hmem⟩

theorem memoryGas_charged {gas : Nat} {f' : Frame} (hm : memoryGas f memorySize = .ok (gas, f')) :
    f.Charged f' ∧ Memory.ChargedBy true f.memory memorySize f'.memory := by
  unfold memoryGas at hm
  cases hc : memoryGasCost f.memory memorySize with
  | error e => simp [hc, Except.map] at hm
  | ok r =>
    obtain ⟨cost, mem⟩ := r
    simp only [hc, Except.map, Except.ok.injEq, Prod.mk.injEq] at hm
    obtain ⟨-, rfl⟩ := hm
    exact ⟨⟨rfl, (memoryGasCost_ok hc).1, rfl⟩, cost, hc⟩

theorem wordsGas_isSome {n : Nat} (hn : n < f.stack.len) (perWord : Nat) :
    (wordsGas f n perWord).isSome := by
  simp only [wordsGas, Stack.Back_eq hn, Option.bind_eq_bind, Option.bind_some]
  split <;> rfl

theorem copyGas_returns {base n : Nat} (perWord : Nat) (hn : n < f.stack.len) :
    Returns (GasLeaves true f memorySize) (copyGas f s memorySize base n perWord) := by
  unfold copyGas
  split
  · exact returns_some trivial
  rename_i gas f₁ hm
  obtain ⟨hf₁, hmem⟩ := memoryGas_charged hm
  split
  · exact returns_some trivial
  refine (returns_of_isSome (wordsGas_isSome (hf₁.stack ▸ hn) perWord)).map fun r _ => ?_
  cases r with
  | error e => trivial
  | ok words =>
    dsimp only [Except.bind, Except.map]
    split
    · trivial
    · exact ⟨hf₁, hmem⟩

theorem memoryPlusGas_leaves (base : Nat) (memErr : Option VmError) :
    GasLeaves true f memorySize (memoryPlusGas f s memorySize base memErr) := by
  unfold memoryPlusGas
  split
  · trivial
  · rename_i gas f₁ hm
    obtain ⟨hf₁, hmem⟩ := memoryGas_charged hm
    exact GasLeaves.map s hf₁ hmem _

theorem gasReturn_leaves : GasLeaves true f memorySize (gasReturn f s memorySize) := by
  unfold gasReturn
  cases hm : memoryGas f memorySize with
  | error _ => trivial
  | ok r =>
    obtain ⟨gas, f₁⟩ := r
    exact memoryGas_charged hm

theorem makeGasLog_returns (n : Nat) (hd : 2 ≤ f.stack.len) :
    Returns (GasLeaves true f memorySize) (makeGasLog f s memorySize n) := by
  simp only [makeGasLog, Stack.Back_eq (show 1 < f.stack.len by omega), Option.bind_eq_bind,
    Option.bind_some]
  split
  · exact returns_some trivial
  refine returns_some (GasLeaves.bind ?_)
  rintro ⟨gas, f₁⟩ hm
  obtain ⟨hf₁, hmem⟩ := memoryGas_charged hm
  -- the remaining charges are sums that only fail on an overflow
  refine GasLeaves.bind fun _ _ => GasLeaves.bind fun _ _ => ?_
  dsimp only
  split
  · trivial
  · refine GasLeaves.bind fun _ _ => ?_
    exact ⟨hf₁, hmem⟩

theorem gasExp_returns (hd : 2 ≤ f.stack.len) :
    Returns (GasLeaves false f memorySize) (gasExp gt f s) := by
  simp only [gasExp, Stack.Back_eq (show 1 < f.stack.len by omega), Option.bind_eq_bind,
    Option.bind_some, Option.pure_def, returns_some_iff]
  exact GasLeaves.map s (.refl f) (.keep _ _) _

/-- The end of every call's gas function leaves the frame with the gas it
hands over. -/
theorem callTail_leaves {f₁ : Frame} (hf₁ : f.Charged f₁)
    (hmem : Memory.ChargedBy true f.memory memorySize f₁.memory) (gas c : Nat) :
    GasLeaves true f memorySize (do
      let callGasTemp ← callGas gt f₁.Gas gas c
      let gas ← addGas gas callGasTemp
      pure (gas, { f₁ with callGasTemp }, s) : Except VmError (Nat × Frame × σ)) := by
  refine GasLeaves.bind fun _ _ => GasLeaves.bind fun _ _ => ?_
  exact ⟨hf₁.trans ⟨rfl, rfl, rfl⟩, hmem⟩

theorem callGasOf_returns (gas : Nat) (hd : 1 ≤ f.stack.len) :
    Returns (GasLeaves true f memorySize) (callGasOf gt f s memorySize gas) := by
  unfold callGasOf
  split
  · exact returns_some trivial
  rename_i memGas f₁ hm
  obtain ⟨hf₁, hmem⟩ := memoryGas_charged hm
  split
  · exact returns_some trivial
  rw [Stack.Back_eq (show 0 < f₁.stack.len by rw [hf₁.stack]; omega), Option.map_some,
    returns_some_iff]
  exact callTail_leaves gt s hf₁ hmem _ _

theorem addGas_comm (a b : Nat) : addGas a b = addGas b a := by
  unfold addGas SafeAdd
  rw [Nat.add_comm a b]

/-- `gasDelegateCall` adds the call price to the memory's charge where
`callGasOf` adds the charge to the price: the same sum. -/
theorem gasDelegateCall_eq :
    gasDelegateCall gt f s memorySize = callGasOf gt f s memorySize gt.Calls := by
  unfold gasDelegateCall callGasOf
  split
  · rfl
  · rw [addGas_comm]

theorem gasDelegateCall_returns (hd : 1 ≤ f.stack.len) :
    Returns (GasLeaves true f memorySize) (gasDelegateCall gt f s memorySize) := by
  rw [gasDelegateCall_eq]
  exact callGasOf_returns gt s _ hd

theorem gasCall_returns (hd : 3 ≤ f.stack.len) :
    Returns (GasLeaves true f memorySize) (gasCall gt h f s memorySize) := by
  simp only [gasCall, Stack.Back_eq (show 2 < f.stack.len by omega),
    Stack.Back_eq (show 1 < f.stack.len by omega), Option.bind_eq_bind, Option.bind_some]
  exact callGasOf_returns gt s _ (by omega)

theorem gasCallCode_returns (hd : 3 ≤ f.stack.len) :
    Returns (GasLeaves true f memorySize) (gasCallCode gt f s memorySize) := by
  simp only [gasCallCode, Stack.Back_eq (show 2 < f.stack.len by omega), Option.bind_eq_bind,
    Option.bind_some]
  exact callGasOf_returns gt s _ (by omega)

theorem gasSuicide_returns (hd : 1 ≤ f.stack.len) :
    Returns (GasLeaves false f memorySize) (gasSuicide gt h f s) := by
  simp only [gasSuicide, Stack.Back_eq (show 0 < f.stack.len by omega), Option.bind_eq_bind,
    Option.bind_some]
  split <;> exact returns_pure ⟨.refl f, rfl⟩

/-- Every branch of `gasSStore` prices the store with the frame as it was; the
dirty branches of net metering first take a refund back through `SubRefund`,
which may panic. -/
theorem gasSStore_ensures (hd : 2 ≤ f.stack.len) :
    Ensures (GasLeaves false f memorySize) (gasSStore h f s) := by
  simp only [gasSStore, Stack.Back_eq (show 1 < f.stack.len by omega),
    Stack.Back_eq (show 0 < f.stack.len by omega), Option.bind_eq_bind, Option.bind_some]
  split_ifs <;> first
    | exact ensures_pure ⟨.refl f, rfl⟩
    | exact (ensures_true _).bind fun _ _ => ensures_pure ⟨.refl f, rfl⟩

/-- `gasSStore` returns when the refund it may take back is there. -/
theorem gasSStore_returns (hd : 2 ≤ f.stack.len)
    (hsub : (h.db.SubRefund s NetSstoreClearRefund).isSome) :
    Returns (GasLeaves false f memorySize) (gasSStore h f s) := by
  simp only [gasSStore, Stack.Back_eq (show 1 < f.stack.len by omega),
    Stack.Back_eq (show 0 < f.stack.len by omega), Option.bind_eq_bind, Option.bind_some]
  split_ifs <;> first
    | exact returns_pure ⟨.refl f, rfl⟩
    | exact (returns_of_isSome hsub).bind fun _ _ => returns_pure ⟨.refl f, rfl⟩

/-- Every gas function returns on a stack that holds the items it reads,
leaving a charged frame; the functions that charge the memory succeed only
for a size `memoryGasCost` accepts. -/
theorem GasFunc.run_gasLeaves (g : GasFunc) (hd : g.depth ≤ f.stack.len)
    (hsub : g = .gasSStore → (h.db.SubRefund s NetSstoreClearRefund).isSome) :
    Returns (GasLeaves g.chargesMemory f memorySize) (g.run gt h f s memorySize) := by
  cases g with
  | gasSha3 | gasCallDataCopy | gasCodeCopy | gasExtCodeCopy | gasReturnDataCopy | gasCreate2 =>
    simp only [run, chargesMemory]
    exact copyGas_returns s _ (by simp only [depth] at hd; omega)
  | gasBalance | gasExtCodeSize | gasExtCodeHash | gasSLoad =>
    exact returns_some ⟨.refl f, rfl⟩
  | gasMLoad | gasMStore | gasMStore8 | gasCreate => exact returns_some (memoryPlusGas_leaves s _ _)
  | gasReturn | gasRevert => exact returns_some (gasReturn_leaves s)
  | gasExp => exact gasExp_returns gt s hd
  | gasSStore => exact gasSStore_returns h s hd (hsub rfl)
  | makeGasLog n => exact makeGasLog_returns s n hd
  | gasCall => exact gasCall_returns gt h s hd
  | gasCallCode => exact gasCallCode_returns gt s hd
  | gasDelegateCall | gasStaticCall => exact gasDelegateCall_returns gt s hd
  | gasSuicide => exact gasSuicide_returns gt h s hd

/-- Whatever a gas function returns on a stack that holds the items it reads
leaves a charged frame, whether or not `SubRefund` could panic. -/
theorem GasFunc.run_ensures (g : GasFunc) (hd : g.depth ≤ f.stack.len) :
    Ensures (GasLeaves g.chargesMemory f memorySize) (g.run gt h f s memorySize) := by
  by_cases hg : g = .gasSStore
  · subst hg
    exact gasSStore_ensures h s hd
  · exact (g.run_gasLeaves gt h s hd fun h => absurd h hg).ensures

end Gas

/-! ## The entries of the tables -/

/-- What `Run` relies on of a valid entry whose execute function is `x`: the
function is there and admissible, `minStack` covers the items it pops and
those its gas and memory-size functions read, `maxStack` leaves room for its
pushes under the stack limit, its accesses are covered by the entry's
memory-size function, and a size is charged for wherever one is computed. -/
structure operation.Runs (o : operation) (x : Execute) : Prop where
  execute : o.execute = some x
  admissible : x.admissible = true
  pops : x.pops ≤ o.minStack
  pushes : o.maxStack + x.pushes ≤ StackLimit + x.pops
  memory : x.memory = o.memorySize
  memoryDepth : ∀ m, o.memorySize = some m → m.depth ≤ o.minStack
  charges : ∀ m, o.memorySize = some m → o.dynamicGas.any GasFunc.chargesMemory = true
  gasDepth : ∀ g, o.dynamicGas = some g → g.depth ≤ o.minStack

/-- The check of an entry that `operation.Runs` states: an invalid entry
passes, a valid one needs its execute function. -/
def operation.runnable (o : operation) : Bool :=
  !o.valid || match o.execute with
    | none => false
    | some x => x.admissible && decide (x.pops ≤ o.minStack) &&
        decide (o.maxStack + x.pushes ≤ StackLimit + x.pops) && x.memory == o.memorySize &&
        o.memorySize.all (fun m => decide (m.depth ≤ o.minStack) &&
          o.dynamicGas.any GasFunc.chargesMemory) &&
        o.dynamicGas.all (fun g => decide (g.depth ≤ o.minStack))

theorem operation.runs_of_runnable {o : operation} (ho : o.runnable = true)
    (hv : o.valid = true) : ∃ x, o.Runs x := by
  simp only [runnable, hv, Bool.not_true, Bool.false_or] at ho
  cases hx : o.execute with
  | none => simp [hx] at ho
  | some x =>
    simp only [hx, Bool.and_eq_true, decide_eq_true_eq, beq_iff_eq, Option.all_eq_true] at ho
    obtain ⟨⟨⟨⟨⟨hadm, hpops⟩, hpushes⟩, hmem⟩, hsize⟩, hgas⟩ := ho
    exact ⟨x, hx, hadm, hpops, hpushes, hmem, fun m hm => (hsize m hm).1,
      fun m hm => (hsize m hm).2, hgas⟩

/-- An entry that `lookup` finds is one of the list's. -/
theorem lookup_all {α β : Type} [BEq α] {p : β → Bool} {l : List (α × β)}
    (hl : l.all (fun e => p e.2) = true) {a : α} {b : β} (h : l.lookup a = some b) :
    p b = true := by
  induction l with
  | nil => cases h
  | cons e es ih =>
    obtain ⟨k, b'⟩ := e
    simp only [List.all_cons, Bool.and_eq_true] at hl
    simp only [List.lookup] at h
    split at h
    · cases h
      exact hl.1
    · exact ih hl.2 h

theorem frontierEntries_runnable : frontierEntries.all (fun e => e.2.runnable) = true := by
  decide

theorem newFrontierInstructionSet_runnable (op : OpCode) :
    (newFrontierInstructionSet op).runnable = true := by
  unfold newFrontierInstructionSet
  cases h : frontierEntries.lookup op with
  | none => rfl
  | some o => exact lookup_all frontierEntries_runnable h

/-- A table whose entries pass keeps passing when a passing entry is set. -/
theorem runnable_update {t : JumpTable} (ht : ∀ op, (t op).runnable = true) (k : OpCode)
    {o : operation} (ho : o.runnable = true) (op : OpCode) :
    (Function.update t k o op).runnable = true := by
  rcases eq_or_ne op k with rfl | hne
  · rw [Function.update_self]
    exact ho
  · rw [Function.update_of_ne hne]
    exact ht op

theorem newHomesteadInstructionSet_runnable (op : OpCode) :
    (newHomesteadInstructionSet op).runnable = true := by
  unfold newHomesteadInstructionSet
  exact runnable_update newFrontierInstructionSet_runnable _ (by decide) op

theorem newByzantiumInstructionSet_runnable (op : OpCode) :
    (newByzantiumInstructionSet op).runnable = true := by
  unfold newByzantiumInstructionSet
  -- the four entries Byzantium sets over Homestead's table
  refine runnable_update (runnable_update (runnable_update (runnable_update
    newHomesteadInstructionSet_runnable _ ?_) _ ?_) _ ?_) _ ?_ op <;> decide

theorem newConstantinopleInstructionSet_runnable (op : OpCode) :
    (newConstantinopleInstructionSet op).runnable = true := by
  unfold newConstantinopleInstructionSet
  -- the five entries Constantinople sets over Byzantium's table
  refine runnable_update (runnable_update (runnable_update (runnable_update (runnable_update
    newByzantiumInstructionSet_runnable _ ?_) _ ?_) _ ?_) _ ?_) _ ?_ op <;> decide

theorem instructionSets_runnable {T : JumpTable} (hT : T ∈ instructionSets) (op : OpCode) :
    (T op).runnable = true := by
  simp only [instructionSets, List.mem_cons, List.not_mem_nil, or_false] at hT
  rcases hT with rfl | rfl | rfl | rfl
  · exact newFrontierInstructionSet_runnable op
  · exact newHomesteadInstructionSet_runnable op
  · exact newByzantiumInstructionSet_runnable op
  · exact newConstantinopleInstructionSet_runnable op

/-- Write protection reads the value of a `CALL` below its `minStack`. -/
theorem instructionSets_call {T : JumpTable} (hT : T ∈ instructionSets) :
    3 ≤ (T CALL).minStack := by
  simp only [instructionSets, List.mem_cons, List.not_mem_nil, or_false] at hT
  rcases hT with rfl | rfl | rfl | rfl <;> decide

/-! ## A pass of the loop -/

/-- Rounding a size up to words, when the product does not overflow, covers
the size in whole words and rounds only zero to zero. -/
theorem toWordSize_mul {n size : Nat} (h : SafeMul (toWordSize n) 32 = (size, false)) :
    n ≤ size ∧ (size = 0 → n = 0) ∧ size % 32 = 0 := by
  unfold SafeMul toWordSize at h
  split_ifs at h <;> simp only [Prod.mk.injEq, decide_eq_false_iff_not, not_le] at h <;> omega

theorem requiredMemory_isSome (o : operation) (st : Stack)
    (hd : ∀ m, o.memorySize = some m → m.depth ≤ st.len) : (requiredMemory o st).isSome := by
  unfold requiredMemory
  split
  · rfl
  · rename_i m hm
    rw [Option.isSome_map]
    exact m.run_isSome (hd m hm)

/-- The memory size `Run` works out: whole words, zero without a memory-size
function, and a size that, once the memory reaches it, covers the range the
function computes. -/
theorem requiredMemory_ok {o : operation} {st : Stack} {size : Nat}
    (h : requiredMemory o st = some (.ok size)) :
    size % 32 = 0 ∧ (o.memorySize = none → size = 0) ∧
      ∀ mem : Memory, (0 < size → size ≤ mem.Len) → Covers mem st o.memorySize := by
  unfold requiredMemory at h
  split at h
  · rename_i hm
    cases h
    exact ⟨rfl, fun _ => rfl, fun mem _ => by rw [hm]; trivial⟩
  · rename_i m hm
    obtain ⟨⟨n, overflow⟩, hrun, hsize⟩ := Option.map_eq_some_iff.mp h
    cases overflow
    · simp only [Bool.false_eq_true, ↓reduceIte] at hsize
      split at hsize
      · cases hsize
      · rename_i hmul
        cases hsize
        obtain ⟨hle, hzero, hwords⟩ := toWordSize_mul (Prod.ext rfl (by simpa using hmul))
        refine ⟨hwords, fun h => (Option.some_ne_none m (hm.symm.trans h)).elim,
          fun mem hmem => ?_⟩
        rw [hm]
        refine ⟨n, hrun, ?_⟩
        rcases Nat.eq_zero_or_pos (toWordSize n * 32 % 2 ^ 64) with h0 | hpos
        · rw [hzero h0]
          exact Nat.zero_le _
        · exact hle.trans (hmem hpos)
    · cases hsize

section Pass
variable {σ : Type} {codeOf : Hash → List UInt8} (it : EVMInterpreter) (h : Host σ) {f : Frame}
  (s : σ)

/-- When the dynamic gas lets the run go on, the frame is charged, with the
memory `memoryGasCost` returned if the gas function charges the memory. -/
theorem payDynamicGas_ensures (o : operation) (memorySize : Nat)
    (hd : ∀ g, o.dynamicGas = some g → g.depth ≤ f.stack.len) :
    Ensures (fun r : Bool × Frame × σ => r.1 = true → f.Charged r.2.1 ∧
      Memory.ChargedBy (o.dynamicGas.any GasFunc.chargesMemory) f.memory memorySize r.2.1.memory)
      (payDynamicGas it.gasTable h o f s memorySize) := by
  unfold payDynamicGas
  split
  · rename_i hg
    exact ensures_some fun _ => ⟨.refl f, by rw [hg]; rfl⟩
  · rename_i g hg
    refine (g.run_ensures it.gasTable h s (hd g hg)).map fun r hr => ?_
    cases r with
    | error e => nofun
    | ok r =>
      obtain ⟨cost, f₁, s₁⟩ := r
      obtain ⟨hf₁, hmem⟩ := hr
      -- the cost is taken from the charged frame, which keeps its memory
      refine fun _ => ⟨hf₁.trans (f₁.UseGas_charged cost), ?_⟩
      dsimp only
      rw [hg, Option.any_some, f₁.UseGas_memory cost]
      exact hmem

/-- The dynamic gas returns on a stack that holds what the gas function reads,
when the refund `SSTORE` may take back is there. -/
theorem payDynamicGas_isSome (o : operation) (memorySize : Nat)
    (hd : ∀ g, o.dynamicGas = some g → g.depth ≤ f.stack.len)
    (hsub : (h.db.SubRefund s NetSstoreClearRefund).isSome) :
    (payDynamicGas it.gasTable h o f s memorySize).isSome := by
  unfold payDynamicGas
  split
  · rfl
  · rename_i g hg
    rw [Option.isSome_map]
    exact (g.run_gasLeaves it.gasTable h s (hd g hg) fun _ => hsub).isSome

/-- Write protection returns when a `CALL` has its value on the stack. -/
theorem writeProtected_isSome (op : OpCode) (o : operation) {st : Stack}
    (hcall : op = CALL → 3 ≤ st.len) : (it.writeProtected h op o st).isSome := by
  unfold EVMInterpreter.writeProtected
  split_ifs with hro hw hop
  · rfl
  · rw [Option.isSome_map, Stack.Back_eq (by have := hcall hop; omega)]
    rfl
  · rfl
  · rfl

/-- What holds at the head of the loop: a stack within the limit, a memory no
longer than `memoryGasCost` accepts and paid for, and a contract whose code
fits a `uint64` and whose jump analyses are sound. -/
structure Head (codeOf : Hash → List UInt8) (f : Frame) : Prop where
  stack : f.stack.len ≤ StackLimit
  memLen : f.memory.Len ≤ 0x1FFFFFFFE0
  paid : f.memory.Paid
  code : f.contract.Code.length < 2 ^ 64
  cache : f.contract.CacheSound codeOf

/-- What the checks and charges of a pass leave: a halt, or a frame ready for
the operation's execute function, whose memory stays within what
`memoryGasCost` accepts and is paid for, and whose stack leaves room for the
pushes. -/
def Prepared.Ok (codeOf : Hash → List UInt8) : Prepared σ → Prop
  | .halt .. => True
  | .exec o f _ => ∃ x, o.execute = some x ∧ Ready codeOf x f ∧
      f.memory.Len ≤ 0x1FFFFFFFE0 ∧ f.memory.Paid ∧ f.stack.len - x.pops + x.pushes ≤ StackLimit

/-- A frame with the stack and contract of a loop head, and a paid memory that
covers the entry's range within what `memoryGasCost` accepts, is ready for the
entry's execute function, with room for its pushes. -/
theorem exec_ok {o : operation} {x : Execute} (hruns : o.Runs x)
    (hmin : o.minStack ≤ f.stack.len) (hmax : f.stack.len ≤ o.maxStack) (hf : Head codeOf f)
    {f' : Frame} (hstack : f'.stack = f.stack) (hcontract : f'.contract = f.contract)
    (hmem : f'.memory.Len ≤ 0x1FFFFFFFE0) (hpaid : f'.memory.Paid)
    (hcov : Covers f'.memory f'.stack o.memorySize) : Prepared.Ok codeOf (.exec o f' s) := by
  have hpops := hruns.pops
  have hpushes := hruns.pushes
  refine ⟨x, hruns.execute, ⟨hruns.admissible, ?_, hruns.memory ▸ hcov, by omega, ?_, ?_⟩, hmem,
    hpaid, ?_⟩
  · rw [hstack]
    omega
  · rw [hcontract]
    exact hf.code
  · rw [hcontract]
    exact hf.cache
  -- `maxStack` leaves room under the limit for what is pushed over the pops
  · rw [hstack]
    omega

/-- The frame handed to `execute`: the memory grown to the size worked out. -/
theorem expand_frame (f : Frame) (size : Nat) :
    let f' := if size > 0 then { f with memory := f.memory.Resize size } else f
    f'.stack = f.stack ∧ f'.contract = f.contract ∧ f'.memory = f.memory.Resize size := by
  dsimp only
  split_ifs with hpos
  · exact ⟨rfl, rfl, rfl⟩
  · rw [show size = 0 by omega, Memory.Resize_zero]
    exact ⟨rfl, rfl, rfl⟩

/-- The charges of a pass, from a loop head whose stack passed the bounds of
an entry that `Runs`, leave a frame ready for its execute function. -/
theorem charge_ensures {o : operation} {x : Execute} (hruns : o.Runs x)
    (hmin : o.minStack ≤ f.stack.len) (hmax : f.stack.len ≤ o.maxStack) (hf : Head codeOf f) :
    Ensures (Prepared.Ok codeOf) (it.charge h o f s) := by
  unfold EVMInterpreter.charge
  -- the constant gas
  have hf₁ := f.UseGas_charged o.constantGas
  have hm₁ := f.UseGas_memory o.constantGas
  generalize f.UseGas o.constantGas = p at hf₁ hm₁
  obtain ⟨ok, f₁⟩ := p
  dsimp only at hf₁ hm₁ ⊢
  split
  · exact ensures_pure trivial
  -- the memory size
  refine Ensures.bind (fun _ h => h) fun r hr => ?_
  cases r with
  | error e => exact ensures_pure trivial
  | ok size =>
    obtain ⟨hwords, hnone, hcovers⟩ := requiredMemory_ok hr
    -- the dynamic gas
    refine (payDynamicGas_ensures it h s o size
      fun g hg => hf₁.stack ▸ (hruns.gasDepth g hg).trans hmin).bind fun ⟨ok₂, f₂, s₂⟩ hpost => ?_
    dsimp only
    split
    · exact ensures_pure trivial
    rename_i hok
    obtain ⟨hf₂, hmem⟩ := hpost (by simpa using hok)
    rw [hm₁] at hmem
    replace hf₂ : f.Charged f₂ := hf₁.trans hf₂
    -- an entry that computes a size charges the memory for it
    have hz : o.dynamicGas.any GasFunc.chargesMemory = false → size = 0 := by
      intro hc
      cases hm : o.memorySize with
      | none => exact hnone hm
      | some m =>
        rw [hruns.charges m hm] at hc
        cases hc
    have hsize : size ≤ 0x1FFFFFFFE0 := by
      cases hc : o.dynamicGas.any GasFunc.chargesMemory
      · rw [hz hc]
        exact Nat.zero_le _
      · rw [hc] at hmem
        exact hmem.bound
    -- the expansion of the memory, to the size the dynamic gas charged for
    obtain ⟨hstack, hcontract, hresize⟩ := expand_frame f₂ size
    generalize (if size > 0 then { f₂ with memory := f₂.memory.Resize size } else f₂) = f₃
      at hstack hcontract hresize ⊢
    have hlen : f₃.memory.Len ≤ 0x1FFFFFFFE0 := by
      rw [hresize, Memory.Len_Resize, hf₂.memLen]
      exact max_le hf.memLen hsize
    have hpaid : f₃.memory.Paid := by
      rw [hresize]
      exact hmem.paid hf.paid hf.memLen hwords hz
    have hcov : Covers f₃.memory f₃.stack o.memorySize := by
      rw [hstack, hf₂.stack, ← hf₁.stack]
      refine hcovers _ fun _ => ?_
      rw [hresize, Memory.Len_Resize]
      exact le_max_right _ _
    exact ensures_pure (exec_ok s hruns hmin hmax hf (hstack.trans hf₂.stack)
      (hcontract.trans hf₂.contract) hlen hpaid hcov)

theorem charge_isSome {o : operation} {x : Execute} (hruns : o.Runs x)
    (hmin : o.minStack ≤ f.stack.len) (hsub : (h.db.SubRefund s NetSstoreClearRefund).isSome) :
    (it.charge h o f s).isSome := by
  unfold EVMInterpreter.charge
  have hf₁ := f.UseGas_charged o.constantGas
  generalize f.UseGas o.constantGas = p at hf₁
  obtain ⟨ok, f₁⟩ := p
  dsimp only at hf₁ ⊢
  split
  · rfl
  obtain ⟨r, hr⟩ := Option.isSome_iff_exists.mp (requiredMemory_isSome o f₁.stack
    fun m hm => hf₁.stack ▸ (hruns.memoryDepth m hm).trans hmin)
  simp only [hr, Option.bind_eq_bind, Option.bind_some]
  cases r with
  | error e => rfl
  | ok size =>
    obtain ⟨⟨ok₂, f₂, s₂⟩, hpay⟩ := Option.isSome_iff_exists.mp (payDynamicGas_isSome it h s o size
      (fun g hg => hf₁.stack ▸ (hruns.gasDepth g hg).trans hmin) hsub)
    simp only [hpay, Option.bind_some]
    split <;> rfl

/-- The checks and charges of a pass, from a loop head, under a table whose
entries pass the check, leave a halt or a frame ready for `execute`. -/
theorem prepare_ensures (hT : ∀ op, (it.JumpTable op).runnable = true) (hf : Head codeOf f) :
    Ensures (Prepared.Ok codeOf) (it.prepare h f s) := by
  unfold EVMInterpreter.prepare
  dsimp only
  split
  · exact ensures_pure trivial
  rename_i hv
  obtain ⟨x, hruns⟩ := operation.runs_of_runnable (hT _) (by simpa using hv)
  split
  · exact ensures_pure trivial
  split
  · exact ensures_pure trivial
  refine (ensures_true _).bind fun _ _ => ?_
  split
  · exact ensures_pure trivial
  · exact charge_ensures it h s hruns (by omega) (by omega) hf

/-- The checks and charges of a pass return: a valid entry's `minStack` covers
what is read before `execute`, and a `CALL`'s covers its value. -/
theorem prepare_isSome (hT : ∀ op, (it.JumpTable op).runnable = true)
    (hcall : 3 ≤ (it.JumpTable CALL).minStack)
    (hsub : (h.db.SubRefund s NetSstoreClearRefund).isSome) : (it.prepare h f s).isSome := by
  unfold EVMInterpreter.prepare
  dsimp only
  split
  · rfl
  rename_i hv
  obtain ⟨x, hruns⟩ := operation.runs_of_runnable (hT _) (by simpa using hv)
  split
  · rfl
  split
  · rfl
  rename_i hmin hmax
  have hcall' : f.contract.GetOp f.pc = CALL → 3 ≤ f.stack.len := fun hop => by
    rw [hop] at hmin
    omega
  obtain ⟨wp, hwp⟩ := Option.isSome_iff_exists.mp
    (writeProtected_isSome it h _ (it.JumpTable (f.contract.GetOp f.pc)) hcall')
  simp only [hwp, Option.bind_eq_bind, Option.bind_some]
  split
  · rfl
  · exact charge_isSome it h s hruns (by omega) hsub

/-- What a pass of the loop leaves: the end of the run, or a loop head. -/
def Step.Ok (codeOf : Hash → List UInt8) : Step σ → Prop
  | .next f _ => Head codeOf f
  | .done .. => True

/-- Going on after `execute`, at the next instruction or the jump target, keeps
the loop head that `execute` left. -/
theorem afterExecute_ok (o : operation) (res : List UInt8) (hf : Head codeOf f) :
    Step.Ok codeOf (afterExecute o res f s) := by
  have hf' : Head codeOf (if o.returns then { f with returnData := res } else f) := by
    split_ifs
    · exact ⟨hf.stack, hf.memLen, hf.paid, hf.code, hf.cache⟩
    · exact hf
  unfold afterExecute
  dsimp only
  generalize (if o.returns then { f with returnData := res } else f) = f' at hf' ⊢
  split_ifs
  · trivial
  · trivial
  · exact ⟨hf'.stack, hf'.memLen, hf'.paid, hf'.code, hf'.cache⟩
  · exact hf'

/-- A pass of the loop from a loop head goes on, if it does, at a loop head:
`prepare` leaves a frame ready for `execute`, and `Execute.run_returns` leaves
its stack at the height `maxStack` allowed for. -/
theorem step_ensures (hT : ∀ op, (it.JumpTable op).runnable = true) (hh : h.SliceBounded)
    (hf : Head codeOf f) : Ensures (Step.Ok codeOf) (it.step h f s) := by
  unfold EVMInterpreter.step
  refine (prepare_ensures it h s hT hf).bind fun p hp => ?_
  cases p with
  | halt err f' s' => exact ensures_pure trivial
  | exec o f' s' =>
    obtain ⟨x, hx, hready, hmem, hpaid, hstack⟩ := hp
    simp only [hx, Option.bind_eq_bind, Option.bind_some]
    refine (Execute.run_returns hh x hready).ensures.bind fun r hr => ?_
    cases r with
    | error e => exact ensures_pure trivial
    | ok r =>
      obtain ⟨res, f'', s''⟩ := r
      obtain ⟨hlen, hmemLen, hcost, hcode, hcache⟩ := hr
      refine ensures_pure (afterExecute_ok s'' o res
        ⟨by omega, by omega, hpaid.keep hmemLen hcost, ?_, hcache⟩)
      rw [hcode]
      exact hready.code

/-- A pass of the loop from a loop head does not panic, when the refund
`SSTORE` may take back is there. -/
theorem step_isSome (hT : ∀ op, (it.JumpTable op).runnable = true)
    (hcall : 3 ≤ (it.JumpTable CALL).minStack) (hh : h.SliceBounded) (hf : Head codeOf f)
    (hsub : (h.db.SubRefund s NetSstoreClearRefund).isSome) : (it.step h f s).isSome := by
  unfold EVMInterpreter.step
  obtain ⟨p, hp⟩ := Option.isSome_iff_exists.mp (prepare_isSome it h s hT hcall hsub)
  have hok := (prepare_ensures it h s hT hf) p hp
  simp only [hp, Option.bind_eq_bind, Option.bind_some]
  cases p with
  | halt err f' s' => rfl
  | exec o f' s' =>
    obtain ⟨x, hx, hready, -, -, -⟩ := hok
    obtain ⟨r, hr, -⟩ := Execute.run_returns (s := s') hh x hready
    simp only [hx, hr, Option.bind_some]
    cases r <;> rfl

end Pass

/-! ## Every loop head of a run -/

section Run
variable {σ : Type} {codeOf : Hash → List UInt8} {it : EVMInterpreter} {h : Host σ}

/-- The frame `Run` starts with is a loop head when its contract's code fits
and its analyses are sound. -/
theorem newFrame_head {contract : Contract} (hcode : contract.Code.length < 2 ^ 64)
    (hcache : contract.CacheSound codeOf) (gas callGasTemp : Nat) :
    Head codeOf (newFrame contract gas callGasTemp) :=
  ⟨by simp [newFrame, newstack, Stack.len, StackLimit], by simp [newFrame, NewMemory, Memory.Len],
    NewMemory_paid, hcode, hcache⟩

/-- Every state a run reaches from a loop head is a loop head: the invariant
of one pass, carried along `Reachable`. -/
theorem Reachable.head (hT : ∀ op, (it.JumpTable op).runnable = true) (hh : h.SliceBounded)
    {f₀ f : Frame} {s₀ s : σ} (h₀ : Head codeOf f₀) (hr : Reachable it h f₀ s₀ f s) :
    Head codeOf f := by
  induction hr with
  | start => exact h₀
  | step _ hstep ih => exact step_ensures it h _ hT hh ih _ hstep

/-- At every loop head of a run with one of the fork tables, started on a
contract whose code fits and whose analyses are sound, an operation that
passed the checks and charges of `Run` executes without an out-of-range
access: its execute function returns, and leaves at most `StackLimit` items
on the stack and the memory as long as `Run` made it. -/
theorem execute_in_bounds (hT : it.JumpTable ∈ instructionSets) (hh : h.SliceBounded)
    {contract : Contract} (hcode : contract.Code.length < 2 ^ 64)
    (hcache : contract.CacheSound codeOf) {gas callGasTemp : Nat} {s₀ s s' : σ} {f f' : Frame}
    (hr : Reachable it h (newFrame contract gas callGasTemp) s₀ f s) {o : operation}
    (hp : it.prepare h f s = some (.exec o f' s')) :
    ∃ x, o.execute = some x ∧
      Returns (fun r => ∀ res f'' s'', r = .ok (res, f'', s'') →
        f''.stack.len ≤ StackLimit ∧ f''.memory.Len = f'.memory.Len) (x.run h f' s') := by
  have hrun := instructionSets_runnable hT
  have hf := hr.head hrun hh (newFrame_head hcode hcache gas callGasTemp)
  obtain ⟨x, hx, hready, -, -, hstack⟩ := prepare_ensures it h s hrun hf _ hp
  refine ⟨x, hx, (Execute.run_returns hh x hready).mono fun r hk => ?_⟩
  rintro res f'' s'' rfl
  have hk : f'.Keeps codeOf (f'.stack.len - x.pops + x.pushes) f'' := hk
  exact ⟨hk.len ▸ hstack, hk.memLen⟩

/-- A contract that stores 42 in the first word of memory:
`PUSH1 42 PUSH1 0 MSTORE`. -/
def mstoreContract : Contract := ⟨∅, none, [PUSH1, 42, PUSH1, 0, MSTORE], 0⟩

/-- An interpreter with Constantinople's table and the EIP-150 prices, not
read-only. -/
def constantinopleInterpreter : EVMInterpreter :=
  ⟨newConstantinopleInstructionSet, ⟨700, 700, 400, 400, 200, 700, 5000, 50, 25000⟩, false⟩

theorem constantinopleInterpreter_table :
    constantinopleInterpreter.JumpTable ∈ instructionSets := by
  simp [constantinopleInterpreter, instructionSets]

theorem mstoreContract_cacheSound : mstoreContract.CacheSound (fun _ => []) :=
  ⟨by simp [mstoreContract], by simp [mstoreContract], by simp [mstoreContract]⟩

/-- Two passes push the word and its offset; the third prepares `MSTORE`,
growing the memory to 32 bytes, and the store then executes within it. -/
theorem execute_in_bounds_at_mstore :
    ∃ f s o f' s', Reachable constantinopleInterpreter (default : Host Unit)
        (newFrame mstoreContract 100000 0) () f s ∧
      constantinopleInterpreter.prepare default f s = some (.exec o f' s') ∧ f'.memory.Len = 32 ∧
      ∃ x, o.execute = some x ∧
        Returns (fun r => ∀ res f'' s'', r = .ok (res, f'', s'') →
          f''.stack.len ≤ StackLimit ∧ f''.memory.Len = f'.memory.Len) (x.run default f' s') := by
  obtain ⟨f, s, o, f', s', hr, hp, hlen⟩ : ∃ f s o f' s', Reachable constantinopleInterpreter
      (default : Host Unit) (newFrame mstoreContract 100000 0) () f s ∧
      constantinopleInterpreter.prepare default f s = some (.exec o f' s') ∧ f'.memory.Len = 32 :=
    ⟨_, _, _, _, _, .step (.step .start rfl) rfl, rfl, rfl⟩
  have hh : (default : Host Unit).SliceBounded := ⟨by decide, fun _ _ => Nat.two_pow_pos 64⟩
  exact ⟨f, s, o, f', s', hr, hp, hlen, execute_in_bounds constantinopleInterpreter_table hh
    (by decide) mstoreContract_cacheSound hr hp⟩

/-- From every loop head of a run with one of the fork tables, started on a
contract whose code fits and whose analyses are sound, the stack is within the
limit, the memory within what `memoryGasCost` accepts, and the next pass of
the loop does not panic; for a host whose slices fit an `int` and whose
`SubRefund` of the net-metering refund returns. -/
theorem loop_never_panics (hT : it.JumpTable ∈ instructionSets) (hh : h.SliceBounded)
    (hsub : ∀ s, (h.db.SubRefund s NetSstoreClearRefund).isSome) {contract : Contract}
    (hcode : contract.Code.length < 2 ^ 64) (hcache : contract.CacheSound codeOf)
    {gas callGasTemp : Nat} {s₀ s : σ} {f : Frame}
    (hr : Reachable it h (newFrame contract gas callGasTemp) s₀ f s) :
    f.stack.len ≤ StackLimit ∧ f.memory.Len ≤ 0x1FFFFFFFE0 ∧ (it.step h f s).isSome := by
  have hrun := instructionSets_runnable hT
  have hf := hr.head hrun hh (newFrame_head hcode hcache gas callGasTemp)
  exact ⟨hf.stack, hf.memLen, step_isSome it h s hrun (instructionSets_call hT) hh hf (hsub s)⟩

/-- A host that answers every query with a default, and whose `SubRefund`
returns. -/
def refundingHost : Host Unit :=
  { (default : Host Unit) with
    db := { (default : Host Unit).db with SubRefund := fun s _ => some s } }

/-- Three passes store the word; the run is then at a loop head past the code,
with 32 bytes of memory, from which the next pass returns. -/
theorem loop_never_panics_after_mstore :
    ∃ f s, Reachable constantinopleInterpreter refundingHost (newFrame mstoreContract 100000 0) ()
        f s ∧ f.memory.Len = 32 ∧
      f.stack.len ≤ StackLimit ∧ f.memory.Len ≤ 0x1FFFFFFFE0 ∧
      (constantinopleInterpreter.step refundingHost f s).isSome := by
  obtain ⟨f, s, hr, hlen⟩ : ∃ f s, Reachable constantinopleInterpreter refundingHost
      (newFrame mstoreContract 100000 0) () f s ∧ f.memory.Len = 32 :=
    ⟨_, _, .step (.step (.step .start rfl) rfl) rfl, rfl⟩
  have hh : refundingHost.SliceBounded := ⟨by decide, fun _ _ => Nat.two_pow_pos 64⟩
  exact ⟨f, s, hr, hlen, loop_never_panics constantinopleInterpreter_table hh (fun _ => rfl)
    (by decide) mstoreContract_cacheSound hr⟩

/-- At every loop head of a run with one of the fork tables, started on a
contract whose code fits and whose analyses are sound, the memory holds whole
words and `lastGasCost` is their cost. So `memoryGasCost` charges for a size
up to `0x1FFFFFFFE0` exactly the cost of the words of the larger of the size
and the memory over the cost of the memory: the difference is never negative
and the cost fits a `uint64`. It refuses every larger size. -/
theorem memory_expansion_paid (hT : it.JumpTable ∈ instructionSets) (hh : h.SliceBounded)
    {contract : Contract} (hcode : contract.Code.length < 2 ^ 64)
    (hcache : contract.CacheSound codeOf) {gas callGasTemp : Nat} {s₀ s : σ} {f : Frame}
    (hr : Reachable it h (newFrame contract gas callGasTemp) s₀ f s) :
    f.memory.Len % 32 = 0 ∧ f.memory.lastGasCost = memoryCost (f.memory.Len / 32) ∧
      (∀ size ≤ 0x1FFFFFFFE0,
        memoryCost (f.memory.Len / 32) ≤ memoryCost (toWordSize (max size f.memory.Len)) ∧
        memoryCost (toWordSize (max size f.memory.Len)) < 2 ^ 64 ∧
        memoryGasCost f.memory size =
          .ok (memoryCost (toWordSize (max size f.memory.Len)) - memoryCost (f.memory.Len / 32),
            { f.memory with lastGasCost := memoryCost (toWordSize (max size f.memory.Len)) })) ∧
      ∀ (mem : Memory) (size : Nat), 0x1FFFFFFFE0 < size →
        memoryGasCost mem size = .error .errGasUintOverflow := by
  have hf := hr.head (instructionSets_runnable hT) hh (newFrame_head hcode hcache gas callGasTemp)
  have hlen := hf.memLen
  obtain ⟨hwords, hcost⟩ := hf.paid
  refine ⟨hwords, hcost, fun size hs => ⟨?_, ?_, memoryGasCost_eq hf.paid hf.memLen hs⟩,
    fun _ _ => memoryGasCost_overflow⟩
  all_goals rw [toWordSize_of_le (by omega)]
  -- the words of the larger size are at least the memory's, and fit 32 bits
  · exact memoryCost_mono (by omega)
  · exact (memoryCost_lt (by omega)).2

/-- Three passes store the word; the run is then at a loop head with one word
of memory, whose cost is paid. -/
theorem memory_expansion_paid_after_mstore :
    ∃ f s, Reachable constantinopleInterpreter (default : Host Unit)
        (newFrame mstoreContract 100000 0) () f s ∧ f.memory.Len = 32 ∧
      f.memory.Len % 32 = 0 ∧ f.memory.lastGasCost = memoryCost (f.memory.Len / 32) ∧
      (∀ size ≤ 0x1FFFFFFFE0,
        memoryCost (f.memory.Len / 32) ≤ memoryCost (toWordSize (max size f.memory.Len)) ∧
        memoryCost (toWordSize (max size f.memory.Len)) < 2 ^ 64 ∧
        memoryGasCost f.memory size =
          .ok (memoryCost (toWordSize (max size f.memory.Len)) - memoryCost (f.memory.Len / 32),
            { f.memory with lastGasCost := memoryCost (toWordSize (max size f.memory.Len)) })) ∧
      ∀ (mem : Memory) (size : Nat), 0x1FFFFFFFE0 < size →
        memoryGasCost mem size = .error .errGasUintOverflow := by
  obtain ⟨f, s, hr, hlen⟩ : ∃ f s, Reachable constantinopleInterpreter (default : Host Unit)
      (newFrame mstoreContract 100000 0) () f s ∧ f.memory.Len = 32 :=
    ⟨_, _, .step (.step (.step .start rfl) rfl) rfl, rfl⟩
  have hh : (default : Host Unit).SliceBounded := ⟨by decide, fun _ _ => Nat.two_pow_pos 64⟩
  exact ⟨f, s, hr, hlen, memory_expansion_paid constantinopleInterpreter_table hh (by decide)
    mstoreContract_cacheSound hr⟩

end Run

end Btp.Vm
