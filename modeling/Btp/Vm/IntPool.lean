import Mathlib
import Btp.Lib.PoolPoison
import Btp.Vm.Instructions

/-!
# The integer pool

`intPool` of `core/vm/intpool.go` lends `*big.Int` objects to the execution
functions of `core/vm/instructions.go`: `get` pops one from the pool (its old
value left in it), `getZero` also zeroes it, both allocate when the pool is
empty, and `put` pushes objects back unless the pool already holds more than
`poolLimit`. `EVMInterpreter.Run` shares one pool with every nested call and
puts its stack back into it when it ends. With the build flag `verifyPool`,
`put` overwrites each object with `checkVal` and `Run` checks after every
operation that the whole pool still holds `checkVal`.

Each execution function is written here as a program of the pool machine
(`PoolMachine`): its pops, peeks, pushes, gets and puts, its writes into
objects and its calls, in the source's order. What the objects' values are,
the state, memory and gas, and the loop head of `Run` with its jump table are
left open (`interpreter` takes them from any machine). An `if` whose branches
only write different values into the same objects is one write; the others
are branches. Registers are numbered by the order the function names its
operands, from `1`; `0` is the contract's value object.

Every program passes the ownership check (`poolProg_checked`), so every run
keeps the pool apart from all objects in use, and a verifying run goes in
lockstep with the plain one (`intPool_discipline`).
-/

namespace Btp.Vm

open PoolMachine

/-- A pool step of an execution function. Value functions, effects and
conditions are numbered within the function; a call is named by the
function that makes it. -/
abbrev PoolAct := Act (Execute × Nat) (Execute × Nat) Execute

/-- A pool program of an execution function. -/
abbrev PoolProg := Prog (Execute × Nat) (Execute × Nat) (Execute × Nat) Execute

/-- `checkVal`: the value `put` writes into objects when verifying. -/
def checkVal : Int := -42

/-- `poolLimit`: past this many objects `put` keeps none. -/
def poolLimit : Nat := 256

namespace IntPool

/-- `x, y := stack.pop(), stack.peek()`, `y` written from both, `put(x)`. -/
def popPeek (x : Execute) : PoolProg :=
  .seq [.pop 1, .peek 2, .set 2 (x, 0) [1, 2], .put [1]] .done

/-- `x, y := stack.pop(), stack.pop()`, `x` written from both and pushed,
`put(y)`. -/
def popPopPush (x : Execute) : PoolProg :=
  .seq [.pop 1, .pop 2, .set 1 (x, 0) [1, 2], .push 1, .put [2]] .done

/-- `x, y, z := stack.pop(), stack.pop(), stack.pop()`, `x` written from the
three and pushed, `put(y, z)`. -/
def modArith (x : Execute) : PoolProg :=
  .seq [.pop 1, .pop 2, .pop 3, .set 1 (x, 0) [1, 2, 3], .push 1, .put [2, 3]] .done

/-- The top object written in place from itself. -/
def peekSet (x : Execute) : PoolProg :=
  .seq [.peek 1, .set 1 (x, 0) [1]] .done

/-- `stack.push(interpreter.intPool.get().Set…(…))`, from the objects `args`. -/
def getPush (x : Execute) (args : List Reg) : PoolProg :=
  .seq [.get 1, .set 1 (x, 0) args, .push 1] .done

/-- The operands `args` popped, read by an effect, and `puts` put back. -/
def popEffectPut (x : Execute) (args puts : List Reg) : PoolProg :=
  .seq (args.map .pop ++ [.effect (x, 0) args, .put puts]) .done

/-- `opSHL` and `opSHR`: `math.U256` of the popped shift and of the peeked
value, which is then shifted in place; `put(shift)` deferred. -/
def shift (x : Execute) : PoolProg :=
  .seq [.pop 1, .set 1 (x, 0) [1], .peek 2, .set 2 (x, 1) [2], .set 2 (x, 2) [1, 2], .put [1]]
    .done

/-- `math.S256` of the object in `r`: the object itself below `2^255`, else a
new object (through `t`) holding its value less `2^256`, which stands for it
from then on. -/
def s256 (x : Execute) (k : Nat) (r t : Reg) (p : PoolProg) : PoolProg :=
  .branch (x, k) [r] p (.seq [.new t, .set t (x, k) [r], .move r t] p)

/-- `opSdiv` and `opSmod`: both operands through `math.S256`, a result from
`getZero`, pushed at once when the operands `zero` read say so, else
written after `x.Abs(x)` and `y.Abs(y)`, negated when the operands `sign`
read say so, and `math.U256`; `put(x, y)`. -/
def signed (x : Execute) (zero sign : List Reg) : PoolProg :=
  .seq [.pop 1] <| s256 x 0 1 5 <| .seq [.pop 2] <| s256 x 1 2 5 <| .seq [.getZero 3] <|
  .branch (x, 2) zero (.seq [.push 3, .put [1, 2]] .done) <|
  .branch (x, 3) sign
    (.seq [.set 1 (x, 2) [1], .set 2 (x, 3) [2], .set 3 (x, 4) [1, 2], .set 3 (x, 5) [3],
      .set 3 (x, 6) [3], .push 3, .put [1, 2]] .done)
    (.seq [.set 1 (x, 2) [1], .set 2 (x, 3) [2], .set 3 (x, 4) [1, 2], .set 3 (x, 6) [3],
      .push 3, .put [1, 2]] .done)

/-- `makeLog`'s loop: `topics[i] = common.BigToHash(stack.pop())` for the
`n` topics from the `i`-th on. -/
def logTopics (x : Execute) (i : Nat) : Nat → PoolProg → PoolProg
  | 0, p => p
  | n + 1, p => .seq [.pop 3, .effect (x, i + 1) [3]] (logTopics x (i + 1) n p)

/-- After `evm.Create`/`Create2`: `contract.Gas += returnGas`, `put(puts…)`. -/
def createEnd (x : Execute) (puts : List Reg) : PoolProg :=
  .seq [.effect (x, 1) [], .put puts] .done

/-- After a call: the result pushed from `getZero` on an error, else from
`get` set to `1`, into `res`; the return data written to memory at `ro`,
`rs`; `contract.Gas += returnGas`; `put(puts…)`. -/
def callEnd (x : Execute) (res ro rs : Reg) (puts : List Reg) : PoolProg :=
  .branch (x, 0) [] (.seq [.getZero res, .push res, .effect (x, 0) [ro, rs], .effect (x, 1) [],
      .put puts] .done)
    (.seq [.get res, .set res (x, 0) [], .push res, .effect (x, 0) [ro, rs], .effect (x, 1) [],
      .put puts] .done)

/-- `opCall` and `opCallCode`: the popped gas put back at once, the value
through `math.U256` and handed to the callee as its value object. -/
def callValue (x : Execute) : PoolProg :=
  .seq [.pop 1, .put [1], .pop 2, .pop 3, .pop 4, .pop 5, .pop 6, .pop 7, .set 3 (x, 0) [3],
    .call x [2, 3, 4, 5] (some 3)] (callEnd x 8 6 7 [2, 3, 4, 5, 6, 7])

/-- `opDelegateCall` and `opStaticCall`: no value popped; the callee's value
object is `value` (the caller's own for `DELEGATECALL`, a new one for
`STATICCALL`). -/
def callNoValue (x : Execute) (value : Option Reg) : PoolProg :=
  .seq [.pop 1, .put [1], .pop 2, .pop 3, .pop 4, .pop 5, .pop 6, .call x [2, 3, 4] value]
    (callEnd x 7 5 6 [2, 3, 4, 5, 6])

end IntPool

/-- The pool program of each execution function, with `Stack.dup` and
`Stack.swap` for `makeDup` and `makeSwap`. -/
def Execute.poolProg : Execute → PoolProg
  | .opStop => .done
  | .opJumpdest => .done
  | .opAdd => IntPool.popPeek .opAdd
  | .opSub => IntPool.popPeek .opSub
  | .opDiv => IntPool.popPeek .opDiv
  | .opLt => IntPool.popPeek .opLt
  | .opGt => IntPool.popPeek .opGt
  | .opSlt => IntPool.popPeek .opSlt
  | .opSgt => IntPool.popPeek .opSgt
  | .opEq => IntPool.popPeek .opEq
  | .opOr => IntPool.popPeek .opOr
  | .opXor => IntPool.popPeek .opXor
  | .opByte => IntPool.popPeek .opByte
  | .opMul => IntPool.popPopPush .opMul
  | .opMod => IntPool.popPopPush .opMod
  | .opAnd => IntPool.popPopPush .opAnd
  | .opAddmod => IntPool.modArith .opAddmod
  | .opMulmod => IntPool.modArith .opMulmod
  | .opNot => IntPool.peekSet .opNot
  | .opIszero => IntPool.peekSet .opIszero
  | .opBalance => IntPool.peekSet .opBalance
  | .opExtCodeSize => IntPool.peekSet .opExtCodeSize
  | .opExtCodeHash => IntPool.peekSet .opExtCodeHash
  | .opSload => IntPool.peekSet .opSload
  | .opSdiv => IntPool.signed .opSdiv [1, 2] [1, 2]
  | .opSmod => IntPool.signed .opSmod [2] [1]
  | .opExp =>
    .seq [.pop 1, .pop 2] <|
    .branch (.opExp, 0) [2] (.seq [.set 1 (.opExp, 0) [], .push 1, .put [2]] .done) <|
    .branch (.opExp, 1) [1] (.seq [.set 1 (.opExp, 1) [], .push 1, .put [2]] .done) <|
    .branch (.opExp, 2) [2] (.seq [.push 1, .put [2]] .done) <|
    -- `math.Exp` returns a new object and squares `base` in place
    .seq [.new 3, .set 3 (.opExp, 2) [1, 2], .set 1 (.opExp, 3) [1, 2], .push 3, .put [1],
      .put [2]] .done
  | .opSignExtend =>
    .seq [.pop 1] <|
    .branch (.opSignExtend, 0) [1]
      -- `mask := back.Lsh(common.Big1, bit)`: the mask is `back` itself
      (.seq [.pop 2, .set 1 (.opSignExtend, 0) [1], .set 1 (.opSignExtend, 1) [1]] <|
        .branch (.opSignExtend, 1) [1, 2]
          (.seq [.set 1 (.opSignExtend, 2) [1], .set 2 (.opSignExtend, 3) [1, 2],
            .set 2 (.opSignExtend, 5) [2], .push 2, .put [1]] .done)
          (.seq [.set 2 (.opSignExtend, 4) [1, 2], .set 2 (.opSignExtend, 5) [2], .push 2,
            .put [1]] .done))
      (.seq [.put [1]] .done)
  | .opSHL => IntPool.shift .opSHL
  | .opSHR => IntPool.shift .opSHR
  | .opSAR =>
    .seq [.pop 1, .set 1 (.opSAR, 0) [1], .pop 2] <| IntPool.s256 .opSAR 1 2 5 <|
    .seq [.set 2 (.opSAR, 2) [1, 2], .push 2, .put [1]] .done
  | .opSha3 =>
    .seq [.pop 1, .pop 2, .effect (.opSha3, 0) [1, 2], .get 3, .set 3 (.opSha3, 0) [], .push 3,
      .put [1, 2]] .done
  | .opAddress => IntPool.getPush .opAddress []
  | .opOrigin => IntPool.getPush .opOrigin []
  | .opCaller => IntPool.getPush .opCaller []
  | .opCallDataSize => IntPool.getPush .opCallDataSize []
  | .opCodeSize => IntPool.getPush .opCodeSize []
  | .opGasprice => IntPool.getPush .opGasprice []
  | .opReturnDataSize => IntPool.getPush .opReturnDataSize []
  | .opCoinbase => IntPool.getPush .opCoinbase []
  | .opTimestamp => IntPool.getPush .opTimestamp []
  | .opNumber => IntPool.getPush .opNumber []
  | .opDifficulty => IntPool.getPush .opDifficulty []
  | .opGasLimit => IntPool.getPush .opGasLimit []
  | .opPc => IntPool.getPush .opPc []
  | .opMsize => IntPool.getPush .opMsize []
  | .opGas => IntPool.getPush .opGas []
  | .opCallValue => IntPool.getPush .opCallValue [0]
  | .opCallDataLoad =>
    -- `get` comes before `stack.pop()`, which is never put back
    .seq [.get 1, .pop 2, .set 1 (.opCallDataLoad, 0) [2], .push 1] .done
  | .opCallDataCopy => IntPool.popEffectPut .opCallDataCopy [1, 2, 3] [1, 2, 3]
  | .opCodeCopy => IntPool.popEffectPut .opCodeCopy [1, 2, 3] [1, 2, 3]
  | .opExtCodeCopy => IntPool.popEffectPut .opExtCodeCopy [1, 2, 3, 4] [2, 3, 4]
  | .opReturnDataCopy =>
    .seq [.pop 1, .pop 2, .pop 3, .get 4, .set 4 (.opReturnDataCopy, 0) [2, 3]] <|
    -- `put` is deferred: it runs on the error as well
    .branch (.opReturnDataCopy, 0) [4] (.seq [.put [1, 2, 3, 4]] .fail)
      (.seq [.effect (.opReturnDataCopy, 0) [1, 2, 3, 4], .put [1, 2, 3, 4]] .done)
  | .opBlockhash =>
    .seq [.pop 1, .get 2, .set 2 (.opBlockhash, 0) []] <|
    .branch (.opBlockhash, 0) [1, 2]
      -- `Hash.Big()` allocates
      (.seq [.new 3, .set 3 (.opBlockhash, 1) [1], .push 3, .put [1, 2]] .done)
      (.seq [.getZero 3, .push 3, .put [1, 2]] .done)
  | .opPop => .seq [.pop 1, .put [1]] .done
  | .opMload => .seq [.pop 1, .get 2, .set 2 (.opMload, 0) [1], .push 2, .put [1]] .done
  | .opMstore => IntPool.popEffectPut .opMstore [1, 2] [1, 2]
  | .opMstore8 => .seq [.pop 1, .pop 2, .effect (.opMstore8, 0) [1, 2]] .done
  | .opSstore => IntPool.popEffectPut .opSstore [1, 2] [2]
  | .opJump =>
    .seq [.pop 1] <|
    .branch (.opJump, 0) [1] .fail (.seq [.effect (.opJump, 0) [1], .put [1]] .done)
  | .opJumpi =>
    .seq [.pop 1, .pop 2] <|
    .branch (.opJumpi, 0) [2]
      (.branch (.opJumpi, 1) [1] .fail (.seq [.effect (.opJumpi, 0) [1], .put [1, 2]] .done))
      (.seq [.effect (.opJumpi, 1) [], .put [1, 2]] .done)
  | .opPush1 => .seq [.get 1, .effect (.opPush1, 0) [], .set 1 (.opPush1, 0) [], .push 1] .done
  | .makePush size pushByteSize =>
    .seq [.get 1, .set 1 (.makePush size pushByteSize, 0) [], .push 1,
      .effect (.makePush size pushByteSize, 0) []] .done
  | .makeDup size => .seq [.get 1, .back 2 size, .set 1 (.makeDup size, 0) [2], .push 1] .done
  | .makeSwap size => .seq [.swap (size + 1)] .done
  | .makeLog size =>
    .seq [.pop 1, .pop 2] <| IntPool.logTopics (.makeLog size) 0 size <|
    .seq [.effect (.makeLog size, 0) [1, 2], .put [1, 2]] .done
  | .opCreate =>
    .seq [.pop 1, .pop 2, .pop 3, .effect (.opCreate, 0) [], .call .opCreate [1, 2, 3] (some 1)] <|
    .branch (.opCreate, 0) [] (.seq [.getZero 4, .push 4] (IntPool.createEnd .opCreate [1, 2, 3])) <|
    .branch (.opCreate, 1) [] (.seq [.getZero 4, .push 4] (IntPool.createEnd .opCreate [1, 2, 3]))
      (.seq [.get 4, .set 4 (.opCreate, 0) [], .push 4] (IntPool.createEnd .opCreate [1, 2, 3]))
  | .opCreate2 =>
    .seq [.pop 1, .pop 2, .pop 3, .pop 4, .effect (.opCreate2, 0) [],
      .call .opCreate2 [1, 2, 3, 4] (some 1)] <|
    .branch (.opCreate2, 0) [] (.seq [.getZero 5, .push 5] (IntPool.createEnd .opCreate2 [1, 2, 3, 4]))
      (.seq [.get 5, .set 5 (.opCreate2, 0) [], .push 5] (IntPool.createEnd .opCreate2 [1, 2, 3, 4]))
  | .opCall => IntPool.callValue .opCall
  | .opCallCode => IntPool.callValue .opCallCode
  | .opDelegateCall => IntPool.callNoValue .opDelegateCall (some 0)
  | .opStaticCall => IntPool.callNoValue .opStaticCall none
  | .opReturn => IntPool.popEffectPut .opReturn [1, 2] [1, 2]
  | .opRevert => IntPool.popEffectPut .opRevert [1, 2] [1, 2]
  | .opSuicide =>
    .seq [.effect (.opSuicide, 0) [], .pop 1, .effect (.opSuicide, 1) [1],
      .effect (.opSuicide, 2) []] .done

/-! ## Every program passes the check -/

/-- Each topic reuses register `3`: once it is owned, the loop asks nothing
more of the registers. -/
theorem check_logTopics {Γ : Reg → Status} (hΓ : Γ 3 = .owned) (x : Execute) (i n : Nat)
    (p : PoolProg) : check Γ true (IntPool.logTopics x i n p) = check Γ true p := by
  induction n generalizing i with
  | zero => rfl
  | succ n ih =>
    have hupd : Function.update Γ 3 .owned = Γ := by
      rw [← hΓ, Function.update_eq_self]
    simp only [IntPool.logTopics, Prog.seq, List.foldr, check, Act.ok, Act.env, Act.pops, hΓ,
      hupd, ih, List.all_cons, List.all_nil, Status.readable, Status.assignable, Bool.true_and,
      Bool.and_true]

theorem poolProg_checked (x : Execute) : check startEnv true x.poolProg = true := by
  cases x with
  | makeLog size =>
    -- the topics are the one loop; every other program is checked by evaluation
    cases size with
    | zero => rfl
    | succ n =>
      show check startEnv true (.seq [.pop 1, .pop 2, .pop 3, .effect (.makeLog (n + 1), 1) [3]]
        (IntPool.logTopics (.makeLog (n + 1)) 1 n _)) = true
      simp only [Prog.seq, List.foldr, check, Act.ok, Act.env, Act.pops]
      rw [check_logTopics (by rfl)]
      rfl
  | _ => rfl

/-- The check refuses to put back an operand still on the stack. -/
example : check startEnv true (.seq [.peek 1, .put [1]] .done : PoolProg) = false := by decide

/-- The interpreter over the integer pool: the execution functions' pool
programs, `new(big.Int)` at zero, `checkVal` and `poolLimit`; the values, the
state, the loop head of `Run` with its jump table and the calls are `M`'s. -/
def interpreter {G L O : Type}
    (M : Machine Execute (Execute × Nat) (Execute × Nat) (Execute × Nat) Execute Int G L O) :
    Machine Execute (Execute × Nat) (Execute × Nat) (Execute × Nat) Execute Int G L O :=
  { M with prog := Execute.poolProg, zero := 0, poison := checkVal, limit := poolLimit }

theorem interpreter_checked {G L O : Type}
    (M : Machine Execute (Execute × Nat) (Execute × Nat) (Execute × Nat) Execute Int G L O) :
    Checked (interpreter M) :=
  poolProg_checked

/-- Every run of the interpreter from the start of `Run`, over a pool that
holds no object twice, nor the transaction's value object, nor one not yet
allocated: the pool keeps no object twice, and no object in it or put back
past its limit is on a frame's stack, in a register an operation may still
use, or a frame's value object; and with `verifyPool` the run goes in
lockstep with the plain one, showing the same frames, state, outcome, stack
values and value objects. -/
theorem intPool_discipline {G L O : Type}
    (M : Machine Execute (Execute × Nat) (Execute × Nat) (Execute × Nat) Execute Int G L O)
    {pool : List Ptr} {v fresh : Nat} (g : G) (l : L)
    (hnd : pool.Nodup) (hv : v ∉ pool) (hfresh : ∀ p ∈ v :: pool, p < fresh) (n : Nat) :
    (∀ verify heap c, run (interpreter M) verify n (Config.init heap pool v fresh g l) = some c →
      c.Safe) ∧
    ∀ heap₁ heap₂ : Ptr → Int, heap₂ v = heap₁ v → (∀ p ∈ pool, heap₂ p = checkVal) →
      Option.Rel Config.Observed (run (interpreter M) false n (Config.init heap₁ pool v fresh g l))
        (run (interpreter M) true n (Config.init heap₂ pool v fresh g l)) := by
  have hi : ∀ heap, Inv (Config.init heap pool v fresh g l :
      Config Execute (Execute × Nat) (Execute × Nat) (Execute × Nat) Execute Int G L O) :=
    fun _ => Inv.init hnd hv hfresh
  refine ⟨fun verify heap c hc => ?_, fun heap₁ heap₂ hv₂ hpool => ?_⟩
  · exact (run_inv verify (interpreter_checked M) n (hi heap) hc).safe
  · have hs := run_sim (interpreter M) (interpreter_checked M) n (hi heap₁)
      (Sim.init (M := interpreter M) hv₂.symm hpool)
    generalize run (interpreter M) false n (Config.init heap₁ pool v fresh g l) = a at hs ⊢
    generalize run (interpreter M) true n (Config.init heap₂ pool v fresh g l) = b at hs ⊢
    cases hs with
    | none => exact .none
    | some h => exact .some h.2.observed

theorem intPool_discipline_on_pushes :
    let M : Machine Execute (Execute × Nat) (Execute × Nat) (Execute × Nat) Execute Int Unit Unit
        Unit :=
      { prog := fun _ => .done
        fn := fun _ _ _ _ => 7
        cond := fun _ _ _ _ => false
        eff := fun _ _ _ _ => ((), ())
        prepare := fun _ _ _ => .inl ((), (), .opPush1)
        after := fun _ _ _ _ => .inl ((), ())
        enter := fun _ _ _ _ => ((), (), ())
        leave := fun _ _ _ _ => ((), ())
        zero := 0
        poison := 0
        limit := 0 }
    [5].Nodup ∧ 0 ∉ [5] ∧ (∀ p ∈ [0, 5], p < 6) ∧
      ∀ c, run (interpreter M) false 4 (Config.init (fun _ => 0) [5] 0 6 () ()) = some c →
        c.Safe := by
  intro M
  have hnd : [5].Nodup := by decide
  have hv : 0 ∉ [5] := by decide
  have hfresh : ∀ p ∈ [0, 5], p < 6 := by decide
  exact ⟨hnd, hv, hfresh, (intPool_discipline M () () hnd hv hfresh 4).1 false _⟩

end Btp.Vm
